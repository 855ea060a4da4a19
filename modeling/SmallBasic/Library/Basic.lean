import SmallBasic.Catalogue.Resolve
import SmallBasic.Console
import SmallBasic.Library.Clock
import SmallBasic.Library.Dice
import SmallBasic.Library.Functions
import SmallBasic.Timer

/-!
# The library

The state of all library objects, and what its methods, fields and events do to it. A method that
cannot finish yet says what it waits for; it is called again, as a resumed call, once that has come.

## Main definitions

* `Block` — what a call can wait for.
* `Library` — the state of the objects.
* `Library.call`, `Library.readField`, `Library.writeField`, `Library.bindEvent` — use of a member.
* `Library.afterReading` — the state after a field was read.
* `Library.callByName`, … — the same for members given by name, with the errors this can have.
-/

namespace SmallBasic

/-- What a call waits for: an input line, a key press, or an instant in the unit of the timer. -/
inductive Block where
  | input
  | signal
  | instant (time : Nat)
deriving DecidableEq, Repr

/-- What a call comes to: a value, or a wait. -/
inductive Outcome where
  | ready (value : String)
  | blocked (block : Block)
deriving DecidableEq, Repr

/-- The outcome of a method that has no value. -/
def Outcome.done : Outcome := .ready ""

/-- The text window. It becomes visible as soon as it is used. -/
structure Window where
  visible : Bool := false
  foreground : String := "Gray"
  background : String := "Black"
  title : String := ""
  cursorLeft : String := "0"
  cursorTop : String := "0"
deriving DecidableEq, Repr

namespace Window

def read (window : Window) : WindowField → String
  | .foregroundColor => window.foreground
  | .backgroundColor => window.background
  | .title => window.title
  | .cursorLeft => window.cursorLeft
  | .cursorTop => window.cursorTop

def write (window : Window) (field : WindowField) (value : String) : Window :=
  match field with
  | .foregroundColor => { window with foreground := value }
  | .backgroundColor => { window with background := value }
  | .title => { window with title := value }
  | .cursorLeft => { window with cursorLeft := value }
  | .cursorTop => { window with cursorTop := value }

end Window

/-- The state of the library objects of one run. Stacks have their top first, and arrays are kept as
text. -/
structure Library where
  console : Console := {}
  window : Window := {}
  timer : Timer := {}
  namedStacks : Table (List String) := []
  namedArrays : Table String := []
  arguments : List String := []
  directory : String := ""
  now : Nat := 0
  clock : Clock := {}
  dice : Dice := {}
  ended : Bool := false

namespace Library

/-- Shows the window. -/
def reveal (lib : Library) : Library := { lib with window := { lib.window with visible := true } }

/-- Writes a text to the window. -/
def write (lib : Library) (text : String) : Library :=
  { lib.reveal with console := lib.console.write text }

/-- Takes an input line. At the end of input the line is empty. -/
def readLine (lib : Library) : Outcome × Library :=
  let lib := lib.reveal
  if lib.console.isReady then
    let (line, console) := lib.console.take
    (.ready (line.getD ""), { lib with console })
  else (.blocked .input, lib)

/-- Takes input lines up to the first one that is a number. At the end of input the number is
zero. -/
def readNumber (lib : Library) : Outcome × Library :=
  let lib := lib.reveal
  let skipped := lib.console.pending.takeWhile fun line => (Number.ofText? line).isNone
  let console := lib.console.drop skipped.length
  if console.isReady then
    let (line, console) := console.take
    (.ready (Number.ofText (line.getD "0")).toText, { lib with console })
  else (.blocked .input, { lib with console })

/-- The message of a pause. -/
def pauseMessage : String := "Press any key to continue...\n"

/-- Waits for a key press, which is any input line. The resumed call takes it. -/
def pause (lib : Library) (message : String) (resumed : Bool) : Outcome × Library :=
  if resumed then (.done, { lib with console := lib.console.take.2 })
  else (.blocked .signal, lib.write message)

/-- Methods of the text window. -/
def callWindow? (lib : Library) (resumed : Bool) :
    WindowMethod → List String → Option (Outcome × Library)
  | .write, [text] => some (.done, lib.write text)
  | .writeLine, [text] => some (.done, (lib.write text).write "\n")
  | .read, [] => some lib.readLine
  | .readNumber, [] => some lib.readNumber
  | .pause, [] => some (lib.pause pauseMessage resumed)
  | .pauseWithoutMessage, [] => some (lib.pause "" resumed)
  | .pauseIfVisible, [] =>
    some (if lib.window.visible then lib.pause pauseMessage resumed else (.done, lib))
  | .clear, [] => some (.done, { lib with console := lib.console.clear })
  | .show, [] => some (.done, lib.reveal)
  | .hide, [] => some (.done, { lib with window := { lib.window with visible := false } })
  | _, _ => none

/-- The longest delay, in milliseconds. -/
def maxDelay : Nat := 18446744073709551615

/-- Waits for so many milliseconds. -/
def delay (lib : Library) (length : Number) (resumed : Bool) : Outcome :=
  if resumed || length.le (.zero false) then .done
  else .blocked (.instant (lib.now + lib.timer.span (length.toCount maxDelay)))

/-- The argument with a number, counted from one. -/
def argument (lib : Library) (index : Number) : String :=
  match index.toCount (lib.arguments.length + 1) with
  | 0 => ""
  | i + 1 => lib.arguments.getD i ""

/-- Methods of the running program. -/
def callProgram? (lib : Library) (resumed : Bool) :
    ProgramMethod → List String → Option (Outcome × Library)
  | .getArgument, [index] => some (.ready (lib.argument (Number.ofText index)), lib)
  | .delay, [length] => some (lib.delay (Number.ofText length) resumed, lib)
  | .end, [] => some (.done, { lib with ended := true })
  | _, _ => none

/-- The largest random number. -/
def maxRandom : Nat := 9223372036854775807

/-- Mathematical methods. -/
def callMath? (lib : Library) (method : MathMethod) (args : List String) :
    Option (String × Library) :=
  match method, args with
  | .getRandomNumber, [bound] =>
    let (n, dice) := lib.dice.roll (max 1 ((Number.ofText bound).toCount maxRandom))
    some ((Number.ofInt n).toText, { lib with dice })
  | _, _ => (method.value? (args.map Number.ofText)).map fun value => (value.toText, lib)

/-- Methods on arrays: questions about an array text, and arrays kept under a name. -/
def callArray? (lib : Library) : ArrayMethod → List String → Option (String × Library)
  | .containsIndex, [array, key] => some (truthText (ArrayText.containsKey array key), lib)
  | .containsValue, [array, value] => some (truthText (ArrayText.containsValue array value), lib)
  | .getAllIndices, [array] => some (ArrayText.allKeys array, lib)
  | .getItemCount, [array] => some ((ArrayText.itemCount array).repr, lib)
  | .isArray, [array] => some (truthText (ArrayText.isArray array), lib)
  | .setValue, [name, key, value] =>
    let array := ArrayText.set ((lib.namedArrays.get? name).getD "") [key] value
    some ("", { lib with namedArrays := lib.namedArrays.insert name array })
  | .getValue, [name, key] => some (ArrayText.get ((lib.namedArrays.get? name).getD "") [key], lib)
  | .removeValue, [name, key] =>
    some ("", match lib.namedArrays.get? name with
      | some array =>
        { lib with namedArrays := lib.namedArrays.insert name (ArrayText.remove array key) }
      | none => lib)
  | _, _ => none

/-- The stack under a name. -/
def stack (lib : Library) (name : String) : List String := (lib.namedStacks.get? name).getD []

/-- Methods on the stacks that are kept under a name. An empty stack gives the empty text. -/
def callStack? (lib : Library) (method : StackMethod) (args : List String) :
    Option (String × Library) :=
  match method, args with
  | .pushValue, [name, value] =>
    some ("", { lib with namedStacks := lib.namedStacks.insert name (value :: lib.stack name) })
  | .popValue, [name] =>
    some (match lib.stack name with
      | value :: rest => (value, { lib with namedStacks := lib.namedStacks.insert name rest })
      | [] => ("", lib))
  | .getCount, [name] => some ((lib.stack name).length.repr, lib)
  | _, _ => none

/-- Methods of the timer. -/
def callTimer? (lib : Library) : TimerMethod → List String → Option (String × Library)
  | .pause, [] => some ("", { lib with timer := lib.timer.pause })
  | .resume, [] => some ("", { lib with timer := lib.timer.resume lib.now })
  | _, _ => none

/-- A method that never waits. -/
def ready : Option (String × Library) → Option (Outcome × Library) :=
  Option.map fun (value, lib) => (.ready value, lib)

/-- Calls a method. `resumed` tells whether the same call has waited before. Nothing is returned for
a wrong number of arguments. -/
def call? (lib : Library) (method : Method) (args : List String) (resumed : Bool) :
    Option (Outcome × Library) :=
  match method with
  | .window m => lib.callWindow? resumed m args
  | .program m => lib.callProgram? resumed m args
  | .math m => ready (lib.callMath? m args)
  | .text m => ready ((m.value? args).map (·, lib))
  | .array m => ready (lib.callArray? m args)
  | .stack m => ready (lib.callStack? m args)
  | .timer m => ready (lib.callTimer? m args)

/-- Calls a method. The only error is a wrong number of arguments. -/
def call (lib : Library) (method : Method) (args : List String) (resumed : Bool) :
    Except MemberError (Outcome × Library) :=
  match lib.call? method args resumed with
  | some result => .ok result
  | none => .error (.wrongArity method.object.name method.name method.arity args.length)

/-- The value of a field. -/
def readField (lib : Library) : Field → String
  | .window f => lib.window.read f
  | .pi => Number.pi.toText
  | .argumentCount => lib.arguments.length.repr
  | .directory => lib.directory
  | .clock f => lib.clock.read lib.now f
  | .interval => lib.timer.interval.repr

/-- What reading a field changes: the clock goes on. -/
def afterReading (lib : Library) : Field → Library
  | .clock _ => { lib with clock := lib.clock.next }
  | _ => lib

/-- Writes a field. One that cannot be written stays as it is. -/
def writeField (lib : Library) (field : Field) (value : String) : Library :=
  match field with
  | .window f => { lib with window := lib.window.write f value }
  | .interval => { lib with timer := lib.timer.setInterval value lib.now }
  | _ => lib

/-- Binds an event to the subroutine body that starts at a statement. -/
def bindEvent (lib : Library) (event : Event) (target : Nat) : Library :=
  match event with
  | .tick => { lib with timer := lib.timer.bind target }

/-- Whether what a call waits for has come. -/
def isResolved (lib : Library) (now : Nat) : Block → Bool
  | .input | .signal => lib.console.isReady
  | .instant time => time ≤ now

/-- Sets the time. -/
def setNow (lib : Library) (now : Nat) : Library := { lib with now }

/-- The subroutine body that an event starts at `now`, if one is due. -/
def due (lib : Library) (now : Nat) : Option Nat × Library :=
  let (handler?, timer) := lib.timer.poll now
  (handler?, { lib with timer })

/-- The instant of the next event that starts something. -/
def nextDue? (lib : Library) : Option Nat := if lib.timer.isLive then lib.timer.due? else none

/-- Calls a method given by name. -/
def callByName (lib : Library) (object member : String) (args : List String) (resumed : Bool) :
    Except MemberError (Outcome × Library) := do
  lib.call (← Method.resolve object member args.length) args resumed

/-- Reads a field given by name. -/
def readByName (lib : Library) (object member : String) : Except MemberError String := do
  return lib.readField (← Field.resolve object member)

/-- Writes a field given by name. -/
def writeByName (lib : Library) (object member value : String) : Except MemberError Library := do
  return lib.writeField (← Field.resolveWritable object member) value

/-- Binds an event given by name. -/
def bindByName (lib : Library) (object member : String) (target : Nat) :
    Except MemberError Library := do
  return lib.bindEvent (← Event.resolve object member) target

end Library

end SmallBasic
