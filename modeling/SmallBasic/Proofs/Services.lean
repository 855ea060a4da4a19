import Mathlib.Data.List.Basic
import SmallBasic.Proofs.ArrayCodec
import SmallBasic.Proofs.Dispatch
import SmallBasic.Proofs.Naming

/-!
# The library at work

The members of the library as a table of names with an implementation for each. An implementation
is found by the spelling of its object and its own, takes its arguments by their places, and changes
the objects step by step. So three things could go wrong that the catalogue rules out: that a name
has no implementation, that an argument is asked for which is not there, and that work is broken off
after it has changed something.

None of them does. Every method of the catalogue is implemented under its spelling and asks for no
more arguments than it takes, and what its implementation does is what the library says.

## Main definitions

* `Service` — work on the library that may be broken off and then leaves what it has done.
* `Service.method`, `Service.readField`, `Service.writeField`, `Service.bindEvent` — the
  implementations, by spelling.
* `Library.SameStacks` — states that differ only in stacks without values.

## Main statements

* `Service.method_does` — what a method does that is given as many arguments as it takes.
* `Service.readField_does`, `Service.writeField_does`, `Service.bindEvent_does` — the same for
  fields and events.
-/

namespace SmallBasic

/-! ## Implementations -/

/-- Why work on the library is broken off. Only a wrong use of a member is a program's fault. -/
inductive Trouble where
  | member (error : MemberError)
  | unimplemented (object member : String)
  | noArgument (index : Nat)
deriving DecidableEq, Repr

/-- Work on the objects of the library. What it has changed before it is broken off stays
changed. -/
abbrev Service (α : Type) := ExceptT Trouble (StateM Library) α

namespace Service

/-- What comes of the work, and what it leaves. -/
def outcome {α : Type} (service : Service α) (lib : Library) : Except Trouble α × Library :=
  service.run.run lib

def unimplemented {α : Type} (object member : String) : Service α :=
  throw (.unimplemented object member)

/-- The argument at a place. -/
def argument (args : List String) (index : Nat) : Service String :=
  match args[index]? with
  | some text => return text
  | none => throw (.noArgument index)

/-- The argument at a place, as a number. -/
def number (args : List String) (index : Nat) : Service Number := do
  return Number.ofText (← argument args index)

/-- Writes to the console. -/
def print (text : String) : Service Unit :=
  modify fun lib => { lib with console := lib.console.write text }

def window (name : String) (args : List String) (resumed : Bool) : Service Outcome := do
  match name with
  | "Write" =>
    modify Library.reveal
    print (← argument args 0)
    return .done
  | "WriteLine" =>
    modify Library.reveal
    print (← argument args 0)
    print "\n"
    return .done
  | "Read" => modifyGet Library.readLine
  | "ReadNumber" => modifyGet Library.readNumber
  | "Pause" => modifyGet (·.pause Library.pauseMessage resumed)
  | "PauseWithoutMessage" => modifyGet (·.pause "" resumed)
  | "PauseIfVisible" =>
    if (← get).window.visible then modifyGet (·.pause Library.pauseMessage resumed)
    else return .done
  | "Clear" =>
    modify fun lib => { lib with console := lib.console.clear }
    return .done
  | "Show" =>
    modify Library.reveal
    return .done
  | "Hide" =>
    modify fun lib => { lib with window := { lib.window with visible := false } }
    return .done
  | _ => unimplemented "TextWindow" name

def program (name : String) (args : List String) (resumed : Bool) : Service Outcome := do
  match name with
  | "GetArgument" =>
    let index ← number args 0
    return .ready ((← get).argument index)
  | "Delay" =>
    let length ← number args 0
    return (← get).delay length resumed
  | "End" =>
    modify fun lib => { lib with ended := true }
    return .done
  | _ => unimplemented "Program" name

def math (name : String) (args : List String) : Service String := do
  let one (f : Number → Number) : Service String := return (f (← number args 0)).toText
  let two (f : Number → Number → Number) : Service String :=
    return (f (← number args 0) (← number args 1)).toText
  match name with
  | "Abs" => one .abs
  | "ArcCos" => one .arcCos
  | "ArcSin" => one .arcSin
  | "ArcTan" => one .arcTan
  | "Ceiling" => one .ceiling
  | "Cos" => one .cos
  | "Floor" => one .floor
  | "GetDegrees" => one .degrees
  | "GetRadians" => one .radians
  | "Log" => one .log10
  | "NaturalLog" => one .naturalLog
  | "Round" => one .round
  | "Sin" => one .sin
  | "SquareRoot" => one .squareRoot
  | "Tan" => one .tan
  | "Max" => two .max
  | "Min" => two .min
  | "Power" => two .power
  | "Remainder" => two fun x y => if y.isZero then .zero false else x.remainder y
  | "GetRandomNumber" =>
    let bound ← number args 0
    let (n, dice) := (← get).dice.roll (max 1 (bound.toCount Library.maxRandom))
    modify ({ · with dice })
    return (Number.ofInt n).toText
  | _ => unimplemented "Math" name

def text (name : String) (args : List String) : Service String := do
  let s ← argument args 0
  match name with
  | "Append" => return s ++ (← argument args 1)
  | "ConvertToLowerCase" => return lowerCase s
  | "ConvertToUpperCase" => return upperCase s
  | "EndsWith" => return truthText (hasEnd s (← argument args 1))
  | "StartsWith" => return truthText (hasStart s (← argument args 1))
  | "IsSubText" => return truthText (hasPart s (← argument args 1))
  | "GetLength" => return s.length.repr
  | "GetCharacter" => return characterText (Number.ofText s)
  | "GetCharacterCode" => return ((s.toList.head?.map Char.toNat).getD 0).repr
  | "GetIndexOf" => return (position s (← argument args 1)).repr
  | "GetSubText" => return subText s (← number args 1) (← number args 2)
  | "GetSubTextToEnd" => return subText s (← number args 1) (.ofInt s.length)
  | _ => unimplemented "Text" name

def array (name : String) (args : List String) : Service String := do
  match name with
  | "ContainsIndex" =>
    return truthText (ArrayText.containsKey (← argument args 0) (← argument args 1))
  | "ContainsValue" =>
    return truthText (ArrayText.containsValue (← argument args 0) (← argument args 1))
  | "GetAllIndices" => return ArrayText.allKeys (← argument args 0)
  | "GetItemCount" => return (ArrayText.itemCount (← argument args 0)).repr
  | "IsArray" => return truthText (ArrayText.isArray (← argument args 0))
  | "SetValue" =>
    let name ← argument args 0
    -- The array comes into being before the other arguments are looked at.
    let stored := ((← get).namedArrays.get? name).getD ""
    modify fun lib => { lib with namedArrays := lib.namedArrays.insert name stored }
    let changed := ArrayText.set stored [← argument args 1] (← argument args 2)
    modify fun lib => { lib with namedArrays := lib.namedArrays.insert name changed }
    return ""
  | "GetValue" =>
    let stored := ((← get).namedArrays.get? (← argument args 0)).getD ""
    return ArrayText.get stored [← argument args 1]
  | "RemoveValue" =>
    let name ← argument args 0
    if let some stored := (← get).namedArrays.get? name then
      let changed := ArrayText.remove stored (← argument args 1)
      modify fun lib => { lib with namedArrays := lib.namedArrays.insert name changed }
    return ""
  | _ => unimplemented "Array" name

/-- Puts a stack under a name. -/
def putStack (name : String) (stack : List String) : Service Unit :=
  modify fun lib => { lib with namedStacks := lib.namedStacks.insert name stack }

def stack (method : String) (args : List String) : Service String := do
  let name ← argument args 0
  -- The stack comes into being, whatever is done with it.
  let stack := (← get).stack name
  putStack name stack
  match method with
  | "PushValue" =>
    putStack name ((← argument args 1) :: stack)
    return ""
  | "PopValue" =>
    putStack name stack.tail
    return stack.headD ""
  | "GetCount" => return stack.length.repr
  | _ => unimplemented "Stack" method

def timer (name : String) : Service String := do
  match name with
  | "Pause" =>
    modify fun lib => { lib with timer := lib.timer.pause }
    return ""
  | "Resume" =>
    modify fun lib => { lib with timer := lib.timer.resume lib.now }
    return ""
  | _ => unimplemented "Timer" name

/-- The method with a spelling. -/
def method (object name : String) (args : List String) (resumed : Bool) : Service Outcome :=
  match object with
  | "TextWindow" => window name args resumed
  | "Program" => program name args resumed
  | "Math" => .ready <$> math name args
  | "Text" => .ready <$> text name args
  | "Array" => .ready <$> array name args
  | "Stack" => .ready <$> stack name args
  | "Timer" => .ready <$> timer name
  | _ => unimplemented object name

/-- The clock field with a spelling. -/
def clockField? : String → Option ClockField
  | "Date" => some .date
  | "Time" => some .time
  | "Year" => some .year
  | "Month" => some .month
  | "Day" => some .day
  | "WeekDay" => some .weekDay
  | "Hour" => some .hour
  | "Minute" => some .minute
  | "Second" => some .second
  | "Millisecond" => some .millisecond
  | "ElapsedMilliseconds" => some .elapsedMilliseconds
  | _ => none

/-- Reads the clock, which goes on. -/
def readClock (field : ClockField) : Service String :=
  modifyGet fun lib => (lib.clock.read lib.now field, { lib with clock := lib.clock.next })

/-- The value of the field with a spelling. -/
def readField (object name : String) : Service String := do
  match object, name with
  | "TextWindow", "ForegroundColor" => return (← get).window.foreground
  | "TextWindow", "BackgroundColor" => return (← get).window.background
  | "TextWindow", "Title" => return (← get).window.title
  | "TextWindow", "CursorLeft" => return (← get).window.cursorLeft
  | "TextWindow", "CursorTop" => return (← get).window.cursorTop
  | "Math", "Pi" => return Number.pi.toText
  | "Program", "ArgumentCount" => return (← get).arguments.length.repr
  | "Program", "Directory" => return (← get).directory
  | "Timer", "Interval" => return (← get).timer.interval.repr
  | "Clock", _ =>
    match clockField? name with
    | some field => readClock field
    | none => unimplemented object name
  | _, _ => unimplemented object name

/-- Changes the window. -/
def changeWindow (change : Window → Window) : Service Unit :=
  modify fun lib => { lib with window := change lib.window }

/-- Writes the field with a spelling. -/
def writeField (object name value : String) : Service Unit :=
  match object, name with
  | "TextWindow", "ForegroundColor" => changeWindow ({ · with foreground := value })
  | "TextWindow", "BackgroundColor" => changeWindow ({ · with background := value })
  | "TextWindow", "Title" => changeWindow ({ · with title := value })
  | "TextWindow", "CursorLeft" => changeWindow ({ · with cursorLeft := value })
  | "TextWindow", "CursorTop" => changeWindow ({ · with cursorTop := value })
  | "Timer", "Interval" =>
    modify fun lib => { lib with timer := lib.timer.setInterval value lib.now }
  | _, _ => unimplemented object name

/-- Binds the event with a spelling. -/
def bindEvent (object name : String) (target : Nat) : Service Unit :=
  match object, name with
  | "Timer", "Tick" => modify fun lib => { lib with timer := lib.timer.bind target }
  | _, _ => unimplemented object name

end Service

/-! ## Agreement -/

/-- The second state differs from the first at most in which stacks without values are there. -/
structure Library.SameStacks (lib other : Library) : Prop where
  eq : other = { lib with namedStacks := other.namedStacks }
  stack_eq (name : String) : other.stack name = lib.stack name

theorem Library.SameStacks.refl (lib : Library) : lib.SameStacks lib := ⟨rfl, fun _ => rfl⟩

/-- A stack that is put back where it was found. -/
theorem Library.sameStacks_insert (lib : Library) (name : String) :
    lib.SameStacks
      { lib with namedStacks := lib.namedStacks.insert name (lib.stack name) } := by
  refine ⟨rfl, fun other => ?_⟩
  simp only [Library.stack, Table.get?_insert]
  split <;> simp_all

namespace Service

variable {args : List String}

theorem window_does (m : WindowMethod) (hargs : args.length = m.arity) (resumed : Bool)
    (lib : Library) : ∃ value next, lib.callWindow? resumed m args = some (value, next) ∧
      (window m.name args resumed).outcome lib = (.ok value, next) := by
  cases m with
  | pauseIfVisible =>
    obtain rfl := List.length_eq_zero_iff.1 hargs
    refine ⟨_, _, rfl, ?_⟩
    have houtcome : (window "PauseIfVisible" [] resumed).outcome lib =
        outcome (if lib.window.visible then modifyGet (·.pause Library.pauseMessage resumed)
          else return .done) lib := rfl
    rw [WindowMethod.name, houtcome]
    cases lib.window.visible <;> rfl
  | write | writeLine =>
    obtain ⟨text, rfl⟩ := List.length_eq_one_iff.1 hargs
    exact ⟨_, _, rfl, rfl⟩
  | _ =>
    obtain rfl := List.length_eq_zero_iff.1 hargs
    exact ⟨_, _, rfl, rfl⟩

theorem program_does (m : ProgramMethod) (hargs : args.length = m.arity) (resumed : Bool)
    (lib : Library) : ∃ value next, lib.callProgram? resumed m args = some (value, next) ∧
      (program m.name args resumed).outcome lib = (.ok value, next) := by
  cases m with
  | «end» =>
    obtain rfl := List.length_eq_zero_iff.1 hargs
    exact ⟨_, _, rfl, rfl⟩
  | getArgument | delay =>
    obtain ⟨text, rfl⟩ := List.length_eq_one_iff.1 hargs
    exact ⟨_, _, rfl, rfl⟩

theorem math_does (m : MathMethod) (hargs : args.length = m.arity) (lib : Library) :
    ∃ value next, lib.callMath? m args = some (value, next) ∧
      (math m.name args).outcome lib = (.ok value, next) := by
  cases m with
  | max | min | power | remainder =>
    obtain ⟨x, y, rfl⟩ := List.length_eq_two.1 hargs
    exact ⟨_, _, rfl, rfl⟩
  | _ =>
    obtain ⟨x, rfl⟩ := List.length_eq_one_iff.1 hargs
    exact ⟨_, _, rfl, rfl⟩

theorem text_does (m : TextMethod) (hargs : args.length = m.arity) (lib : Library) :
    ∃ value, m.value? args = some value ∧
      (text m.name args).outcome lib = (.ok value, lib) := by
  cases m with
  | getSubText =>
    obtain ⟨s, start, length, rfl⟩ := List.length_eq_three.1 hargs
    exact ⟨_, rfl, rfl⟩
  | convertToLowerCase | convertToUpperCase | getCharacter | getCharacterCode | getLength =>
    obtain ⟨s, rfl⟩ := List.length_eq_one_iff.1 hargs
    exact ⟨_, rfl, rfl⟩
  | _ =>
    obtain ⟨s, t, rfl⟩ := List.length_eq_two.1 hargs
    exact ⟨_, rfl, rfl⟩

theorem array_does (m : ArrayMethod) (hargs : args.length = m.arity) (lib : Library) :
    ∃ value next, lib.callArray? m args = some (value, next) ∧
      (array m.name args).outcome lib = (.ok value, next) := by
  cases m with
  | setValue =>
    obtain ⟨name, key, value, rfl⟩ := List.length_eq_three.1 hargs
    refine ⟨_, _, rfl, ?_⟩
    rw [← Table.insert_insert]
    rfl
  | removeValue =>
    obtain ⟨name, key, rfl⟩ := List.length_eq_two.1 hargs
    refine ⟨_, _, rfl, ?_⟩
    have houtcome : (array "RemoveValue" [name, key]).outcome lib =
        outcome (do
          if let some stored := lib.namedArrays.get? name then
            let changed := ArrayText.remove stored key
            modify fun lib => { lib with namedArrays := lib.namedArrays.insert name changed }
          return "") lib := rfl
    rw [ArrayMethod.name, houtcome]
    cases lib.namedArrays.get? name <;> rfl
  | getAllIndices | getItemCount | isArray =>
    obtain ⟨array, rfl⟩ := List.length_eq_one_iff.1 hargs
    exact ⟨_, _, rfl, rfl⟩
  | _ =>
    obtain ⟨array, key, rfl⟩ := List.length_eq_two.1 hargs
    exact ⟨_, _, rfl, rfl⟩

theorem stack_does (m : StackMethod) (hargs : args.length = m.arity) (lib : Library) :
    ∃ value next last, lib.callStack? m args = some (value, next) ∧
      (stack m.name args).outcome lib = (.ok value, last) ∧ next.SameStacks last := by
  cases m with
  | pushValue =>
    obtain ⟨name, value, rfl⟩ := List.length_eq_two.1 hargs
    have houtcome : (stack "PushValue" [name, value]).outcome lib =
        (.ok "", { lib with namedStacks :=
          (lib.namedStacks.insert name (lib.stack name)).insert name (value :: lib.stack name) }) :=
      rfl
    rw [Table.insert_insert] at houtcome
    exact ⟨_, _, _, rfl, houtcome, .refl _⟩
  | popValue =>
    obtain ⟨name, rfl⟩ := List.length_eq_one_iff.1 hargs
    have houtcome : (stack "PopValue" [name]).outcome lib =
        (.ok ((lib.stack name).headD ""), { lib with namedStacks :=
          (lib.namedStacks.insert name (lib.stack name)).insert name (lib.stack name).tail }) := rfl
    rw [Table.insert_insert] at houtcome
    cases hstack : lib.stack name with
    | nil =>
      rw [hstack] at houtcome
      refine ⟨"", lib, _, by simp only [Library.callStack?, hstack], houtcome, ?_⟩
      have hput := lib.sameStacks_insert name
      rwa [hstack] at hput
    | cons value rest =>
      rw [hstack] at houtcome
      exact ⟨value, { lib with namedStacks := lib.namedStacks.insert name rest }, _,
        by simp only [Library.callStack?, hstack], houtcome, .refl _⟩
  | getCount =>
    obtain ⟨name, rfl⟩ := List.length_eq_one_iff.1 hargs
    exact ⟨_, _, _, rfl, rfl, lib.sameStacks_insert name⟩

theorem timer_does (m : TimerMethod) (lib : Library) :
    ∃ value next, lib.callTimer? m [] = some (value, next) ∧
      (timer m.name).outcome lib = (.ok value, next) := by
  cases m <;> exact ⟨_, _, rfl, rfl⟩

theorem outcome_bind {α β : Type} (service : Service α) (f : α → Service β) (lib : Library) :
    (service >>= f).outcome lib =
      match service.outcome lib with
      | (.ok value, next) => (f value).outcome next
      | (.error trouble, next) => (.error trouble, next) := by
  have hunfold : (service >>= f).outcome lib =
      (ExceptT.bindCont f (service.outcome lib).1).run (service.outcome lib).2 := rfl
  rw [hunfold]
  obtain ⟨value | trouble, next⟩ := service.outcome lib <;> rfl

theorem outcome_map {α β : Type} (f : α → β) {service : Service α} {lib next : Library} {value : α}
    (hservice : service.outcome lib = (.ok value, next)) :
    (f <$> service).outcome lib = (.ok (f value), next) := by
  rw [map_eq_pure_bind, outcome_bind, hservice]
  rfl

/-- A method that is given as many arguments as it takes does what the library says. -/
theorem method_does (m : Method) (hargs : args.length = m.arity) (resumed : Bool) (lib : Library) :
    ∃ value next last, lib.call? m args resumed = some (value, next) ∧
      (method m.object.name m.name args resumed).outcome lib = (.ok value, last) ∧
      next.SameStacks last := by
  cases m with
  | window m =>
    obtain ⟨value, next, hcall, houtcome⟩ := window_does m hargs resumed lib
    exact ⟨value, next, next, hcall, houtcome, .refl _⟩
  | program m =>
    obtain ⟨value, next, hcall, houtcome⟩ := program_does m hargs resumed lib
    exact ⟨value, next, next, hcall, houtcome, .refl _⟩
  | math m =>
    obtain ⟨value, next, hcall, houtcome⟩ := math_does m hargs lib
    exact ⟨_, next, next, congrArg Library.ready hcall, outcome_map _ houtcome, .refl _⟩
  | text m =>
    obtain ⟨value, hvalue, houtcome⟩ := text_does m hargs lib
    exact ⟨_, lib, lib, congrArg (Library.ready ∘ Option.map (·, lib)) hvalue,
      outcome_map _ houtcome, .refl _⟩
  | array m =>
    obtain ⟨value, next, hcall, houtcome⟩ := array_does m hargs lib
    exact ⟨_, next, next, congrArg Library.ready hcall, outcome_map _ houtcome, .refl _⟩
  | stack m =>
    obtain ⟨value, next, last, hcall, houtcome, hsame⟩ := stack_does m hargs lib
    exact ⟨_, next, last, congrArg Library.ready hcall, outcome_map _ houtcome, hsame⟩
  | timer m =>
    obtain rfl := List.length_eq_zero_iff.1 hargs
    obtain ⟨value, next, hcall, houtcome⟩ := timer_does m lib
    exact ⟨_, next, next, congrArg Library.ready hcall, outcome_map _ houtcome, .refl _⟩

theorem readField_does (field : Field) (lib : Library) :
    (readField field.object.name field.name).outcome lib =
      (.ok (lib.readField field), lib.afterReading field) := by
  cases field with
  | window f => cases f <;> rfl
  | clock f => cases f <;> rfl
  | pi | argumentCount | directory | interval => rfl

theorem writeField_does {field : Field} (hwritable : field.isWritable = true) (value : String)
    (lib : Library) : (writeField field.object.name field.name value).outcome lib =
      (.ok (), lib.writeField field value) := by
  cases field with
  | window f => cases f <;> rfl
  | interval => rfl
  | pi | argumentCount | directory | clock => cases hwritable

theorem bindEvent_does (event : Event) (target : Nat) (lib : Library) :
    (bindEvent event.object.name event.name target).outcome lib =
      (.ok (), lib.bindEvent event target) := by
  cases event
  rfl

end Service

end SmallBasic
