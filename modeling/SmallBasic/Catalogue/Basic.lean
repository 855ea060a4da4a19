/-!
# The objects of the library

The library is a fixed set of objects, each with methods, fields and events. A method has an arity,
and a field may be writable. This file lists them with the spelling under which they are shown.

## Main definitions

* `Method`, `Field`, `Event` — the members, by object.
* `Object.members` — the members of an object.
-/

namespace SmallBasic

/-- Methods of the text window. -/
inductive WindowMethod where
  | write | writeLine | read | readNumber | pause | pauseWithoutMessage | pauseIfVisible | clear
  | show | hide
deriving DecidableEq, Repr

namespace WindowMethod

def all : List WindowMethod :=
  [.write, .writeLine, .read, .readNumber, .pause, .pauseWithoutMessage, .pauseIfVisible, .clear,
    .show, .hide]

def name : WindowMethod → String
  | .write => "Write"
  | .writeLine => "WriteLine"
  | .read => "Read"
  | .readNumber => "ReadNumber"
  | .pause => "Pause"
  | .pauseWithoutMessage => "PauseWithoutMessage"
  | .pauseIfVisible => "PauseIfVisible"
  | .clear => "Clear"
  | .show => "Show"
  | .hide => "Hide"

def arity : WindowMethod → Nat
  | .write | .writeLine => 1
  | _ => 0

end WindowMethod

/-- Methods of the mathematical object. -/
inductive MathMethod where
  | abs | arcCos | arcSin | arcTan | ceiling | cos | floor | getDegrees | getRadians
  | getRandomNumber | log | naturalLog | round | sin | squareRoot | tan
  | max | min | power | remainder
deriving DecidableEq, Repr

namespace MathMethod

def all : List MathMethod :=
  [.abs, .arcCos, .arcSin, .arcTan, .ceiling, .cos, .floor, .getDegrees, .getRadians,
    .getRandomNumber, .log, .naturalLog, .round, .sin, .squareRoot, .tan, .max, .min, .power,
    .remainder]

def name : MathMethod → String
  | .abs => "Abs"
  | .arcCos => "ArcCos"
  | .arcSin => "ArcSin"
  | .arcTan => "ArcTan"
  | .ceiling => "Ceiling"
  | .cos => "Cos"
  | .floor => "Floor"
  | .getDegrees => "GetDegrees"
  | .getRadians => "GetRadians"
  | .getRandomNumber => "GetRandomNumber"
  | .log => "Log"
  | .naturalLog => "NaturalLog"
  | .round => "Round"
  | .sin => "Sin"
  | .squareRoot => "SquareRoot"
  | .tan => "Tan"
  | .max => "Max"
  | .min => "Min"
  | .power => "Power"
  | .remainder => "Remainder"

def arity : MathMethod → Nat
  | .max | .min | .power | .remainder => 2
  | _ => 1

end MathMethod

/-- Methods of the text object. -/
inductive TextMethod where
  | append | convertToLowerCase | convertToUpperCase | endsWith | startsWith | getCharacter
  | getCharacterCode | getIndexOf | getLength | getSubText | getSubTextToEnd | isSubText
deriving DecidableEq, Repr

namespace TextMethod

def all : List TextMethod :=
  [.append, .convertToLowerCase, .convertToUpperCase, .endsWith, .startsWith, .getCharacter,
    .getCharacterCode, .getIndexOf, .getLength, .getSubText, .getSubTextToEnd, .isSubText]

def name : TextMethod → String
  | .append => "Append"
  | .convertToLowerCase => "ConvertToLowerCase"
  | .convertToUpperCase => "ConvertToUpperCase"
  | .endsWith => "EndsWith"
  | .startsWith => "StartsWith"
  | .getCharacter => "GetCharacter"
  | .getCharacterCode => "GetCharacterCode"
  | .getIndexOf => "GetIndexOf"
  | .getLength => "GetLength"
  | .getSubText => "GetSubText"
  | .getSubTextToEnd => "GetSubTextToEnd"
  | .isSubText => "IsSubText"

def arity : TextMethod → Nat
  | .convertToLowerCase | .convertToUpperCase | .getCharacter | .getCharacterCode | .getLength => 1
  | .getSubText => 3
  | _ => 2

end TextMethod

/-- Methods of the array object: questions about an array, and arrays kept under a name. -/
inductive ArrayMethod where
  | containsIndex | containsValue | getAllIndices | getItemCount | isArray
  | setValue | getValue | removeValue
deriving DecidableEq, Repr

namespace ArrayMethod

def all : List ArrayMethod :=
  [.containsIndex, .containsValue, .getAllIndices, .getItemCount, .isArray, .setValue, .getValue,
    .removeValue]

def name : ArrayMethod → String
  | .containsIndex => "ContainsIndex"
  | .containsValue => "ContainsValue"
  | .getAllIndices => "GetAllIndices"
  | .getItemCount => "GetItemCount"
  | .isArray => "IsArray"
  | .setValue => "SetValue"
  | .getValue => "GetValue"
  | .removeValue => "RemoveValue"

def arity : ArrayMethod → Nat
  | .getAllIndices | .getItemCount | .isArray => 1
  | .setValue => 3
  | _ => 2

end ArrayMethod

/-- Methods of the stacks that are kept under a name. -/
inductive StackMethod where
  | pushValue | popValue | getCount
deriving DecidableEq, Repr

namespace StackMethod

def all : List StackMethod := [.pushValue, .popValue, .getCount]

def name : StackMethod → String
  | .pushValue => "PushValue"
  | .popValue => "PopValue"
  | .getCount => "GetCount"

def arity : StackMethod → Nat
  | .pushValue => 2
  | _ => 1

end StackMethod

/-- Methods of the running program. -/
inductive ProgramMethod where
  | getArgument | delay | end
deriving DecidableEq, Repr

namespace ProgramMethod

def all : List ProgramMethod := [.getArgument, .delay, .end]

def name : ProgramMethod → String
  | .getArgument => "GetArgument"
  | .delay => "Delay"
  | .end => "End"

def arity : ProgramMethod → Nat
  | .end => 0
  | _ => 1

end ProgramMethod

/-- Methods of the timer. -/
inductive TimerMethod where
  | pause | resume
deriving DecidableEq, Repr

namespace TimerMethod

def all : List TimerMethod := [.pause, .resume]

def name : TimerMethod → String
  | .pause => "Pause"
  | .resume => "Resume"

end TimerMethod

/-- Fields of the text window. All can be written. -/
inductive WindowField where
  | foregroundColor | backgroundColor | title | cursorLeft | cursorTop
deriving DecidableEq, Repr

namespace WindowField

def all : List WindowField := [.foregroundColor, .backgroundColor, .title, .cursorLeft, .cursorTop]

def name : WindowField → String
  | .foregroundColor => "ForegroundColor"
  | .backgroundColor => "BackgroundColor"
  | .title => "Title"
  | .cursorLeft => "CursorLeft"
  | .cursorTop => "CursorTop"

end WindowField

/-- Fields of the clock. None can be written. -/
inductive ClockField where
  | date | time | year | month | day | weekDay | hour | minute | second | millisecond
  | elapsedMilliseconds
deriving DecidableEq, Repr

namespace ClockField

def all : List ClockField :=
  [.date, .time, .year, .month, .day, .weekDay, .hour, .minute, .second, .millisecond,
    .elapsedMilliseconds]

def name : ClockField → String
  | .date => "Date"
  | .time => "Time"
  | .year => "Year"
  | .month => "Month"
  | .day => "Day"
  | .weekDay => "WeekDay"
  | .hour => "Hour"
  | .minute => "Minute"
  | .second => "Second"
  | .millisecond => "Millisecond"
  | .elapsedMilliseconds => "ElapsedMilliseconds"

end ClockField

/-- The objects of the library. -/
inductive Object where
  | textWindow | math | text | array | stack | program | clock | timer
deriving DecidableEq, Repr

namespace Object

def all : List Object := [.textWindow, .math, .text, .array, .stack, .program, .clock, .timer]

def name : Object → String
  | .textWindow => "TextWindow"
  | .math => "Math"
  | .text => "Text"
  | .array => "Array"
  | .stack => "Stack"
  | .program => "Program"
  | .clock => "Clock"
  | .timer => "Timer"

end Object

/-- A method of some object. -/
inductive Method where
  | window (method : WindowMethod)
  | math (method : MathMethod)
  | text (method : TextMethod)
  | array (method : ArrayMethod)
  | stack (method : StackMethod)
  | program (method : ProgramMethod)
  | timer (method : TimerMethod)
deriving DecidableEq, Repr

namespace Method

def object : Method → Object
  | .window _ => .textWindow
  | .math _ => .math
  | .text _ => .text
  | .array _ => .array
  | .stack _ => .stack
  | .program _ => .program
  | .timer _ => .timer

def name : Method → String
  | .window m => m.name
  | .math m => m.name
  | .text m => m.name
  | .array m => m.name
  | .stack m => m.name
  | .program m => m.name
  | .timer m => m.name

/-- The number of arguments that a method takes. -/
def arity : Method → Nat
  | .window m => m.arity
  | .math m => m.arity
  | .text m => m.arity
  | .array m => m.arity
  | .stack m => m.arity
  | .program m => m.arity
  | .timer _ => 0

end Method

/-- A field of some object. -/
inductive Field where
  | window (field : WindowField)
  | pi
  | argumentCount
  | directory
  | clock (field : ClockField)
  | interval
deriving DecidableEq, Repr

namespace Field

def object : Field → Object
  | .window _ => .textWindow
  | .pi => .math
  | .argumentCount | .directory => .program
  | .clock _ => .clock
  | .interval => .timer

def name : Field → String
  | .window f => f.name
  | .pi => "Pi"
  | .argumentCount => "ArgumentCount"
  | .directory => "Directory"
  | .clock f => f.name
  | .interval => "Interval"

/-- Whether a program may assign to a field. -/
def isWritable : Field → Bool
  | .window _ | .interval => true
  | _ => false

end Field

/-- An event of some object: the tick of the timer is the only one. -/
inductive Event where
  | tick
deriving DecidableEq, Repr

namespace Event

def object : Event → Object
  | .tick => .timer

def name : Event → String
  | .tick => "Tick"

end Event

/-- What a name after an object and a dot can stand for. -/
inductive Member where
  | method (method : Method)
  | field (field : Field)
  | event (event : Event)
deriving DecidableEq, Repr

def Member.name : Member → String
  | .method m => m.name
  | .field f => f.name
  | .event e => e.name

/-- The members of an object. -/
def Object.members : Object → List Member
  | .textWindow =>
    WindowMethod.all.map (.method <| .window ·) ++ WindowField.all.map (.field <| .window ·)
  | .math => MathMethod.all.map (.method <| .math ·) ++ [.field .pi]
  | .text => TextMethod.all.map (.method <| .text ·)
  | .array => ArrayMethod.all.map (.method <| .array ·)
  | .stack => StackMethod.all.map (.method <| .stack ·)
  | .program =>
    [.field .argumentCount, .field .directory] ++ ProgramMethod.all.map (.method <| .program ·)
  | .clock => ClockField.all.map (.field <| .clock ·)
  | .timer => .field .interval :: TimerMethod.all.map (.method <| .timer ·) ++ [.event .tick]

end SmallBasic
