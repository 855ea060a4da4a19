import SmallBasic.Calendar
import SmallBasic.FileTree
import SmallBasic.Session
import SmallBasic.Text.Lines

/-!
# The command line

    smallbasic [-v | --verbose]... [--tick-ms N] [--] FILE [ARGUMENT]...
    smallbasic -V | --version
    smallbasic -h | --help

Options stand before the file. Directly after the file a known option still counts as one; from the
first other word on, everything is an argument of the program. The word `--` ends the options.

## Main definitions

* `CommandLine.parse?` — what the words ask for.
* `Invocation.load` — the program in a file, or the report that there is none.
* `CommandLine.execute` — everything the command does, given its files and its input.
-/

namespace SmallBasic

/-- A request to run the program in a file. -/
structure Invocation where
  file : String
  arguments : List String := []
  verbosity : Nat := 0
  idle : Nat := 1
deriving DecidableEq, Repr

/-- What the command is asked to do. -/
inductive CommandLine where
  | run (invocation : Invocation)
  | version
  | help
deriving DecidableEq, Repr

/-- The options read so far, and the file if it has been given. -/
structure Options where
  file? : Option String := none
  verbosity : Nat := 0
  idle? : Option Nat := none
deriving DecidableEq, Repr

namespace Options

/-- The invocation with these arguments, if there is a file. -/
def complete? (options : Options) (arguments : List String) : Option CommandLine :=
  options.file?.map fun file =>
    .run { file, arguments, verbosity := options.verbosity, idle := options.idle?.getD 1 }

/-- Takes words that are no options: the file, unless it has been given, and the arguments. The
name of a file is not empty. -/
def positional? (options : Options) (words : List String) : Option CommandLine :=
  match options.file?, words with
  | some _, arguments => options.complete? arguments
  | none, [] => none
  | none, file :: arguments =>
    if file.isEmpty then none else { options with file? := some file }.complete? arguments

/-- Reads a number of at most 64 bits. It may have a plus sign. -/
def readWord? (text : String) : Option Nat :=
  let digits := match text.toList with
    | '+' :: rest => rest
    | cs => cs
  let value := Decimal.digitsValue digits
  if digits ≠ [] ∧ digits.all Decimal.isDigit ∧ value ≤ 18446744073709551615 then some value
  else none

/-- Sets the length of a rest, which can be given once. -/
def setIdle? (options : Options) (value : String) : Option Options :=
  match options.idle?, readWord? value with
  | none, some idle => some { options with idle? := some idle }
  | _, _ => none

/-- The letters that are options. -/
def isOption (c : Char) : Bool := c == 'v' || c == 'V' || c == 'h'

/-- Reads a word of option letters. The result is a finished request, or the options to go on
with. -/
def readLetters? (options : Options) : List Char → Option (CommandLine ⊕ Options)
  | [] => some (.inr options)
  | 'v' :: cs => { options with verbosity := options.verbosity + 1 }.readLetters? cs
  | 'V' :: _ => some (.inl .version)
  | 'h' :: _ => some (.inl .help)
  | _ :: _ => none

/-- The names of options that take no value. -/
def flags : List String := ["--verbose", "--version", "--help"]

/-- What a word turns out to be. -/
inductive Reading where
  /-- The request is complete. -/
  | finished (request : CommandLine)
  /-- The word was an option. -/
  | option (options : Options)
  /-- The word is the file. -/
  | file (options : Options)
  /-- The word is the first argument of the program. -/
  | argument
  /-- The word is an error. -/
  | refused

/-- Reads a word that is neither an option by itself nor the value of one. -/
def readOther (options : Options) (word : String) : Reading :=
  match word.toList with
  | '-' :: '-' :: cs =>
    match word.splitOn "=" with
    | "--tick-ms" :: _ =>
      match options.setIdle? (String.ofList (cs.drop "tick-ms=".length)) with
      | some next => .option next
      | none => .refused
    | name :: _ =>
      if flags.contains name then .refused
      else if options.file?.isSome then .argument else .refused
    | [] => .refused
  | '-' :: c :: cs =>
    if options.file?.isSome && !(c :: cs).all isOption then .argument
    else match options.readLetters? (c :: cs) with
      | some (.inl request) => .finished request
      | some (.inr next) => .option next
      | none => .refused
  | [] => if options.file?.isSome then .argument else .refused
  | _ => if options.file?.isSome then .argument else .file { options with file? := some word }

/-- Reads the words of the command line. -/
def read? (options : Options) : List String → Option CommandLine
  | [] => options.complete? []
  | "--" :: words => options.positional? words
  | "--version" :: _ => some .version
  | "--help" :: _ => some .help
  | "--verbose" :: words => { options with verbosity := options.verbosity + 1 }.read? words
  | ["--tick-ms"] => none
  | "--tick-ms" :: value :: words =>
    match options.setIdle? value with
    | some next => next.read? words
    | none => none
  | word :: words =>
    match options.readOther word with
    | .finished request => some request
    | .option next | .file next => next.read? words
    | .argument => options.complete? (word :: words)
    | .refused => none

end Options

/-- What the words of the command line ask for, if they are in order. -/
def CommandLine.parse? (words : List String) : Option CommandLine := ({} : Options).read? words

namespace Invocation

/-- The program in the file, or the report that there is none. -/
def load (invocation : Invocation) (content : Except FileError ByteArray) :
    Except String Program :=
  match content with
  | .error error => .error (invocation.file ++ ": " ++ error.message ++ "\n")
  | .ok bytes =>
    match String.fromUTF8? bytes with
    | none => .error (invocation.file ++ ": stream did not contain valid UTF-8\n")
    | some source =>
      match Program.parse source with
      | .ok program => .ok program
      | .error errors => .error (SyntaxError.annotate source errors ++
          invocation.file ++ ": " ++ errors.length.repr ++ " syntax error(s)\n")

end Invocation

/-- What a command leaves behind: its exit code and what it wrote. -/
structure Exit where
  code : Nat
  output : String := ""
  errors : String := ""
deriving DecidableEq, Repr

namespace CommandLine

def versionText : String := "smallbasic 0.1.0\n"

def usageText : String :=
  "Run a Small Basic program\n\nUsage: smallbasic [OPTIONS] <FILE> [ARGS]...\n"

/-- Everything the command does, given the place where it is called and its whole input. Neither the
input nor the output is a terminal. -/
def execute (words : List String) (place : FilePlace) (library : Library) (input : ByteArray) :
    Exit :=
  match parse? words with
  | none => { code := 2, errors := usageText }
  | some .version => { code := 0, output := versionText }
  | some .help => { code := 0, output := usageText }
  | some (.run invocation) =>
    match invocation.load (place.read invocation.file) with
    | .error report => { code := 1, errors := report }
    | .ok program =>
      let console : Console :=
        { style := .stream true false, pending := linesOfBytes input, closed := true }
      let library := { library with console, arguments := invocation.arguments }
      let session := Session.ofProgram program library invocation.idle
      match session.failure? with
      | none => { code := 0, output := session.console.output }
      | some failure =>
        { code := 1, output := session.console.output, errors := failure.message ++ "\n" }

end CommandLine

end SmallBasic
