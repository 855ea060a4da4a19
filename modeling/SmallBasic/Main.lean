import Std.Time
import SmallBasic.CommandLine

/-!
# The command

Runs a program at the terminal. This is the outermost layer: it reads the file, the clock and the
input lines, hands them to the machine tick by tick, and shows what the machine wrote.

An input line is asked for only when a thread waits for one, and is read aside, so that the timer
goes on ticking meanwhile.
-/

namespace SmallBasic

namespace Command

/-- The error of the file system that an error stands for. -/
def fileError : IO.Error → FileError
  | .permissionDenied .. => .denied
  | .inappropriateType _ 21 _ => .isDirectory
  | .inappropriateType .. => .notDirectory
  | .invalidArgument .. => .nameTooLong
  | _ => .notFound

/-- What a file holds. -/
def readProgram (file : String) : IO (Except FileError ByteArray) := do
  try return .ok (← IO.FS.readBinFile file)
  catch e => return .error (fileError e)

/-- The directory that a path leads into. -/
def parentOf (path : String) : String :=
  match String.intercalate "/" (path.splitOn "/").dropLast with
  | "" => "/"
  | parent => parent

/-- The bytes of the next input line with its line feed, or of what is left. -/
partial def readBytes (stream : IO.FS.Stream) (line : ByteArray) : IO ByteArray := do
  let next ← stream.read 1
  if next.isEmpty then return line
  else if next.data.contains 10 then return line ++ next
  else readBytes stream (line ++ next)

/-- The next input line. Input ends where it cannot be decoded. -/
def nextLine (stream : IO.FS.Stream) : IO (Option String) := do
  return (linesOfBytes (← readBytes stream ByteArray.empty)).head?

/-- Whether some thread waits for input. -/
def wantsInput (machine : Machine) : Bool :=
  machine.threads.any fun thread =>
    thread.block? == some .input || thread.block? == some .signal

/-- A line that is being read aside. -/
abbrev Reading := Task (Except IO.Error (Option String))

/-- Takes in a line that has been read, and asks for one if a thread waits for it. -/
def feed (machine : Machine) (reading? : Option Reading) : IO (Machine × Option Reading) := do
  match reading? with
  | some reading =>
    if ← IO.hasFinished reading then
      match reading.get with
      | .ok (some line) => return (machine.onConsole (·.push line), none)
      | _ => return (machine.onConsole Console.close, none)
    else return (machine, some reading)
  | none =>
    if wantsInput machine && !machine.world.library.console.isReady then
      return (machine, some (← IO.asTask (nextLine (← IO.getStdin))))
    else return (machine, none)

/-- Shows what the machine wrote, and forgets it. -/
def present (machine : Machine) : IO Machine := do
  let text := machine.world.library.console.output
  if !text.isEmpty then
    let stdout ← IO.getStdout
    stdout.putStr text
    stdout.flush
  return machine.onConsole fun console => { console with output := "" }

/-- Ticks until the program has finished. -/
partial def loop (machine : Machine) (idle start : Nat) (reading? : Option Reading) :
    IO UInt32 := do
  let (machine, reading?) ← feed machine reading?
  let now := (← IO.monoMsNow) - start
  let (result, machine) := machine.tick now
  let machine ← present machine
  match result with
  | .error fault =>
    IO.eprintln (Failure.fault fault).message
    return 1
  | .ok report =>
    if report.finished then return 0
    if !report.progressed then IO.sleep (UInt32.ofNat (min (machine.restFor idle now) 1000))
    loop machine idle start reading?

/-- The wall clock, in milliseconds. -/
def wallClock : IO WallClock := do
  let universal ← Std.Time.Timestamp.now
  let civil ← Std.Time.PlainDateTime.now
  return {
    universalTime := universal.toMillisecondsSinceUnixEpoch.toInt.toNat
    localTime := civil.toWallTime.toMilliseconds.toInt.toNat }

/-- A seed for the random numbers. -/
def seed : IO UInt64 := do
  return (← IO.getRandomBytes 8).data.foldl (fun n byte => 256 * n + byte.toUInt64) 0

/-- Mixes the bits of a number. -/
def mix (z : UInt64) : UInt64 :=
  let z := (z ^^^ (z >>> 30)) * 0xBF58476D1CE4E5B9
  let z := (z ^^^ (z >>> 27)) * 0x94D049BB133111EB
  z ^^^ (z >>> 31)

/-- Dice that fall as a generator has it, which adds a fixed odd number to a seed in each turn. -/
def seededDice (seed : UInt64) : Dice where
  falls turn last :=
    let fall := (mix (seed + UInt64.ofNat (turn + 1) * 0x9E3779B97F4A7C15)).toNat
    ⟨fall % (last + 1), Nat.mod_lt fall (Nat.succ_pos last)⟩

/-- Runs the program in a file. -/
def run (invocation : Invocation) : IO UInt32 := do
  match invocation.load (← readProgram invocation.file) with
  | .error report =>
    IO.eprint report
    return 1
  | .ok program =>
    let directory := parentOf (toString (← IO.FS.realPath invocation.file))
    if 0 < invocation.verbosity then
      IO.eprintln (invocation.file ++ ": " ++ program.size.repr ++ " statements")
    let echo := !(← (← IO.getStdin).isTty)
    let terminal ← (← IO.getStdout).isTty
    let library : Library :=
      { console := { style := .stream echo terminal }
        arguments := invocation.arguments
        directory
        clock := ← wallClock
        dice := seededDice (← seed) }
    loop (Machine.start program library) invocation.idle (← IO.monoMsNow) none

/-- Does what the command line asks for. -/
def start (words : List String) : IO UInt32 := do
  match CommandLine.parse? words with
  | some .version =>
    IO.print CommandLine.versionText
    return 0
  | some .help =>
    IO.print CommandLine.usageText
    return 0
  | some (.run invocation) => run invocation
  | none =>
    IO.eprint CommandLine.usageText
    return 2

end Command

end SmallBasic

def main (words : List String) : IO UInt32 := SmallBasic.Command.start words
