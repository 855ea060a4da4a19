import SmallBasic.Thread

/-!
# The machine

Threads take turns. A tick gives each of them at most one statement, in the order in which they were
started; a thread that waits is passed over until what it waits for has come. A due event starts a
thread at the beginning of a tick, and the end of the program stops a tick at once.

## Main definitions

* `Machine` — a program with its world and its threads.
* `Machine.tick` — one round at an instant.
* `Machine.run` — rounds until nothing is left to do, up to a limit.
-/

namespace SmallBasic

/-- A program at work. -/
structure Machine where
  program : Program
  world : World
  threads : List Thread := []
  nextId : Nat := 0
  ended : Bool := false

/-- What a tick did: whether some thread was started or resumed, and whether nothing is left that
could run or start to. -/
structure TickReport where
  progressed : Bool
  finished : Bool
deriving DecidableEq, Repr

/-- What came of a round through the threads, and why it stopped early if it did. -/
structure Round where
  threads : List Thread
  world : World
  progressed : Bool := false
  ended : Bool := false
  fault? : Option Fault := none

namespace Machine

/-- Starts a thread at a statement. -/
def spawn (machine : Machine) (ip : Nat) : Machine :=
  { machine with
    threads := machine.threads ++ [Thread.start machine.program machine.nextId ip]
    nextId := machine.nextId + 1 }

/-- A program with its main thread before the first statement, if there is one. -/
def start (program : Program) (library : Library) : Machine :=
  let machine : Machine := { program, world := { library } }
  if 0 < program.size then machine.spawn 0 else machine

/-- Whether nothing can run any more. -/
def isFinished (machine : Machine) : Bool :=
  machine.ended || (machine.threads.isEmpty && !machine.world.library.timer.isLive)

/-- Whether a thread waits for something that has not come. -/
def isParked (world : World) (now : Nat) (thread : Thread) : Bool :=
  match thread.block? with
  | some block => !world.library.isResolved now block
  | none => false

/-- Gives each thread its turn. A fault, or the end of the program, leaves the threads after it as
they were. -/
def round (program : Program) (now : Nat) : List Thread → World → Round
  | [], world => { threads := [], world }
  | thread :: rest, world =>
    if isParked world now thread then
      let after := round program now rest world
      { after with threads := thread :: after.threads }
    else
      let (report, thread, world) := thread.unblock.step program world
      match report with
      | .failed fault =>
        { threads := thread :: rest, world, progressed := true, fault? := some fault }
      | _ =>
        if world.library.ended then
          { threads := thread :: rest, world, progressed := true, ended := true }
        else
          let after := round program now rest world
          { after with threads := thread :: after.threads, progressed := true }

/-- Sets the time, and starts the thread of an event that is due. -/
def awaken (machine : Machine) (now : Nat) : Bool × Machine :=
  let (handler?, library) := (machine.world.library.setNow now).due now
  let machine := { machine with world := machine.world.withLibrary library }
  match handler? with
  | some handler => (true, machine.spawn handler)
  | none => (false, machine)

/-- One tick. After a fault the machine can go on: the thread that failed has ended. -/
def tick (machine : Machine) (now : Nat) : Except Fault TickReport × Machine :=
  if machine.ended then (.ok ⟨false, true⟩, machine)
  else
    let (started, machine) := machine.awaken now
    let after := round machine.program now machine.threads machine.world
    let machine := { machine with threads := after.threads, world := after.world }
    match after.fault? with
    | some fault => (.error fault, machine)
    | none =>
      let machine := { machine with
        threads := if after.ended then [] else after.threads.filter (!·.isFinished)
        ended := after.ended }
      (.ok ⟨started || after.progressed, machine.isFinished⟩, machine)

/-- Applies a change to the console, such as a new input line. -/
def onConsole (machine : Machine) (change : Console → Console) : Machine :=
  let library := machine.world.library
  let changed := { library with console := change library.console }
  { machine with world := machine.world.withLibrary changed }

/-- How long to rest after a tick without progress: at most `idle` milliseconds, and not past the
next event. The rest is counted in instants. -/
def restFor (machine : Machine) (idle now : Nat) : Nat :=
  let rest := machine.world.library.timer.span idle
  match machine.world.library.nextDue? with
  | some due => min (due - now) rest
  | none => rest

end Machine

/-- How time passes between ticks, in microseconds: always `tick`, and after a tick without progress
also a rest of at most `idle` milliseconds. -/
structure Pace where
  tick : Nat
  idle : Nat := 0
deriving DecidableEq, Repr

/-- What a machine has done in a number of ticks. -/
structure Run where
  machine : Machine
  ticks : Nat := 0
  progressed : Nat := 0
  finished : Bool := false
  fault? : Option Fault := none

/-- Ticks until the machine has finished, has failed, or has made so many more ticks. `elapsed`
counts microseconds, and the instants of such a run are whole milliseconds. -/
def Run.go (pace : Pace) : (count elapsed : Nat) → Run → Run
  | 0, _, run => run
  | count + 1, elapsed, run =>
    let now := elapsed / 1000
    match run.machine.tick now with
    | (.error fault, machine) =>
      { run with machine, ticks := run.ticks + 1, finished := false, fault? := some fault }
    | (.ok report, machine) =>
      let run := { run with
        machine
        ticks := run.ticks + 1
        progressed := run.progressed + (if report.progressed then 1 else 0)
        finished := report.finished }
      if report.finished then run
      else
        let rest := if report.progressed then 0 else 1000 * machine.restFor pace.idle now
        go pace count (elapsed + pace.tick + rest) run

/-- Ticks from an instant on until the machine has finished, has failed, or has made `count`
ticks. -/
def Machine.run (machine : Machine) (pace : Pace) (count first : Nat) : Run :=
  Run.go pace count (1000 * first) { machine }

end SmallBasic
