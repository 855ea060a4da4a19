import SmallBasic.Evaluation

/-!
# Threads

A thread runs statements one at a time. Between two statements it is ready; inside a statement it
may be parked in a call that has to wait. It keeps its own return addresses, of which the last one
lies past the program, so that leaving the outermost subroutine ends the thread.

## Main definitions

* `Thread` — an index into the program, return addresses, and a phase.
* `Thread.step` — runs up to the end of the current statement or the next wait.
* `Thread.unblock` — ends a wait.
-/

namespace SmallBasic

/-- Where a thread stands: before a statement, waiting inside one, about to go on inside one, or at
its end. -/
inductive Thread.Phase where
  | ready
  | waiting (block : Block) (rest : Suspension Flow)
  | woken (rest : Suspension Flow)
  | finished

/-- A thread of the program. -/
structure Thread where
  id : Nat
  ip : Nat
  returns : List Nat
  phase : Thread.Phase := .ready

/-- What came of a step. -/
inductive Thread.Report where
  | ran
  | blocked (block : Block)
  | finished
  | failed (fault : Fault)
deriving DecidableEq, Repr

namespace Thread

/-- A thread that starts at a statement. -/
def start (program : Program) (id ip : Nat) : Thread := { id, ip, returns := [program.size] }

/-- What the thread waits for. -/
def block? (thread : Thread) : Option Block :=
  match thread.phase with
  | .waiting block _ => some block
  | _ => none

def isFinished (thread : Thread) : Bool :=
  match thread.phase with
  | .finished => true
  | _ => false

/-- Ends the wait of a thread that waits; its next step repeats the call. -/
def unblock (thread : Thread) : Thread :=
  match thread.phase with
  | .waiting _ rest => { thread with phase := .woken rest }
  | _ => thread

/-- Ends a thread where it stands. -/
def finish (thread : Thread) : Thread := { thread with phase := .finished }

/-- Goes to a statement. Past the last one the thread ends at once. -/
def goto (thread : Thread) (program : Program) (index : Nat) : Report × Thread :=
  if index < program.size then (.ran, { thread with ip := index, phase := .ready })
  else (.finished, { thread with ip := index, phase := .finished })

/-- Follows the direction of a statement. -/
def follow (thread : Thread) (program : Program) : Flow → Report × Thread
  | .next => thread.goto program (thread.ip + 1)
  | .jump target => thread.goto program target
  | .enter target =>
    { thread with returns := (thread.ip + 1) :: thread.returns }.goto program target
  | .leave =>
    match thread.returns with
    | address :: rest => { thread with returns := rest }.goto program address
    | [] => (.finished, thread.finish)

/-- Takes in how far the current statement has come. -/
def settle (thread : Thread) (program : Program) : Progress Flow → Report × Thread
  | .done flow => thread.follow program flow
  | .failed fault => (.failed fault, thread.finish)
  | .blocked block rest => (.blocked block, { thread with phase := .waiting block rest })

/-- Runs up to the end of the current statement or the next wait. A thread that waits, or has ended,
stays as it is. -/
def step (thread : Thread) (program : Program) (world : World) : Report × Thread × World :=
  match thread.phase with
  | .finished => (.finished, thread, world)
  | .waiting block _ => (.blocked block, thread, world)
  | .woken rest =>
    let (progress, world) := rest.resume world
    let (report, thread) := thread.settle program progress
    (report, thread, world)
  | .ready =>
    match program.get? thread.ip with
    | none => (.finished, thread.finish, world)
    | some statement =>
      let (progress, world) := (program.execute thread.ip statement).run world
      let (report, thread) := thread.settle program progress
      (report, thread, world)

end Thread

end SmallBasic
