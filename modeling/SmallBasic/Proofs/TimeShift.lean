import SmallBasic.Proofs.RoundRobin
import SmallBasic.Proofs.Usage

/-!
# Runs at another time

A program that does not read the clock cannot tell when it is run. Instants enter a run in three
ways: as the time of the library, as the end of a delay, and as the next tick of the timer. All
three are set from the time of a tick by adding a length to it, and are only ever compared with the
time of a tick, so that a run whose ticks are all later by `d` is the same run, later by `d`.

The time of the library before the first tick is an exception. It is the same in both runs, and no
statement has seen it when the first tick sets it.

## Main definitions

* `Program.ReadsNoClock` — programs without a field of the clock.
* `Machine.later` — a machine with all its instants later.
* `Machine.Trails` — being where another machine is, later.

## Main statements

* `Library.call?_later`, `World.perform_later` — the library works the same later.
* `Thread.step_later`, `Machine.tick_later` — steps and ticks.
* `Machine.Clockless.after_later` — runs from a machine that is later.
* `Machine.trails_after_start` — runs from one start.
-/

namespace SmallBasic

/-! ## Programs without a clock -/

/-- Whether the member is a field of the clock. -/
def Member.isClock : Member → Bool
  | .field (.clock _) => true
  | _ => false

/-- The text of the program reads no field of the clock. -/
def Program.ReadsNoClock (program : Program) : Prop :=
  program.UsesOnly fun member => !member.isClock

theorem Program.ReadsNoClock.asks_execute {program : Program} (hprogram : program.ReadsNoClock)
    {index : Nat} {statement : Statement} (hstatement : program.get? index = some statement) :
    (program.execute index statement).Asks (·.isClock = false) := by
  refine (UsesOnly.asks_execute hprogram hstatement).mono fun r hr => ?_
  cases r with
  | readField f => cases f <;> simp_all [Request.usesOnly, Member.isClock, Request.isClock]
  | _ => rfl

/-- What is left of an action asks for no more than the action. -/
theorem Action.Asks.of_reaches {α : Type} {Q : Request → Prop} {action rest : Action α}
    {log : List Exchange} (hasks : action.Asks Q) (hreaches : action.Reaches log rest) :
    rest.Asks Q := by
  induction hreaches with
  | refl => exact hasks
  | ask _ ih =>
    cases hasks with
    | ask _ hnext => exact ih (hnext _)

/-! ## Later by some time -/

/-- The timer with its next tick later by `d`. -/
def Timer.later (timer : Timer) (d : Nat) : Timer :=
  { timer with due? := timer.due?.map (· + d) }

/-- The same wait, later by `d` if it is for an instant. -/
def Block.later (block : Block) (d : Nat) : Block :=
  match block with
  | .instant time => .instant (time + d)
  | .input | .signal => block

def Outcome.later (outcome : Outcome) (d : Nat) : Outcome :=
  match outcome with
  | .ready value => .ready value
  | .blocked block => .blocked (block.later d)

/-- The library at an instant later by `d`, with its next tick later by as much. -/
def Library.later (lib : Library) (d : Nat) : Library :=
  { lib with timer := lib.timer.later d, now := lib.now + d }

def World.later (world : World) (d : Nat) : World := world.withLibrary (world.library.later d)

/-! ## The library -/

theorem Timer.resume_later (timer : Timer) (now d : Nat) :
    (timer.later d).resume (now + d) = (timer.resume now).later d := by
  simp [resume, later, period, span, Nat.add_right_comm]

theorem Timer.poll_later (timer : Timer) (now d : Nat) :
    (timer.later d).poll (now + d) = ((timer.poll now).1, (timer.poll now).2.later d) := by
  unfold poll
  cases hdue : timer.due? with
  | none => simp [later, hdue]
  | some due =>
    by_cases hearly : now < due
    · simp [later, hdue, hearly]
    · simp [later, hdue, hearly, resume, period, span, Nat.add_right_comm]

/-- A timer that has stopped is the same later. -/
theorem Timer.later_of_due?_none {timer : Timer} (hdue : timer.due? = none) (d : Nat) :
    timer.later d = timer := by
  obtain ⟨resolution, interval, due?, handler?⟩ := timer
  obtain rfl : due? = none := hdue
  rfl

@[simp] theorem Timer.isLive_later (timer : Timer) (d : Nat) :
    (timer.later d).isLive = timer.isLive := by
  simp [isLive, later]

namespace Library

/-- The result of a call, later by `d`. -/
def laterResult (d : Nat) : Option (Outcome × Library) → Option (Outcome × Library) :=
  Option.map fun result => (result.1.later d, result.2.later d)

variable (lib : Library) (d : Nat)

theorem readLine_later : some (lib.later d).readLine = laterResult d (some lib.readLine) := by
  by_cases hready : lib.console.isReady = true <;>
    simp [readLine, reveal, later, laterResult, Outcome.later, Block.later, hready]

theorem readNumber_later : some (lib.later d).readNumber = laterResult d (some lib.readNumber) := by
  by_cases hready : (lib.console.drop
      (lib.console.pending.takeWhile fun line => (Number.ofText? line).isNone).length).isReady <;>
    simp [readNumber, reveal, later, laterResult, Outcome.later, Block.later, hready]

theorem pause_later (message : String) (resumed : Bool) :
    some ((lib.later d).pause message resumed) =
      laterResult d (some (lib.pause message resumed)) := by
  cases resumed <;> rfl

theorem callWindow?_later (resumed : Bool) (method : WindowMethod) (args : List String) :
    (lib.later d).callWindow? resumed method args =
      laterResult d (lib.callWindow? resumed method args) := by
  cases method, args using WindowMethod.args_cases with
  | read => exact lib.readLine_later d
  | readNumber => exact lib.readNumber_later d
  | pause => exact lib.pause_later d pauseMessage resumed
  | pauseWithoutMessage => exact lib.pause_later d "" resumed
  | pauseIfVisible =>
    by_cases hvisible : lib.window.visible = true
    · simp only [callWindow?, later, hvisible, if_true]
      exact lib.pause_later d pauseMessage resumed
    · simp [callWindow?, later, laterResult, Outcome.later, Outcome.done, hvisible]
  | other method args hargs =>
    rw [callWindow?_eq_none _ _ hargs, callWindow?_eq_none _ _ hargs]
    rfl
  | _ => rfl

theorem delay_later (length : Number) (resumed : Bool) :
    (lib.later d).delay length resumed = (lib.delay length resumed).later d := by
  unfold delay
  split
  · rfl
  · simp [later, Timer.later, Timer.span, Outcome.later, Block.later, Nat.add_right_comm]

theorem callProgram?_later (resumed : Bool) (method : ProgramMethod) (args : List String) :
    (lib.later d).callProgram? resumed method args =
      laterResult d (lib.callProgram? resumed method args) := by
  cases method, args using ProgramMethod.args_cases with
  | delay length => simp only [callProgram?, delay_later, laterResult, Option.map_some]
  | other method args hargs =>
    rw [callProgram?_eq_none _ _ hargs, callProgram?_eq_none _ _ hargs]
    rfl
  | _ => rfl

theorem callMath?_later (method : MathMethod) (args : List String) :
    ready ((lib.later d).callMath? method args) =
      laterResult d (ready (lib.callMath? method args)) := by
  rw [lib.callMath?_map (later · d) fun _ => rfl]
  cases lib.callMath? method args <;> rfl

theorem callArray?_later (method : ArrayMethod) (args : List String) :
    ready ((lib.later d).callArray? method args) =
      laterResult d (ready (lib.callArray? method args)) := by
  rw [lib.callArray?_map (later · d) fun _ => rfl]
  cases lib.callArray? method args <;> rfl

theorem callStack?_later (method : StackMethod) (args : List String) :
    ready ((lib.later d).callStack? method args) =
      laterResult d (ready (lib.callStack? method args)) := by
  rw [lib.callStack?_map (later · d) fun _ => rfl]
  cases lib.callStack? method args <;> rfl

theorem callTimer?_later (method : TimerMethod) (args : List String) :
    ready ((lib.later d).callTimer? method args) =
      laterResult d (ready (lib.callTimer? method args)) := by
  cases method, args using TimerMethod.args_cases with
  | pause => rfl
  | resume => simp [callTimer?, ready, laterResult, later, Timer.resume_later, Outcome.later]
  | other method args hargs =>
    rw [callTimer?_eq_none _ hargs, callTimer?_eq_none _ hargs]
    rfl

/-- Whatever a call does, it does the same later. -/
theorem call?_later (method : Method) (args : List String) (resumed : Bool) :
    (lib.later d).call? method args resumed = laterResult d (lib.call? method args resumed) := by
  cases method with
  | window m => exact lib.callWindow?_later d resumed m args
  | program m => exact lib.callProgram?_later d resumed m args
  | math m => exact lib.callMath?_later d m args
  | text m => dsimp only [call?]; cases m.value? args <;> rfl
  | array m => exact lib.callArray?_later d m args
  | stack m => exact lib.callStack?_later d m args
  | timer m => exact lib.callTimer?_later d m args

theorem writeField_later (field : Field) (value : String) :
    (lib.later d).writeField field value = (lib.writeField field value).later d := by
  cases field with
  | interval =>
    exact congrArg (fun timer => { lib with timer, now := lib.now + d })
      (Timer.resume_later { lib.timer with interval := Timer.intervalOf value } lib.now d)
  | _ => rfl

theorem isResolved_later (now : Nat) (block : Block) :
    (lib.later d).isResolved (now + d) (block.later d) = lib.isResolved now block := by
  cases block with
  | instant time => simp [isResolved, Block.later]
  | input | signal => rfl

/-- The time is set, and the timer looked at, later. -/
theorem due_later (now : Nat) :
    ((lib.later d).setNow (now + d)).due (now + d) =
      (((lib.setNow now).due now).1, ((lib.setNow now).due now).2.later d) := by
  have hpoll := lib.timer.poll_later now d
  simp only [due, setNow, later, hpoll]

end Library

/-! ## Actions -/

/-- A request that does not ask for the time is answered alike later. -/
theorem World.perform_later (world : World) (d : Nat) (resumed : Bool) {r : Request}
    (hclock : r.isClock = false) :
    (world.later d).perform resumed r =
      (world.perform resumed r).map fun answer => (answer.1.later d, answer.2.later d) := by
  cases r with
  | readVariable | writeVariable => rfl
  | readField field =>
    cases field with
    | clock => cases hclock
    | _ => rfl
  | writeField field value =>
    have hwrite := world.library.writeField_later d field value
    simp only [perform, later, withLibrary, hwrite]
    rfl
  | bindEvent event target =>
    cases event
    rfl
  | call method args =>
    have hcall := world.library.call?_later d method args resumed
    have hlib : (world.later d).library = world.library.later d := rfl
    simp only [perform, Library.call, hlib, hcall]
    cases world.library.call? method args resumed <;> rfl

/-- How far an action has come, later by `d`. -/
def Progress.later {α : Type} (progress : Progress α) (d : Nat) : Progress α :=
  match progress with
  | .blocked block rest => .blocked (block.later d) rest
  | .done value => .done value
  | .failed fault => .failed fault

section Actions

variable {α : Type} (world : World) (d : Nat)

theorem Action.run_later {action : Action α} (hasks : action.Asks (·.isClock = false)) :
    action.run (world.later d) = ((action.run world).1.later d, (action.run world).2.later d) := by
  induction hasks generalizing world with
  | done | fail => rfl
  | @ask r next hrequest _ ih =>
    rw [run, run, world.perform_later d false hrequest]
    cases world.perform false r with
    | error error => rfl
    | ok answer =>
      obtain ⟨outcome, after⟩ := answer
      cases outcome with
      | ready value => exact ih value after
      | blocked block => rfl

theorem Suspension.resume_later {left : Suspension α}
    (hasks : (Action.ask left.request left.next).Asks (·.isClock = false)) :
    left.resume (world.later d) =
      ((left.resume world).1.later d, (left.resume world).2.later d) := by
  cases hasks with
  | ask hrequest hnext =>
    rw [resume, resume, world.perform_later d true hrequest]
    cases world.perform true left.request with
    | error error => rfl
    | ok answer =>
      obtain ⟨outcome, after⟩ := answer
      cases outcome with
      | ready value => exact Action.run_later after d (hnext value)
      | blocked block => rfl

end Actions

/-! ## Threads -/

namespace Thread

def Phase.later (phase : Phase) (d : Nat) : Phase :=
  match phase with
  | .waiting block left => .waiting (block.later d) left
  | .ready | .woken _ | .finished => phase

/-- The thread with the instant that it waits for later by `d`. -/
def later (thread : Thread) (d : Nat) : Thread := { thread with phase := thread.phase.later d }

def Report.later (report : Report) (d : Nat) : Report :=
  match report with
  | .blocked block => .blocked (block.later d)
  | .ran | .finished | .failed _ => report

/-- What the thread has left to do inside a statement asks only for what `Q` allows. -/
def Asks (thread : Thread) (Q : Request → Prop) : Prop :=
  match thread.phase with
  | .ready | .finished => True
  | .waiting _ left | .woken left => (Action.ask left.request left.next).Asks Q

variable (thread : Thread) (program : Program) (world : World) (d : Nat)

@[simp] theorem isFinished_later : (thread.later d).isFinished = thread.isFinished := by
  obtain ⟨id, ip, returns, phase⟩ := thread
  cases phase <;> rfl

theorem block?_later : (thread.later d).block? = thread.block?.map (·.later d) := by
  obtain ⟨id, ip, returns, phase⟩ := thread
  cases phase <;> rfl

/-- A thread that does not wait is the same later. -/
theorem later_of_block?_none {thread : Thread} (hblock : thread.block? = none) (d : Nat) :
    thread.later d = thread := by
  obtain ⟨id, ip, returns, phase⟩ := thread
  cases phase with
  | waiting => cases hblock
  | ready | woken | finished => rfl

/-- Once a wait is over, it does not matter when that was. -/
theorem unblock_later : (thread.later d).unblock = thread.unblock := by
  obtain ⟨id, ip, returns, phase⟩ := thread
  cases phase <;> rfl

theorem goto_later (index : Nat) :
    thread.goto program index =
      ((thread.goto program index).1.later d, (thread.goto program index).2.later d) := by
  unfold goto
  split <;> rfl

theorem settle_later (progress : Progress Flow) :
    thread.settle program (progress.later d) =
      ((thread.settle program progress).1.later d,
        (thread.settle program progress).2.later d) := by
  cases progress with
  | failed | blocked => rfl
  | done flow =>
    cases flow with
    | next | jump | enter => exact goto_later _ program d _
    | leave =>
      obtain ⟨id, ip, returns, phase⟩ := thread
      cases returns with
      | nil => rfl
      | cons address returns => exact goto_later _ program d address

variable {program}

/-- A step that is made later, by a thread that does not ask for the time. -/
theorem step_later (hprogram : program.ReadsNoClock)
    (hasks : thread.Asks (·.isClock = false)) :
    (thread.later d).unblock.step program (world.later d) =
      ((thread.unblock.step program world).1.later d,
        (thread.unblock.step program world).2.1.later d,
        (thread.unblock.step program world).2.2.later d) := by
  rw [unblock_later]
  cases hphase : thread.phase with
  | finished =>
    have hunblock : thread.unblock = thread := by simp [unblock, hphase]
    have hsame : thread.later d = thread := by
      apply later_of_block?_none
      simp [block?, hphase]
    simp only [hunblock, step, hphase, hsame]
    rfl
  | ready =>
    rw [unblock_of_ready hphase]
    cases hstatement : program.get? thread.ip with
    | none =>
      simp only [step, hphase, hstatement]
      rfl
    | some statement =>
      rw [step_of_ready hphase hstatement, step_of_ready hphase hstatement,
        Action.run_later world d (hprogram.asks_execute hstatement), settle_later]
  | waiting block left | woken left =>
    simp only [Thread.Asks, hphase] at hasks
    simp only [unblock, hphase, step, Suspension.resume_later world d hasks, settle_later]

end Thread

/-! ## Machines -/

def Round.later (round : Round) (d : Nat) : Round :=
  { round with threads := round.threads.map (·.later d), world := round.world.later d }

namespace Machine

/-- The machine with its time, the next tick of its timer, and every instant that a thread waits for
later by `d`. -/
def later (machine : Machine) (d : Nat) : Machine :=
  { machine with threads := machine.threads.map (·.later d), world := machine.world.later d }

/-- The same move, later by `d` if it is a tick. -/
def Move.later (move : Move) (d : Nat) : Move :=
  match move with
  | .tick now => .tick (now + d)
  | .spawn _ | .push _ | .close => move

variable (machine : Machine) (d : Nat)

theorem isParked_later (world : World) (now : Nat) (thread : Thread) :
    isParked (world.later d) (now + d) (thread.later d) = isParked world now thread := by
  unfold isParked
  rw [thread.block?_later]
  cases thread.block? with
  | none => rfl
  | some block => exact congrArg (!·) (world.library.isResolved_later d now block)

theorem round_later {program : Program} (hprogram : program.ReadsNoClock) (now : Nat)
    {threads : List Thread} (hasks : ∀ thread ∈ threads, thread.Asks (·.isClock = false))
    (world : World) :
    round program (now + d) (threads.map (·.later d)) (world.later d) =
      (round program now threads world).later d := by
  induction threads generalizing world with
  | nil => rfl
  | cons thread threads ih =>
    obtain ⟨hthread, hthreads⟩ := List.forall_mem_cons.1 hasks
    simp only [List.map_cons, round, isParked_later, thread.step_later world d hprogram hthread,
      ih hthreads]
    generalize thread.unblock.step program world = result
    obtain ⟨report, stepped, next⟩ := result
    have hended : (next.later d).library.ended = next.library.ended := rfl
    by_cases hparked : isParked world now thread = true
    · rw [if_pos hparked, if_pos hparked]
      rfl
    · rw [if_neg hparked, if_neg hparked]
      cases report with
      | failed fault => rfl
      | ran | blocked | finished =>
        dsimp only [Thread.Report.later]
        rw [hended]
        split <;> rfl

theorem spawn_later (ip : Nat) : (machine.later d).spawn ip = (machine.spawn ip).later d := by
  simp [spawn, later, Thread.start, Thread.later, Thread.Phase.later]

theorem awaken_later (now : Nat) :
    (machine.later d).awaken (now + d) =
      ((machine.awaken now).1, (machine.awaken now).2.later d) := by
  have hlibrary : (machine.later d).world.library = machine.world.library.later d := rfl
  unfold awaken
  rw [hlibrary, Library.due_later]
  obtain ⟨handler?, library⟩ := (machine.world.library.setNow now).due now
  cases handler? with
  | none => rfl
  | some handler =>
    exact congrArg (Prod.mk true)
      (spawn_later { machine with world := machine.world.withLibrary library } d handler)

variable {machine}

/-- A tick that is made later, by a machine that does not ask for the time. -/
theorem tick_later (hprogram : machine.program.ReadsNoClock)
    (hasks : ∀ thread ∈ machine.threads, thread.Asks (·.isClock = false)) (now : Nat) :
    (machine.later d).tick (now + d) = ((machine.tick now).1, (machine.tick now).2.later d) := by
  unfold tick
  by_cases hended : machine.ended = true
  · rw [if_pos hended, if_pos (show (machine.later d).ended = true from hended)]
  rw [if_neg hended, if_neg (show ¬(machine.later d).ended = true from hended), awaken_later]
  have hawake := forall_mem_awaken (P := fun thread => thread.Asks (·.isClock = false))
    (fun _ _ => trivial) hasks now
  rw [← machine.program_awaken now] at hprogram
  generalize machine.awaken now = result at hprogram hawake
  obtain ⟨started, awake⟩ := result
  have hround := round_later d hprogram now hawake awake.world
  simp only [later, hround, Round.later]
  generalize round awake.program now awake.threads awake.world = result
  obtain ⟨threads, world, progressed, ended, fault?⟩ := result
  have hfilter : (threads.map (·.later d)).filter (!·.isFinished) =
      (threads.filter (!·.isFinished)).map (·.later d) := by
    rw [List.filter_map]
    exact congrArg _ (List.filter_congr fun thread _ => by simp)
  cases fault? with
  | some fault => rfl
  | none =>
    dsimp only
    rw [hfilter]
    cases ended <;> simp [isFinished, World.later, World.withLibrary, Library.later]

/-! ## Runs -/

/-- A thread of a program without a clock has nothing left to do that asks for the time. -/
theorem asks_of_amid {program : Program} (hprogram : program.ReadsNoClock) {thread : Thread}
    (hamid : thread.Amid program) : thread.Asks (·.isClock = false) := by
  cases hphase : thread.phase with
  | ready | finished => simp only [Thread.Asks, hphase]
  | waiting _ left | woken left =>
    simp only [Thread.Amid, hphase] at hamid
    obtain ⟨statement, log, hstatement, hreaches⟩ := hamid
    simp only [Thread.Asks, hphase]
    exact (hprogram.asks_execute hstatement).of_reaches hreaches

/-- The program reads no clock, and its threads have nothing left to do but what it says. -/
structure Clockless (machine : Machine) : Prop where
  program : machine.program.ReadsNoClock
  amid : ∀ thread ∈ machine.threads, thread.Amid machine.program

theorem clockless_start {program : Program} (hprogram : program.ReadsNoClock) (library : Library) :
    (start program library).Clockless where
  program := by rwa [program_start]
  amid := by
    rw [program_start]
    exact amid_after_start program library []

namespace Clockless

theorem after (hclockless : machine.Clockless) (moves : List Move) :
    (machine.after moves).Clockless := by
  have hsame := machine.program_after moves
  have hamid := forall_mem_after (fun _ _ => trivial)
    (fun turn hturn => (Turn.advances hturn).amid) hclockless.amid moves
  exact ⟨hsame ▸ hclockless.program, hsame ▸ hamid⟩

theorem tick_later (hclockless : machine.Clockless) (d now : Nat) :
    (machine.later d).tick (now + d) = ((machine.tick now).1, (machine.tick now).2.later d) :=
  Machine.tick_later d hclockless.program
    (fun thread hthread => asks_of_amid hclockless.program (hclockless.amid thread hthread)) now

theorem apply_later (hclockless : machine.Clockless) (d : Nat) (move : Move) :
    (machine.later d).apply (move.later d) = (machine.apply move).later d := by
  cases move with
  | tick now => exact congrArg Prod.snd (hclockless.tick_later d now)
  | spawn ip => exact machine.spawn_later d ip
  | push | close => rfl

/-- A run that is made later. -/
theorem after_later (hclockless : machine.Clockless) (d : Nat) (moves : List Move) :
    (machine.later d).after (moves.map (·.later d)) = (machine.after moves).later d := by
  induction moves generalizing machine with
  | nil => rfl
  | cons move moves ih =>
    rw [List.map_cons, Machine.after, List.foldl_cons, hclockless.apply_later d move]
    exact ih (hclockless.after [move])

end Clockless

/-! ## Before the first tick -/

/-- The machine with another time. -/
def withNow (machine : Machine) (now : Nat) : Machine :=
  { machine with world := machine.world.withLibrary (machine.world.library.setNow now) }

/-- A tick sets the time, whatever it was. -/
theorem tick_withNow (hended : machine.ended = false) (time now : Nat) :
    (machine.withNow time).tick now = machine.tick now := by
  have hawaken : (machine.withNow time).awaken now = machine.awaken now := rfl
  have hended' : (machine.withNow time).ended = false := hended
  simp only [tick, hended, hended', hawaken, Bool.false_eq_true, if_false]

/-- Nothing has run, and nothing is due. -/
structure Untouched (machine : Machine) : Prop where
  ended : machine.ended = false
  due : machine.world.library.timer.due? = none
  blocks : ∀ thread ∈ machine.threads, thread.block? = none

theorem untouched_start (program : Program) {library : Library}
    (hdue : library.timer.due? = none) : (start program library).Untouched := by
  unfold start
  split
  · exact ⟨rfl, hdue, by simp [spawn, Thread.start, Thread.block?]⟩
  · exact ⟨rfl, hdue, by simp⟩

namespace Untouched

theorem apply (huntouched : machine.Untouched) {move : Move} (hmove : ∀ now, move ≠ .tick now) :
    (machine.apply move).Untouched := by
  cases move with
  | tick now => exact absurd rfl (hmove now)
  | spawn ip =>
    refine ⟨huntouched.ended, huntouched.due, ?_⟩
    exact forall_mem_spawn machine (fun _ _ => rfl) huntouched.blocks ip
  | push | close => exact ⟨huntouched.ended, huntouched.due, huntouched.blocks⟩

/-- A machine that has not run differs later in the time only. -/
theorem later_eq (huntouched : machine.Untouched) (d : Nat) :
    machine.later d = machine.withNow (machine.world.library.now + d) := by
  have hthreads : machine.threads.map (·.later d) = machine.threads := by
    refine (List.map_congr_left fun thread hthread => ?_).trans (List.map_id' _)
    exact Thread.later_of_block?_none (huntouched.blocks thread hthread) d
  have htimer := Timer.later_of_due?_none huntouched.due d
  simp only [later, World.later, Library.later, withNow, hthreads, htimer, Library.setNow]

/-- The first tick does not depend on the time before it. -/
theorem tick_later (huntouched : machine.Untouched) (hclockless : machine.Clockless)
    (d now : Nat) :
    machine.tick (now + d) = ((machine.tick now).1, (machine.tick now).2.later d) := by
  rw [← hclockless.tick_later d now, huntouched.later_eq, tick_withNow huntouched.ended]

end Untouched

/-- `other` is where `machine` is, later by `d`: its ticks report the same at instants later by `d`,
and it differs only in that all instants are later by `d`. The time of the library is left open,
since the first tick sets it. -/
structure Trails (other machine : Machine) (d : Nat) : Prop where
  report_eq : ∀ now, (other.tick (now + d)).1 = (machine.tick now).1
  eq_later : other = (machine.later d).withNow other.world.library.now

theorem Clockless.trails (hclockless : machine.Clockless) (d : Nat) :
    (machine.later d).Trails machine d where
  report_eq now := by rw [hclockless.tick_later]
  eq_later := rfl

theorem Untouched.trails (huntouched : machine.Untouched) (hclockless : machine.Clockless)
    (d : Nat) : machine.Trails machine d where
  report_eq now := by rw [huntouched.tick_later hclockless]
  eq_later := by
    rw [huntouched.later_eq]
    rfl

theorem Untouched.after_later (huntouched : machine.Untouched) (hclockless : machine.Clockless)
    (d : Nat) (moves : List Move) :
    (machine.after (moves.map (·.later d))).Trails (machine.after moves) d ∧
      ((∃ now, .tick now ∈ moves) →
        machine.after (moves.map (·.later d)) = (machine.after moves).later d) := by
  induction moves generalizing machine with
  | nil => exact ⟨huntouched.trails hclockless d, by simp⟩
  | cons move moves ih =>
    have hnext : (machine.apply move).Clockless := hclockless.after [move]
    cases move with
    | tick now =>
      -- From here on, both machines have been told the time.
      have hlater : machine.after ((.tick now :: moves).map (·.later d)) =
          (machine.after (.tick now :: moves)).later d := by
        have htick : machine.apply (.tick (now + d)) = (machine.apply (.tick now)).later d :=
          congrArg Prod.snd (huntouched.tick_later hclockless d now)
        rw [List.map_cons, Machine.after, List.foldl_cons, Move.later, htick]
        exact hnext.after_later d moves
      refine ⟨?_, fun _ => hlater⟩
      rw [hlater]
      exact (hclockless.after _).trails d
    | spawn | push | close =>
      obtain ⟨htrails, hlater⟩ := ih (huntouched.apply (by simp)) hnext
      refine ⟨htrails, fun htick => hlater ?_⟩
      simpa using htick

/-- Runs do not depend on when they are made. A program that reads no field of the clock is started
with a timer that has stopped, as that of a new library has, and is ticked, given threads and input.
If the same is done with every tick later by `d`, all ticks report the same, and the machines differ
only in that every instant, of a wait or of the timer, is later by `d`; after the first tick so is
the time of the library. -/
theorem trails_after_start {program : Program} (hprogram : program.ReadsNoClock)
    {library : Library} (hdue : library.timer.due? = none) (d : Nat) (moves : List Move) :
    let machine := (start program library).after moves
    let other := (start program library).after (moves.map (·.later d))
    other.Trails machine d ∧ ((∃ now, .tick now ∈ moves) → other = machine.later d) :=
  (untouched_start program hdue).after_later (clockless_start hprogram library) d moves

/-- A program that waits while its timer counts. -/
theorem trails_after_start_delay : ∃ program,
    Program.parse ("Timer.Interval = 50\nTimer.Tick = Tock\nProgram.Delay(100)\n" ++
      "Sub Tock\nTextWindow.Write(\"tock\")\nEndSub") = .ok program ∧
      program.ReadsNoClock ∧ ({} : Library).timer.due? = none ∧
      let moves : List Move := [.tick 0, .tick 1, .tick 2, .tick 60]
      let machine := (start program {}).after moves
      let other := (start program {}).after (moves.map (·.later 1000))
      other.Trails machine 1000 ∧ other = machine.later 1000 ∧
        machine.threads.map (·.block?) = [some (.instant 102), none] ∧
        other.threads.map (·.block?) = [some (.instant 1102), none] ∧
        other.world.library.timer.due? = some 1110 := by
  obtain ⟨program, hparse, hcheck⟩ := Program.exists_of_any
    ("Timer.Interval = 50\nTimer.Tick = Tock\nProgram.Delay(100)\n" ++
      "Sub Tock\nTextWindow.Write(\"tock\")\nEndSub")
    (fun program =>
      let machine := (start program {}).after [.tick 0, .tick 1, .tick 2, .tick 60]
      let other := (start program {}).after [.tick 1000, .tick 1001, .tick 1002, .tick 1060]
      program.clauses.all (·.usesOnly fun member => !member.isClock) &&
        decide (machine.threads.map (·.block?) = [some (.instant 102), none]) &&
        decide (other.threads.map (·.block?) = [some (.instant 1102), none]) &&
        decide (other.world.library.timer.due? = some 1110))
    (by decide +kernel)
  simp only [Bool.and_eq_true, decide_eq_true_eq, List.all_eq_true] at hcheck
  obtain ⟨⟨⟨hprogram, hblocks⟩, hlater⟩, hdue⟩ := hcheck
  have hstopped : ({} : Library).timer.due? = none := rfl
  obtain ⟨htrails, hsame⟩ := trails_after_start hprogram hstopped 1000
    [.tick 0, .tick 1, .tick 2, .tick 60]
  exact ⟨program, hparse, hprogram, hstopped, htrails, hsame ⟨0, by simp⟩, hblocks, hlater, hdue⟩

end Machine

end SmallBasic
