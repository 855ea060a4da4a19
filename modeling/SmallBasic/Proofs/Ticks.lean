import SmallBasic.Proofs.Alone
import SmallBasic.Proofs.Jumps

/-!
# A machine with one thread

Tick by tick, a machine whose only thread is alone in its world goes through the statements of its
program, each of which comes to the verdict of its evaluation. A wait takes as many ticks as its
instant asks for, and changes nothing else.

## Main definitions

* `Machine.ticked`, `Machine.readings` — a machine after some ticks, and what the clock has
  answered.
* `Machine.Stands`, `Machine.Over` — the states of a machine with one thread, and after it.
* `Machine.Settles` — what the statement of the thread has come to.

## Main statements

* `Machine.Stands.wait`, `Machine.Stands.step` — what a tick does.
* `Machine.Stands.exists_settles` — every statement comes to its verdict.
* `Machine.Stands.exists_isFinished_iff` — the machine finishes where its thread does.
-/

namespace SmallBasic

namespace Machine

/-! ## Ticks -/

/-- The machine after so many ticks at the given instants. -/
def ticked (machine : Machine) (instants : Nat → Nat) : Nat → Machine
  | 0 => machine
  | count + 1 => ((machine.ticked instants count).tick (instants count)).2

/-- The attempts of a round. -/
def roundAttempts (program : Program) (now : Nat) : List Thread → World → List Attempt
  | [], _ => []
  | thread :: rest, world =>
    if isParked world now thread then roundAttempts program now rest world
    else
      let log := thread.unblock.attempts program world
      let (report, _, world) := thread.unblock.step program world
      match report with
      | .failed _ => log
      | _ => if world.library.ended then log else log ++ roundAttempts program now rest world

/-- The attempts of a tick. -/
def attempts (machine : Machine) (now : Nat) : List Attempt :=
  if machine.ended then []
  else
    let awake := (machine.awaken now).2
    roundAttempts awake.program now awake.threads awake.world

/-- What the clock has answered in so many ticks. -/
def readings (machine : Machine) (instants : Nat → Nat) : Nat → List String
  | 0 => []
  | count + 1 =>
    machine.readings instants count ++
      clockAnswers ((machine.ticked instants count).attempts (instants count))

/-- Every instant that a thread comes to wait for is passed by a tick. -/
def PassesDelays (machine : Machine) (instants : Nat → Nat) : Prop :=
  ∀ count, ∀ thread ∈ (machine.ticked instants count).threads, ∀ time,
    thread.block? = some (.instant time) → ∃ later ≥ count, time ≤ instants later

variable {machine : Machine} {instants : Nat → Nat} {clock : Nat → String} {thread : Thread}
  {scene : Scene} {verdict : Verdict Flow} {world : World}

/-- Without a bound event, the beginning of a tick only sets the time. -/
theorem awaken_of_handler (hhandler : machine.world.library.timer.handler? = none) (now : Nat) :
    ∃ due?, machine.awaken now = (false, { machine with
      world := machine.world.withLibrary { machine.world.library with
        now, timer := { machine.world.library.timer with due? } } }) := by
  have hpoll : (machine.world.library.timer.poll now).1 = none ∧
      (machine.world.library.timer.poll now).2 =
        { machine.world.library.timer with
          due? := (machine.world.library.timer.poll now).2.due? } := by
    unfold Timer.poll
    split
    · exact ⟨rfl, rfl⟩
    · split
      · exact ⟨rfl, rfl⟩
      · exact ⟨hhandler, rfl⟩
  refine ⟨(machine.world.library.timer.poll now).2.due?, ?_⟩
  have hnone : ((machine.world.library.setNow now).due now).1 = none := hpoll.1
  simp only [awaken, hnone]
  rw [← hpoll.2]
  rfl

theorem awaken_of_plays (hplays : machine.world.Plays scene) (now : Nat) :
    ∃ world : World, machine.awaken now = (false, { machine with world }) ∧ world.Plays scene := by
  have hhandler : machine.world.library.timer.handler? = none :=
    hplays.alike.handler_eq.trans hplays.handler
  obtain ⟨due?, hawaken⟩ := awaken_of_handler hhandler now
  exact ⟨_, hawaken, World.Alike.trans rfl hplays.alike, hplays.closed, hplays.handler⟩

/-- A round with one thread that is parked. -/
theorem round_parked (program : Program) {now : Nat} (hparked : isParked world now thread = true) :
    round program now [thread] world = { threads := [thread], world } ∧
      roundAttempts program now [thread] world = [] := by
  simp [round, roundAttempts, hparked]

/-- A round with one thread that makes a step. -/
theorem round_step (program : Program) {now : Nat} (hparked : isParked world now thread = false)
    {report : Thread.Report} {next : Thread} {later : World}
    (hstep : thread.unblock.step program world = (report, next, later))
    (hreport : ∀ fault, report ≠ .failed fault) :
    round program now [thread] world =
      { threads := [next], world := later, progressed := true, ended := later.library.ended } := by
  unfold round
  simp only [hparked, hstep, Bool.false_eq_true, if_false]
  cases hended : later.library.ended <;> cases report <;>
    first | exact absurd rfl (hreport _) | simp [round]

theorem roundAttempts_step (program : Program) {now : Nat}
    (hparked : isParked world now thread = false) :
    roundAttempts program now [thread] world = thread.unblock.attempts program world := by
  simp only [roundAttempts, hparked, Bool.false_eq_true, if_false, List.append_nil, ite_self]
  split <;> rfl

theorem program_start (program : Program) (library : Library) :
    (Machine.start program library).program = program := by
  unfold Machine.start
  dsimp only
  split <;> rfl

theorem program_awaken (machine : Machine) (now : Nat) :
    (machine.awaken now).2.program = machine.program := by
  unfold awaken
  dsimp only
  split <;> rfl

theorem ended_awaken (machine : Machine) (now : Nat) :
    (machine.awaken now).2.ended = machine.ended := by
  unfold awaken
  dsimp only
  split <;> rfl

theorem program_tick (machine : Machine) (now : Nat) :
    (machine.tick now).2.program = machine.program := by
  unfold tick
  split
  · rfl
  · dsimp only
    split <;> exact machine.program_awaken now

theorem program_ticked (machine : Machine) (instants : Nat → Nat) (count : Nat) :
    (machine.ticked instants count).program = machine.program := by
  induction count with
  | zero => rfl
  | succ count ih => exact (program_tick _ _).trans ih

theorem program_after (machine : Machine) (moves : List Move) :
    (machine.after moves).program = machine.program := by
  induction moves generalizing machine with
  | nil => rfl
  | cons move moves ih =>
    refine (ih _).trans ?_
    cases move with
    | tick now => exact machine.program_tick now
    | spawn | push | close => rfl

section Tick

variable {now : Nat} (hended : machine.ended = false)
  (hawaken : machine.awaken now = (false, { machine with world }))

include hended hawaken

/-- A tick that finds the only thread parked sets the time. -/
theorem tick_of_isParked (hthreads : machine.threads = [thread])
    (hparked : isParked world now thread = true) :
    (machine.tick now).2 = { machine with world } := by
  obtain ⟨hround, -⟩ := round_parked machine.program hparked
  have hwaits : thread.isFinished = false := by
    unfold isParked Thread.block? at hparked
    unfold Thread.isFinished
    cases hphase : thread.phase <;> simp [hphase] at hparked ⊢
  simp [tick, hended, hawaken, hthreads, hround, hwaits]

/-- A tick that finds the only thread able to go on makes a step of it. -/
theorem tick_of_step (hthreads : machine.threads = [thread])
    (hparked : isParked world now thread = false) {report : Thread.Report} {next : Thread}
    {later : World} (hstep : thread.unblock.step machine.program world = (report, next, later))
    (hreport : ∀ fault, report ≠ .failed fault) :
    (machine.tick now).2 =
      { machine with
        world := later
        threads := if later.library.ended then [] else [next].filter (!·.isFinished)
        ended := later.library.ended } := by
  simp only [tick, hended, hawaken, hthreads, Bool.false_eq_true, if_false,
    round_step machine.program hparked hstep hreport]

/-- A tick that finds no thread sets the time. -/
theorem tick_of_nil (hthreads : machine.threads = []) :
    (machine.tick now).2 = { machine with world } := by
  simp [tick, hended, hawaken, hthreads, round]

end Tick

section Tick

variable (now : Nat) (hended : machine.ended = false) (hplays : machine.world.Plays scene)

include hended hplays

theorem tick_parked (hthreads : machine.threads = [thread])
    (hparked : ∀ world : World, world.Plays scene → isParked world now thread = true) :
    ∃ world : World, (machine.tick now).2 = { machine with world } ∧ world.Plays scene ∧
      machine.attempts now = [] := by
  obtain ⟨world, hawaken, hworld⟩ := awaken_of_plays hplays now
  have hparked := hparked world hworld
  refine ⟨world, tick_of_isParked hended hawaken hthreads hparked, hworld, ?_⟩
  simp [attempts, hended, hawaken, hthreads, (round_parked machine.program hparked).2]

theorem tick_step (hthreads : machine.threads = [thread])
    (hparked : ∀ world : World, world.Plays scene → isParked world now thread = false) :
    ∃ world : World, world.Plays scene ∧
      machine.attempts now = thread.unblock.attempts machine.program world ∧
      ∀ {report : Thread.Report} {next : Thread} {later : World},
        thread.unblock.step machine.program world = (report, next, later) →
          (∀ fault, report ≠ .failed fault) →
          (machine.tick now).2 =
            { machine with
              world := later
              threads := if later.library.ended then [] else [next].filter (!·.isFinished)
              ended := later.library.ended } := by
  obtain ⟨world, hawaken, hworld⟩ := awaken_of_plays hplays now
  have hparked := hparked world hworld
  refine ⟨world, hworld, ?_, tick_of_step hended hawaken hthreads hparked⟩
  simp [attempts, hended, hawaken, hthreads, roundAttempts_step machine.program hparked]

theorem tick_nil (hthreads : machine.threads = []) :
    ∃ world : World, (machine.tick now).2 = { machine with world } ∧ world.Plays scene := by
  obtain ⟨world, hawaken, hworld⟩ := awaken_of_plays hplays now
  exact ⟨world, tick_of_nil hended hawaken hthreads, hworld⟩

end Tick

/-! ## States of the machine -/

/-- After so many ticks the machine has one thread, in this scene, whose statement comes to this
verdict. -/
structure Stands (machine : Machine) (instants : Nat → Nat) (clock : Nat → String) (count : Nat)
    (thread : Thread) (scene : Scene) (verdict : Verdict Flow) : Prop where
  threads : (machine.ticked instants count).threads = [thread]
  ended : (machine.ticked instants count).ended = false
  plays : (machine.ticked instants count).world.Plays scene
  running : scene.Running
  readings : scene.readings = (machine.readings instants count).length
  pends : thread.Pends machine.program clock scene verdict

/-- After so many ticks the machine has finished, in this scene. -/
structure Over (machine : Machine) (instants : Nat → Nat) (count : Nat) (scene : Scene) : Prop where
  halted : (machine.ticked instants count).ended = true ∨
    (machine.ticked instants count).ended = false ∧ (machine.ticked instants count).threads = []
  plays : (machine.ticked instants count).world.Plays scene

/-- After so many ticks the statement of a thread, which stood at an index with return addresses,
has come to its verdict: the machine has finished, or the thread stands at the next statement. -/
inductive Settles (machine : Machine) (instants : Nat → Nat) (clock : Nat → String)
    (count index : Nat) (returns : List Nat) : Verdict Flow → Prop
  | stops {scene : Scene} (hover : machine.Over instants count scene) :
      Settles machine instants clock count index returns (.stops scene)
  | finishes {flow : Flow} {scene : Scene}
      (hpast : machine.program.size ≤ (machine.program.follow index returns flow).1)
      (hover : machine.Over instants count scene) :
      Settles machine instants clock count index returns (.goes flow scene)
  | moves {flow : Flow} {scene : Scene} {thread : Thread} {statement : Statement}
      (hplace : machine.program.follow index returns flow = (thread.ip, thread.returns))
      (hstatement : machine.program.get? thread.ip = some statement)
      (hstands : machine.Stands instants clock count thread scene
        ((machine.program.execute thread.ip statement).evaluate clock scene)) :
      Settles machine instants clock count index returns (.goes flow scene)

variable {count : Nat}

/-- A machine that has finished stays as it is. -/
theorem Over.succ (hover : machine.Over instants count scene) :
    machine.Over instants (count + 1) scene := by
  rcases hover.halted with hended | ⟨hended, hthreads⟩
  · have htick : machine.ticked instants (count + 1) = machine.ticked instants count := by
      simp [ticked, tick, hended]
    exact ⟨.inl (htick ▸ hended), htick ▸ hover.plays⟩
  · obtain ⟨world, htick, hworld⟩ :=
      tick_nil (instants count) hended hover.plays hthreads
    have hticked : machine.ticked instants (count + 1) =
        { machine.ticked instants count with world } := htick
    exact ⟨.inr (hticked ▸ ⟨hended, hthreads⟩), hticked ▸ hworld⟩

theorem Over.of_le {later : Nat} (hover : machine.Over instants count scene)
    (hle : count ≤ later) : machine.Over instants later scene := by
  induction hle with
  | refl => exact hover
  | step _ ih => exact ih.succ

/-- The states in which nothing can run any more. -/
theorem Over.isFinished (hover : machine.Over instants count scene) :
    (machine.ticked instants count).isFinished = true := by
  have hhandler := hover.plays.alike.handler_eq.trans hover.plays.handler
  rcases hover.halted with hended | ⟨hended, hthreads⟩
  · simp [Machine.isFinished, hended]
  · simp [Machine.isFinished, hthreads, Timer.isLive, hhandler]

theorem Stands.not_isFinished
    (hstands : machine.Stands instants clock count thread scene verdict) :
    (machine.ticked instants count).isFinished = false := by
  simp [Machine.isFinished, hstands.ended, hstands.threads]

/-- Whether what is waited for has come at an instant, once input is closed. -/
def hasCome (now : Nat) : Block → Bool
  | .instant time => decide (time ≤ now)
  | .input | .signal => true

theorem isParked_of_plays (hplays : world.Plays scene) (now : Nat) (thread : Thread) :
    isParked world now thread = thread.block?.any fun block => !hasCome now block := by
  have hready : world.library.console.isReady = true := by
    rw [hplays.alike.console_eq]
    exact Library.isReady_of_closed hplays.closed
  unfold isParked
  cases thread.block? with
  | none => rfl
  | some block => cases block <;> simp [Library.isResolved, hready, hasCome]

end Machine

namespace Thread

variable {program : Program} {thread : Thread} {flow : Flow}

/-- A thread that is directed to a statement stands before it. -/
theorem follow_of_lt {ip : Nat} {returns : List Nat}
    (hplace : program.follow thread.ip thread.returns flow = (ip, returns))
    (hlt : ip < program.size) :
    (thread.follow program flow).2 = { thread with ip, returns, phase := .ready } := by
  cases flow with
  | next | jump | enter =>
    obtain ⟨rfl, rfl⟩ := Prod.mk.inj hplace
    simp only [follow, Thread.goto, if_pos hlt]
  | leave =>
    cases hreturns : thread.returns with
    | nil =>
      simp only [Program.follow, hreturns, Prod.mk.injEq] at hplace
      omega
    | cons address rest =>
      simp only [Program.follow, hreturns, Prod.mk.injEq] at hplace
      obtain ⟨rfl, rfl⟩ := hplace
      simp only [follow, hreturns, Thread.goto, if_pos hlt]

/-- A thread that is directed past the program ends. -/
theorem follow_of_le (hle : program.size ≤ (program.follow thread.ip thread.returns flow).1) :
    (thread.follow program flow).2.isFinished = true := by
  obtain ⟨id, ip, returns, phase⟩ := thread
  cases flow with
  | next | jump | enter =>
    simp only [Program.follow] at hle
    simp [follow, Thread.goto, Nat.not_lt.2 hle, isFinished]
  | leave =>
    cases returns with
    | nil => rfl
    | cons address rest =>
      simp only [Program.follow] at hle
      simp [follow, Thread.goto, Nat.not_lt.2 hle, isFinished]

theorem settle_ne_failed {progress : Progress Flow} (hprogress : ∀ fault, progress ≠ .failed fault)
    (thread : Thread) (program : Program) (fault : Fault) :
    (thread.settle program progress).1 ≠ .failed fault := by
  cases progress with
  | done flow => exact (stepsWell_follow thread program flow).1 fault
  | failed other => exact absurd rfl (hprogress other)
  | blocked block rest => simp [settle]

end Thread

namespace Machine

variable {machine : Machine} {instants : Nat → Nat} {clock : Nat → String} {thread : Thread}
  {scene : Scene} {verdict : Verdict Flow} {count : Nat}

/-- A tick leaves a thread that has to wait where it is. -/
theorem Stands.wait (hstands : machine.Stands instants clock count thread scene verdict)
    (hwaits : (thread.block?.any fun block => !hasCome (instants count) block) = true) :
    machine.Stands instants clock (count + 1) thread scene verdict := by
  have hparked : ∀ world : World, world.Plays scene →
      isParked world (instants count) thread = true := by
    intro world hplays
    rw [isParked_of_plays hplays, hwaits]
  obtain ⟨world, htick, hworld, hattempts⟩ :=
    tick_parked (instants count) hstands.ended hstands.plays hstands.threads hparked
  have hticked : machine.ticked instants (count + 1) =
      { machine.ticked instants count with world } := htick
  constructor
  case threads => rw [hticked, ← hstands.threads]
  case ended => rw [hticked, ← hstands.ended]
  case plays => rwa [hticked]
  case running => exact hstands.running
  case readings => simp [Machine.readings, hattempts, hstands.readings]
  case pends => exact hstands.pends

/-- A thread waits until it is ready to go on, if it ever is. -/
theorem Stands.until (hstands : machine.Stands instants clock count thread scene verdict)
    (more : Nat)
    (hready : (thread.block?.any fun block => !hasCome (instants (count + more)) block) = false) :
    ∃ later, machine.Stands instants clock later thread scene verdict ∧
      (thread.block?.any fun block => !hasCome (instants later) block) = false := by
  induction more generalizing count with
  | zero => exact ⟨count, hstands, hready⟩
  | succ more ih =>
    cases hwaits : thread.block?.any fun block => !hasCome (instants count) block with
    | false => exact ⟨count, hstands, hwaits⟩
    | true => exact ih (hstands.wait hwaits) (by rwa [Nat.add_right_comm, Nat.add_assoc])

/-- No thread waits forever, since input is closed and every instant is passed. -/
theorem Stands.exists_ready (hstands : machine.Stands instants clock count thread scene verdict)
    (hpasses : machine.PassesDelays instants) :
    ∃ later, machine.Stands instants clock later thread scene verdict ∧
      (thread.block?.any fun block => !hasCome (instants later) block) = false := by
  cases hblock : thread.block? with
  | none => exact ⟨count, hstands, rfl⟩
  | some block =>
    cases block with
    | input | signal => exact ⟨count, hstands, rfl⟩
    | instant time =>
      have hmem : thread ∈ (machine.ticked instants count).threads := by
        rw [hstands.threads]
        exact List.mem_singleton_self thread
      obtain ⟨later, hle, htime⟩ := hpasses count thread hmem time hblock
      obtain ⟨more, rfl⟩ := Nat.exists_eq_add_of_le hle
      rw [← hblock]
      exact hstands.until more (by simp [hblock, hasCome, htime])

section Steps

variable (hlinked : machine.program.Linked)
  (hbinds : ∀ event handler, .bind event handler ∉ machine.program.clauses)

include hlinked hbinds

/-- A tick makes a step of a thread that can go on. Its statement comes to the verdict, or to a
later wait. -/
theorem Stands.step (hstands : machine.Stands instants clock count thread scene verdict)
    (hgives : Gives clock 0 (machine.readings instants (count + 1)))
    (hready : (thread.block?.any fun block => !hasCome (instants count) block) = false) :
    machine.Settles instants clock (count + 1) thread.ip thread.returns verdict ∨
      ∃ next moved block rest, next.phase = .waiting block rest ∧
        thread.MayWait machine.program rest ∧ next.ip = thread.ip ∧
        next.returns = thread.returns ∧
        machine.Stands instants clock (count + 1) next moved verdict := by
  have hparked : ∀ world : World, world.Plays scene →
      isParked world (instants count) thread = false := by
    intro world hplays
    rw [isParked_of_plays hplays, hready]
  obtain ⟨world, hworld, hattempts, htick⟩ :=
    tick_step (instants count) hstands.ended hstands.plays hstands.threads hparked
  rw [program_ticked] at hattempts htick
  have hanswers := (gives_append_iff.1 hgives).2
  rw [hattempts, Nat.zero_add, ← hstands.readings] at hanswers
  obtain ⟨progress, later, next, hstep, hleads, hmayWait⟩ :=
    hstands.pends.step hlinked hbinds hworld hanswers
  obtain ⟨hbrings, hplays, hreadings⟩ := hleads
  have hreadings : next.readings = (machine.readings instants (count + 1)).length := by
    rw [hreadings, hstands.readings, Machine.readings, List.length_append, hattempts]
  have hprogress : ∀ fault, progress ≠ .failed fault := by
    cases hbrings with
    | done | waits => simp
    | ended _ hprogress => exact hprogress
  have hticked := htick hstep (Thread.settle_ne_failed hprogress thread machine.program)
  cases hbrings with
  | ended hended =>
    have hlater : later.library.ended = true := hplays.ended_eq.trans hended
    refine .inl (.stops ⟨.inl ?_, ?_⟩)
    · rw [ticked, hticked, hlater]
    · rw [ticked, hticked]
      exact hplays
  | @waits block rest hrunning hrest =>
    have hlater : later.library.ended = false := hplays.ended_eq.trans hrunning
    refine .inr ⟨{ thread with phase := .waiting block rest }, next, block, rest, rfl,
      hmayWait block rest rfl, rfl, rfl, ?_⟩
    constructor
    case threads => simp [ticked, hticked, hlater, Thread.settle, Thread.isFinished]
    case ended => rw [ticked, hticked, hlater]
    case plays =>
      rw [ticked, hticked]
      exact hplays
    case running => exact hrunning
    case readings => exact hreadings
    case pends => exact .waiting rfl hrest
  | @done flow hrunning =>
    have hlater : later.library.ended = false := hplays.ended_eq.trans hrunning
    left
    obtain ⟨ip, returns, hplace⟩ : ∃ ip returns,
        machine.program.follow thread.ip thread.returns flow = (ip, returns) := ⟨_, _, rfl⟩
    by_cases hlt : ip < machine.program.size
    · have hstatement : machine.program.get? ip = some machine.program.statements[ip] :=
        Array.getElem?_eq_getElem hlt
      have hfollow := Thread.follow_of_lt hplace hlt
      have hstands : machine.Stands instants clock (count + 1)
          { thread with ip, returns, phase := .ready } next _ := {
        threads := by
          simp only [ticked, hticked, hlater, Thread.settle, hfollow]
          rfl
        ended := by rw [ticked, hticked, hlater]
        plays := by
          rw [ticked, hticked]
          exact hplays
        running := hrunning
        readings := hreadings
        pends := .ready rfl hstatement }
      exact .moves hplace hstatement hstands
    · have hle : machine.program.size ≤
          (machine.program.follow thread.ip thread.returns flow).1 := by
        rw [hplace]
        exact Nat.not_lt.1 hlt
      refine .finishes hle ⟨.inr ⟨?_, ?_⟩, ?_⟩
      · rw [ticked, hticked, hlater]
      · simp [ticked, hticked, hlater, Thread.settle, Thread.follow_of_le hle]
      · rw [ticked, hticked]
        exact hplays

variable (hpasses : machine.PassesDelays instants)
  (hgives : ∀ count, Gives clock 0 (machine.readings instants count))

include hpasses hgives

/-- A statement that waits for one of the requests of an action comes to its verdict: each wait is
followed only by waits for requests that come after it. -/
theorem Stands.exists_settles_of_contains (action : Action Flow) {rest : Suspension Flow}
    {block : Block} (hcontains : action.Contains rest) (hphase : thread.phase = .waiting block rest)
    (hstands : machine.Stands instants clock count thread scene verdict) :
    ∃ later, machine.Settles instants clock later thread.ip thread.returns verdict := by
  induction action generalizing count thread scene rest block with
  | done | fail => cases hcontains
  | ask r next ih =>
    cases hcontains with
    | there hrest => exact ih _ hrest hphase hstands
    | here =>
      obtain ⟨later, hlater, hready⟩ := hstands.exists_ready hpasses
      obtain hsettles | ⟨moved, after, other, left, hleft, hmayWait, hip, hreturns, hmoved⟩ :=
        hlater.step hlinked hbinds (hgives _) hready
      · exact ⟨_, hsettles⟩
      · rw [← hip, ← hreturns]
        cases hmayWait with
        | ready hother => simp [hphase] at hother
        | @waiting _ now answer hother hleftover =>
          obtain ⟨-, rfl⟩ := Thread.Phase.waiting.inj (hphase.symm.trans hother)
          exact ih answer hleftover hleft hmoved

/-- Every statement comes to its verdict. -/
theorem Stands.exists_settles (hstands : machine.Stands instants clock count thread scene verdict) :
    ∃ later, machine.Settles instants clock later thread.ip thread.returns verdict := by
  obtain ⟨later, hlater, hready⟩ := hstands.exists_ready hpasses
  obtain hsettles | ⟨moved, after, block, left, hleft, hmayWait, hip, hreturns, hmoved⟩ :=
    hlater.step hlinked hbinds (hgives _) hready
  · exact ⟨_, hsettles⟩
  · rw [← hip, ← hreturns]
    cases hmayWait with
    | ready _ _ hcontains | waiting _ hcontains =>
      exact hmoved.exists_settles_of_contains hlinked hbinds hpasses hgives _ hcontains hleft

/-- Where the thread finishes after so many statements, the machine comes to be over. -/
theorem Stands.exists_over {last : Scene} {bound : Nat}
    (hstands : machine.Stands instants clock count thread scene verdict)
    (hends : verdict.Ends (fun flow next => ∃ fewer < bound,
      machine.program.Finishes clock last fewer
        (machine.program.follow thread.ip thread.returns flow).1
        (machine.program.follow thread.ip thread.returns flow).2 next) last) :
    ∃ later, machine.Over instants later last := by
  induction bound using Nat.strongRecOn generalizing count thread scene verdict with
  | ind bound ih =>
    obtain ⟨later, hsettles⟩ := hstands.exists_settles hlinked hbinds hpasses hgives
    cases hsettles with
    | stops hover =>
      obtain rfl := Verdict.ends_stops_iff.1 hends
      exact ⟨later, hover⟩
    | finishes hpast hover =>
      obtain ⟨fewer, -, hfinishes⟩ := Verdict.ends_goes_iff.1 hends
      obtain rfl := hfinishes.eq_last hpast
      exact ⟨later, hover⟩
    | moves hplace hstatement hmoved =>
      obtain ⟨fewer, hfewer, hfinishes⟩ := Verdict.ends_goes_iff.1 hends
      rw [hplace] at hfinishes
      exact ih fewer hfewer hmoved (hfinishes.ends hstatement)

omit hpasses

/-- Where the machine is over after so many more ticks, the thread finishes. -/
theorem Stands.ends_of_isFinished (more : Nat)
    (hstands : machine.Stands instants clock count thread scene verdict)
    (hfinished : (machine.ticked instants (count + more)).isFinished = true) :
    ∃ last, (machine.ticked instants (count + more)).world.Plays last ∧
      verdict.Ends (fun flow next => machine.program.Halts clock last
        (machine.program.follow thread.ip thread.returns flow).1
        (machine.program.follow thread.ip thread.returns flow).2 next) last := by
  induction more generalizing count thread scene verdict with
  | zero => exact absurd hfinished (by simp [hstands.not_isFinished])
  | succ more ih =>
    rw [← Nat.add_assoc, Nat.add_right_comm] at hfinished ⊢
    cases hready : thread.block?.any fun block => !hasCome (instants count) block with
    | true => exact ih (hstands.wait hready) hfinished
    | false =>
      obtain hsettles | ⟨moved, after, block, left, -, -, hip, hreturns, hmoved⟩ :=
        hstands.step hlinked hbinds (hgives _) hready
      · cases hsettles with
        | stops hover => exact ⟨_, (hover.of_le (Nat.le_add_right _ more)).plays, .stops⟩
        | finishes hpast hover =>
          exact ⟨_, (hover.of_le (Nat.le_add_right _ more)).plays, .goes ⟨0, hpast, rfl⟩⟩
        | moves hplace hstatement hmoved =>
          obtain ⟨last, hplays, hends⟩ := ih hmoved hfinished
          refine ⟨last, hplays, .goes ?_⟩
          rw [hplace]
          exact Program.halts_of_ends hstatement hends
      · rw [← hip, ← hreturns]
        exact ih hmoved hfinished

include hpasses

/-- The machine finishes in the scenes in which its thread does. What is said of the last world must
not depend on the time. -/
theorem Stands.exists_isFinished_iff {statement : Statement} {P : World → Prop}
    (hstatement : machine.program.get? thread.ip = some statement)
    (hstands : machine.Stands instants clock 0 thread scene
      ((machine.program.execute thread.ip statement).evaluate clock scene))
    (halike : ∀ {world other : World}, world.Alike other → P world → P other) :
    (∃ count, (machine.ticked instants count).isFinished = true ∧
        P (machine.ticked instants count).world) ↔
      ∃ last, machine.program.Halts clock last thread.ip thread.returns scene ∧ P last.world := by
  constructor
  · rintro ⟨count, hfinished, hworld⟩
    rw [← Nat.zero_add count] at hfinished hworld
    obtain ⟨last, hplays, hends⟩ :=
      hstands.ends_of_isFinished hlinked hbinds hgives count hfinished
    exact ⟨last, Program.halts_of_ends hstatement hends, halike hplays.alike hworld⟩
  · rintro ⟨last, ⟨count, hfinishes⟩, hlast⟩
    obtain ⟨later, hover⟩ := hstands.exists_over hlinked hbinds hpasses hgives
      (hfinishes.ends hstatement)
    exact ⟨later, hover.isFinished, halike hover.plays.alike.symm hlast⟩

end Steps

end Machine

end SmallBasic
