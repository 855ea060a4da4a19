import SmallBasic.Proofs.RoundRobin

/-!
# Ticks without progress

A tick reports progress if it starts a thread or gives one a turn. If it reports none, it has found
every thread parked and no event to start one. Then nothing has happened but that time has passed:
the clock of the library is set, and a timer that is bound to nothing may count anew. The same tick
once more finds the same.

A program that has ended does not look at its threads any more. What is started after its end stays
as it is, so that a tick without progress may then find a thread that could go on.

## Main definitions

* `Machine.Stuck` — no event is due, and every thread is parked.
* `Machine.StandsStill` — what a tick without progress leaves as it was.

## Main statements

* `Machine.stuck_of_report` — a tick that reports no progress has found the machine stuck.
* `Machine.Stuck.tick_eq` — what a tick of a stuck machine does.
* `Machine.standsStill_of_report` — a tick that reports no progress has done nothing.
* `Machine.spawned_after_end` — a thread that is started after the end.
-/

namespace SmallBasic

/-- The timers differ at most in when the next tick is due, and only if none is bound. -/
def Timer.SameUnlessUnbound (timer other : Timer) : Prop :=
  other = timer ∨ timer.handler? = none ∧ ∃ due?, other = { timer with due? }

/-- A look at a timer that starts nothing leaves it as it is, unless it is bound to nothing, and the
next look at the same instant starts nothing either. -/
theorem Timer.poll_of_none {timer : Timer} {now : Nat} (hnone : (timer.poll now).1 = none) :
    timer.SameUnlessUnbound (timer.poll now).2 ∧ ((timer.poll now).2.poll now).1 = none := by
  unfold poll at hnone ⊢
  cases hdue : timer.due? with
  | none =>
    simp only [hdue]
    exact ⟨.inl rfl, trivial⟩
  | some due =>
    simp only [hdue] at hnone ⊢
    split at hnone
    case isTrue hearly =>
      simp only [hdue, hearly, if_true]
      exact ⟨.inl rfl, trivial⟩
    case isFalse hlate =>
      simp only [hlate, if_false, resume]
      refine ⟨.inr ⟨hnone, _, rfl⟩, ?_⟩
      split
      · rfl
      · exact hnone

namespace Machine

variable {machine : Machine} {now : Nat}

theorem isFinished_of_isParked {world : World} {thread : Thread}
    (hparked : isParked world now thread = true) : thread.isFinished = false := by
  unfold isParked Thread.block? at hparked
  unfold Thread.isFinished
  cases hphase : thread.phase <;> simp [hphase] at hparked ⊢

/-- The tick finds nothing to do: no event is due, and every thread is parked. -/
structure Stuck (machine : Machine) (now : Nat) : Prop where
  timer : (machine.world.library.timer.poll now).1 = none
  parked : ∀ thread ∈ machine.threads, isParked machine.world now thread = true

/-- The machine once its time is set and the timer has been looked at. -/
def atInstant (machine : Machine) (now : Nat) : Machine :=
  { machine with
    world := machine.world.withLibrary ((machine.world.library.setNow now).due now).2 }

theorem awaken_eq_ite (machine : Machine) (now : Nat) :
    machine.awaken now =
      match (machine.world.library.timer.poll now).1 with
      | some handler => (true, (machine.atInstant now).spawn handler)
      | none => (false, machine.atInstant now) := rfl

/-- Whether a thread is parked depends on the console and on the instant of the tick. -/
theorem isParked_atInstant (machine : Machine) (now : Nat) (thread : Thread) :
    isParked (machine.atInstant now).world now thread = isParked machine.world now thread := by
  unfold isParked
  split
  · rename_i block _
    cases block <;> rfl
  · rfl

/-- A round without progress finds all threads parked. -/
theorem GoesRound.parked_of_not_progressed {program : Program} {threads : List Thread}
    {world : World} {turns : List Turn} {after : Round}
    (hround : GoesRound program now threads world turns after) (hstill : after.progressed = false) :
    ∀ thread ∈ threads, isParked world now thread = true := by
  induction hround with
  | nil => simp
  | parked hparked _ ih => exact List.forall_mem_cons.2 ⟨hparked, ih hstill⟩
  | fails | ends | turn => cases hstill

/-- A round through parked threads does nothing. -/
theorem round_of_parked (program : Program) {threads : List Thread} {world : World}
    (hparked : ∀ thread ∈ threads, isParked world now thread = true) :
    round program now threads world = { threads, world } ∧
      roundTurns program now threads world = [] := by
  induction threads with
  | nil => exact ⟨rfl, rfl⟩
  | cons thread rest ih =>
    obtain ⟨hthread, hrest⟩ := List.forall_mem_cons.1 hparked
    obtain ⟨hround, hturns⟩ := ih hrest
    simp [round, roundTurns, hthread, hround, hturns]

/-- A tick that reports no progress has found the machine stuck, unless the program has ended. -/
theorem stuck_of_report (hended : machine.ended = false) {finished : Bool}
    (hreport : (machine.tick now).1 = .ok ⟨false, finished⟩) : machine.Stuck now := by
  obtain ⟨after, -, hround, htick⟩ := exists_goesRound_of_ok hended hreport
  rw [htick, Except.ok.injEq, TickReport.mk.injEq, Bool.or_eq_false_iff] at hreport
  obtain ⟨⟨hstarted, hstill⟩, -⟩ := hreport
  have hnone : (machine.world.library.timer.poll now).1 = none := by
    rw [awaken_eq_ite] at hstarted
    split at hstarted
    · cases hstarted
    · assumption
  refine ⟨hnone, fun thread hthread => ?_⟩
  have hparked := hround.parked_of_not_progressed hstill
  rw [awaken_eq_ite, hnone] at hparked
  rw [← isParked_atInstant]
  exact hparked thread hthread

/-- What a tick of a stuck machine does: it gives no turn, and sets the time. -/
theorem Stuck.tick_eq (hstuck : machine.Stuck now) (hended : machine.ended = false) :
    machine.tick now =
        (.ok ⟨false, (machine.atInstant now).isFinished⟩, machine.atInstant now) ∧
      machine.turns now = [] := by
  have hawaken : machine.awaken now = (false, machine.atInstant now) := by
    rw [awaken_eq_ite, hstuck.timer]
  have hparked : ∀ thread ∈ machine.threads,
      isParked (machine.atInstant now).world now thread = true :=
    fun thread hthread => (machine.isParked_atInstant now thread).trans
      (hstuck.parked thread hthread)
  have hround := round_of_parked machine.program hparked
  have hkept : machine.threads.filter (!·.isFinished) = machine.threads := by
    rw [List.filter_eq_self]
    intro thread hthread
    simp [isFinished_of_isParked (hstuck.parked thread hthread)]
  have hsame : (machine.atInstant now).afterRound
      { threads := machine.threads, world := (machine.atInstant now).world } =
        machine.atInstant now := by
    simp [afterRound, atInstant, hkept, hended]
  constructor
  · have hawake : round machine.program now (machine.awaken now).2.threads
        (machine.awaken now).2.world =
          { threads := machine.threads, world := (machine.atInstant now).world } := by
      rw [hawaken]
      exact hround.1
    rw [tick_of_round hended hawake rfl, hawaken, hsame, Bool.false_or]
  · simp only [turns, hended, hawaken, Bool.false_eq_true, if_false]
    exact hround.2

/-- The same tick once more finds the machine stuck again. -/
theorem Stuck.atInstant (hstuck : machine.Stuck now) : (machine.atInstant now).Stuck now where
  timer := (Timer.poll_of_none hstuck.timer).2
  parked := fun thread hthread =>
    (machine.isParked_atInstant now thread).trans (hstuck.parked thread hthread)

/-! ## Ticks without progress -/

/-- What a tick that reports no progress leaves as it was. -/
structure StandsStill (machine : Machine) (now : Nat) : Prop where
  /-- No thread has had a turn, and none was started or dropped. Each of them stays at its
  statement, with what it has left to do in it, and waits for the same. -/
  turns : machine.turns now = []
  started : machine.startedBy now = [] ∧ (machine.tick now).2.nextId = machine.nextId
  threads : (machine.tick now).2.threads = machine.threads
  /-- Each thread waits for something that has not come, unless the program has ended. -/
  blocked : machine.ended = false → ∀ thread ∈ machine.threads, ∃ block,
    thread.block? = some block ∧ machine.world.library.isResolved now block = false
  /-- Whether the program has ended stays as it is. -/
  ended : (machine.tick now).2.ended = machine.ended
  store : (machine.tick now).2.world.store = machine.world.store
  /-- The library differs at most in its clock, and in when a timer without a handler is due. -/
  library : ∃ clock timer, machine.world.library.timer.SameUnlessUnbound timer ∧
    (machine.tick now).2.world.library =
      { machine.world.library with now := clock, timer := timer }
  /-- The same tick again reports no progress either. -/
  again : ∃ finished, ((machine.tick now).2.tick now).1 = .ok ⟨false, finished⟩

theorem standsStill_of_ended (hended : machine.ended = true) (now : Nat) :
    machine.StandsStill now := by
  have htick : machine.tick now = (.ok ⟨false, true⟩, machine) := by simp [tick, hended]
  constructor
  case turns => simp [Machine.turns, hended]
  case started => simp [startedBy, hended, htick]
  case threads | ended | store => rw [htick]
  case blocked => simp [hended]
  case library => exact ⟨_, _, .inl rfl, by rw [htick]⟩
  case again => exact ⟨true, by rw [htick, htick]⟩

theorem Stuck.standsStill (hstuck : machine.Stuck now) (hended : machine.ended = false) :
    machine.StandsStill now := by
  obtain ⟨htick, hturns⟩ := hstuck.tick_eq hended
  constructor
  case turns => exact hturns
  case started => simp [startedBy, hended, hstuck.timer, htick, Machine.atInstant]
  case threads | ended | store =>
    rw [htick]
    rfl
  case blocked =>
    intro _ thread hthread
    have hparked := hstuck.parked thread hthread
    unfold isParked at hparked
    split at hparked
    · exact ⟨_, ‹_›, by simpa using hparked⟩
    · cases hparked
  case library =>
    rw [htick]
    exact ⟨now, _, (Timer.poll_of_none hstuck.timer).1, rfl⟩
  case again =>
    rw [htick, (hstuck.atInstant.tick_eq hended).1]
    exact ⟨_, rfl⟩

/-- A tick that reports no progress has done nothing but to set the clock. This holds in every run
of every program, also after ticks that fail. -/
theorem standsStill_of_report (program : Program) (library : Library) (moves : List Move) :
    let machine := (Machine.start program library).after moves
    ∀ now finished, (machine.tick now).1 = .ok ⟨false, finished⟩ → machine.StandsStill now := by
  intro machine now finished hreport
  cases hended : machine.ended with
  | true => exact standsStill_of_ended hended now
  | false => exact (stuck_of_report hended hreport).standsStill hended

/-- A program that waits for a line of input stands still. -/
theorem standsStill_while_reading : ∃ program,
    Program.parse "x = TextWindow.Read()" = .ok program ∧
      let machine := (Machine.start program {}).after [.tick 0]
      (machine.tick 1).1 = .ok ⟨false, false⟩ ∧ machine.StandsStill 1 := by
  obtain ⟨program, hparse, hcheck⟩ := Program.exists_of_any "x = TextWindow.Read()"
    (fun program =>
      decide ((((Machine.start program {}).after [.tick 0]).tick 1).1 = .ok ⟨false, false⟩))
    (by decide +kernel)
  have hreport := of_decide_eq_true hcheck
  exact ⟨program, hparse, hreport, standsStill_of_report program {} [.tick 0] 1 false hreport⟩

/-- A thread that is started after the end of the program is not blocked, and no tick gives it a
turn. -/
theorem spawned_after_end : ∃ program,
    Program.parse "Program.End()\nSub s\nEndSub" = .ok program ∧
      let machine := (Machine.start program {}).after [.tick 0, .spawn 2]
      (machine.tick 1).1 = .ok ⟨false, true⟩ ∧
        ∃ thread ∈ machine.threads, thread.isFinished = false ∧ thread.block? = none := by
  obtain ⟨program, hparse, hcheck⟩ := Program.exists_of_any "Program.End()\nSub s\nEndSub"
    (fun program =>
      let machine := (Machine.start program {}).after [.tick 0, .spawn 2]
      decide ((machine.tick 1).1 = .ok ⟨false, true⟩) &&
        machine.threads.any fun thread => !thread.isFinished && thread.block?.isNone)
    (by decide +kernel)
  refine ⟨program, hparse, ?_⟩
  simpa using hcheck

end Machine

end SmallBasic
