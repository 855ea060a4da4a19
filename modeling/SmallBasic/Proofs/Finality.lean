import SmallBasic.Proofs.Turns

/-!
# The end of a run

A machine finishes in one of two ways. Either the program is told to end, which takes effect in the
middle of a tick, or no thread is left and no event can start one. Both are final: whatever input
still comes, no later tick does anything.

## Main definitions

* `Machine.Idles` — a tick that finds nothing to do.
* `Machine.EndsAt` — a tick that ends with a turn.

## Main statements

* `World.Makes.ended_eq` — the program has ended exactly if it was told to.
* `Machine.idles_of_isFinished` — a tick of a finished machine does nothing.
* `Machine.final_of_parse` — what has finished stays finished, and the end of a program is at once.
-/

namespace SmallBasic

/-! ## Telling the program to end -/

/-- Whether a request tells the program to end. -/
def Request.isEnd : Request → Bool
  | .call (.program .end) _ => true
  | _ => false

namespace Library

variable {lib next : Library}

theorem ended_callProgram? {resumed : Bool} {method : ProgramMethod} {args : List String}
    {outcome : Outcome} (hcall : lib.callProgram? resumed method args = some (outcome, next)) :
    next.ended = ((Request.call (.program method) args).isEnd || lib.ended) := by
  cases method, args using ProgramMethod.args_cases with
  | other method args hargs => cases (callProgram?_eq_none lib resumed hargs).symm.trans hcall
  | _ =>
    cases hcall
    rfl

/-- A call ends the program exactly if it tells it to. -/
theorem ended_call? {method : Method} {args : List String} {resumed : Bool} {outcome : Outcome}
    (hcall : lib.call? method args resumed = some (outcome, next)) :
    next.ended = ((Request.call method args).isEnd || lib.ended) := by
  cases method with
  | program m => exact ended_callProgram? hcall
  | _ => exact (changesOwn_call? hcall).ended_eq (by simp)

end Library

namespace World

variable {world next last : World}

theorem ended_perform {r : Request} {resumed : Bool} {outcome : Outcome}
    (hperform : world.perform resumed r = .ok (outcome, next)) :
    next.library.ended = (r.isEnd || world.library.ended) := by
  cases r with
  | readVariable | writeVariable =>
    cases hperform
    rfl
  | readField field | writeField field value =>
    cases hperform
    cases field <;> rfl
  | bindEvent event target =>
    cases hperform
    cases event
    rfl
  | call method args =>
    obtain ⟨library, hcall, rfl⟩ := perform_call_iff.1 hperform
    exact Library.ended_call? hcall

/-- After some attempts the program has ended exactly if it had before, or one of them told it
to. -/
theorem Makes.ended_eq {log : List Attempt} (hmakes : world.Makes log last) :
    last.library.ended = (log.any (·.request.isEnd) || world.library.ended) := by
  induction hmakes with
  | nil => rfl
  | cons hattempt _ ih =>
    rw [ih, ended_perform hattempt, List.any_cons, Bool.or_left_comm, ← Bool.or_assoc]

end World

namespace Machine

variable {machine : Machine}

/-! ## Finished machines -/

/-- A tick finds nothing to do: it gives no turn, starts no thread, and leaves what threads have
made as it is. -/
structure Idles (machine : Machine) (now : Nat) : Prop where
  report : (machine.tick now).1 = .ok ⟨false, true⟩
  turns : machine.turns now = []
  nextId : (machine.tick now).2.nextId = machine.nextId
  threads : (machine.tick now).2.threads = machine.threads
  store : (machine.tick now).2.world.store = machine.world.store
  console : (machine.tick now).2.world.library.console = machine.world.library.console
  namedStacks : (machine.tick now).2.world.library.namedStacks = machine.world.library.namedStacks
  namedArrays : (machine.tick now).2.world.library.namedArrays = machine.world.library.namedArrays

/-- A timer that is not live starts nothing, and looking at it does not make it live. -/
theorem poll_of_not_isLive {timer : Timer} (hlive : timer.isLive = false) (now : Nat) :
    (timer.poll now).1 = none ∧ (timer.poll now).2.isLive = false := by
  unfold Timer.poll
  cases hdue : timer.due? with
  | none => exact ⟨rfl, hlive⟩
  | some due =>
    have hhandler : timer.handler? = none := by simpa [Timer.isLive, hdue] using hlive
    dsimp only
    split
    · exact ⟨rfl, hlive⟩
    · exact ⟨hhandler, by simp [Timer.isLive, Timer.resume, hhandler]⟩

theorem idles_of_ended (hended : machine.ended = true) (now : Nat) : machine.Idles now := by
  have htick : machine.tick now = (.ok ⟨false, true⟩, machine) := by simp [tick, hended]
  constructor <;> simp [htick, turns, hended]

/-- A tick of a finished machine does nothing, and leaves it finished. -/
theorem idles_of_isFinished (hfinished : machine.isFinished = true) (now : Nat) :
    machine.Idles now ∧ (machine.tick now).2.isFinished = true := by
  cases hended : machine.ended with
  | true =>
    refine ⟨idles_of_ended hended now, ?_⟩
    simpa [tick, hended] using hfinished
  | false =>
    obtain ⟨hthreads, hlive⟩ :
        machine.threads = [] ∧ machine.world.library.timer.isLive = false := by
      simpa [isFinished, hended] using hfinished
    obtain ⟨hnone, hstill⟩ := poll_of_not_isLive hlive now
    have hawaken : machine.awaken now = (false, { machine with
        world := machine.world.withLibrary { machine.world.library with
          now, timer := (machine.world.library.timer.poll now).2 } }) := by
      simp only [awaken, Library.due, Library.setNow, hnone]
    constructor
    · constructor <;>
        simp [tick, turns, hended, hawaken, hthreads, round, roundTurns, World.withLibrary,
          isFinished, hstill]
    · simp [tick, hended, hawaken, hthreads, round, World.withLibrary, isFinished, hstill]

/-- What a finished machine is given from outside leaves it finished, as long as it is no new
thread. -/
theorem isFinished_apply (hfinished : machine.isFinished = true) {move : Move}
    (hmove : ∀ ip, move ≠ .spawn ip) : (machine.apply move).isFinished = true := by
  cases move with
  | tick now => exact (idles_of_isFinished hfinished now).2
  | spawn ip => exact absurd rfl (hmove ip)
  | push | close => exact hfinished

theorem isFinished_after (hfinished : machine.isFinished = true) {moves : List Move}
    (hmoves : ∀ ip, Move.spawn ip ∉ moves) : (machine.after moves).isFinished = true := by
  induction moves generalizing machine with
  | nil => exact hfinished
  | cons move moves ih =>
    refine ih (isFinished_apply hfinished ?_) fun ip hspawn => hmoves ip (.tail _ hspawn)
    rintro ip rfl
    exact hmoves ip List.mem_cons_self

/-- The report of a tick tells whether the machine has finished. -/
theorem isFinished_of_report {now : Nat} {report : TickReport}
    (hreport : (machine.tick now).1 = .ok report) :
    report.finished = (machine.tick now).2.isFinished := by
  cases hended : machine.ended with
  | true =>
    simp only [tick, hended, if_true, Except.ok.injEq] at hreport ⊢
    simp [← hreport, isFinished, hended]
  | false =>
    simp only [tick, hended, Bool.false_eq_true, if_false] at hreport ⊢
    split at hreport
    · cases hreport
    · cases hreport
      rfl

/-! ## The end of a program -/

/-- A tick ends with a turn: no turn comes after it, all threads are dropped, and nothing happens to
the world any more. -/
structure EndsAt (machine : Machine) (now : Nat) (turn : Turn) : Prop where
  last : ∃ before, machine.turns now = before ++ [turn]
  report : (machine.tick now).1 = .ok ⟨true, true⟩
  threads : (machine.tick now).2.threads = []
  ended : (machine.tick now).2.ended = true
  world : (machine.tick now).2.world = (turn.step machine.program).2.2

/-- A turn in which the program is told to end is the last one of its round. -/
theorem GoesRound.of_isEnd {program : Program} {now : Nat} {threads : List Thread} {world : World}
    {turns : List Turn} {after : Round} (hround : GoesRound program now threads world turns after)
    (hfault : after.fault? = none) {turn : Turn} (hturn : turn ∈ turns)
    (hend : ∃ attempt ∈ turn.attempts program, attempt.request.isEnd = true) :
    (∃ before, turns = before ++ [turn]) ∧ after.ended = true ∧ after.progressed = true ∧
      after.world = (turn.step program).2.2 := by
  have htold : ∀ {report : Thread.Report} {next : Thread} {later : World},
      turn.step program = (report, next, later) → later.library.ended = true := by
    intro report next later hstep
    have hmakes := turn.thread.unblock.makes_attempts program turn.world
    have hany : (turn.attempts program).any (·.request.isEnd) = true := List.any_eq_true.2 hend
    rw [show turn.thread.unblock.step program turn.world = _ from hstep] at hmakes
    rw [hmakes.ended_eq, show (turn.thread.unblock.attempts program turn.world).any _ = _ from hany]
    rfl
  induction hround with
  | nil => simp at hturn
  | parked _ _ ih => exact ih hfault hturn
  | fails => cases hfault
  | ends rest _ hstep =>
    obtain rfl := List.mem_singleton.1 hturn
    exact ⟨⟨[], rfl⟩, rfl, rfl, by rw [hstep]⟩
  | turn _ hstep _ hended _ ih =>
    rcases List.mem_cons.1 hturn with rfl | hturn
    · cases hended.symm.trans (htold hstep)
    · obtain ⟨⟨before, rfl⟩, hends, -, hworld⟩ := ih hfault hturn
      exact ⟨⟨_ :: before, rfl⟩, hends, rfl, hworld⟩

/-- In a tick of a sound machine, a turn in which the program is told to end is the last one. -/
theorem Sound.endsAt (hsound : machine.Sound) {now : Nat} {turn : Turn}
    (hturn : turn ∈ machine.turns now)
    (hend : ∃ attempt ∈ turn.attempts machine.program, attempt.request.isEnd = true) :
    machine.EndsAt now turn := by
  obtain ⟨after, hfault, hround, htick⟩ :=
    hsound.exists_goesRound now (ended_of_mem_turns hturn)
  obtain ⟨hlast, hafter, hprogressed, hworld⟩ := hround.of_isEnd hfault hturn hend
  constructor
  case last => exact hlast
  case report => simp [htick, hprogressed, afterRound, isFinished, hafter]
  case threads => simp [htick, afterRound, hafter]
  case ended => simp [htick, afterRound, hafter]
  case world => simpa [htick, afterRound] using hworld

/-- What has finished stays finished, however a program that parses has been run before. After a
tick that reports so, as long as no thread is started from outside, every tick idles, at whatever
instant and whatever input has come. The program ends within the turn in which it is told to, even
if the statement of this turn goes on or waits afterwards: it is the last turn, and its tick reports
that the machine has finished. -/
theorem final_of_parse {source : String} {program : Program}
    (hparse : Program.parse source = .ok program) (library : Library) (moves : List Move) :
    let machine := (Machine.start program library).after moves
    (∀ now progressed, (machine.tick now).1 = .ok ⟨progressed, true⟩ →
        ∀ later : List Move, (∀ ip, Move.spawn ip ∉ later) →
          ∀ instant, ((machine.tick now).2.after later).Idles instant) ∧
      ∀ now, ∀ turn ∈ machine.turns now,
        (∃ attempt ∈ turn.attempts program, ∃ args, attempt.request = .call (.program .end) args) →
          machine.EndsAt now turn := by
  intro machine
  have hsound : machine.Sound :=
    (sound_start (Program.linked_of_parse hparse) library).after moves
  have hprogram : machine.program = program :=
    (program_after _ moves).trans (program_start program library)
  constructor
  · intro now progressed hreport later hlater instant
    have hfinished : (machine.tick now).2.isFinished = true := (isFinished_of_report hreport).symm
    exact (idles_of_isFinished (isFinished_after hfinished hlater) instant).1
  · intro now turn hturn hend
    obtain ⟨attempt, hattempt, args, hrequest⟩ := hend
    refine hsound.endsAt hturn ⟨attempt, hprogram ▸ hattempt, ?_⟩
    rw [hrequest]
    rfl

/-- An expression that ends the program and then waits for a line, evaluated by the first of two
threads. -/
theorem final_of_parse_waiting : ∃ program turn,
    Program.parse "x = Program.End() + TextWindow.Read()" = .ok program ∧
      let machine := (Machine.start program {}).after [.spawn 0]
      turn ∈ machine.turns 0 ∧
        (∃ attempt ∈ turn.attempts program, ∃ args,
          attempt.request = .call (.program .end) args) ∧
        (turn.step program).1 = .blocked .input ∧
        machine.EndsAt 0 turn ∧
        ∀ instant, ((machine.tick 0).2.after [.push "a", .tick 5, .close]).Idles instant := by
  obtain ⟨program, hparse, hcheck⟩ := Program.exists_of_any
    "x = Program.End() + TextWindow.Read()"
    (fun program => (((Machine.start program {}).after [.spawn 0]).turns 0).any fun turn =>
      (turn.attempts program).any (·.request == .call (.program .end) []) &&
        (turn.step program).1 == .blocked .input)
    (by decide +kernel)
  simp only [List.any_eq_true, Bool.and_eq_true, beq_iff_eq] at hcheck
  obtain ⟨turn, hturn, ⟨attempt, hattempt, hrequest⟩, hblocked⟩ := hcheck
  have hend : ∃ attempt ∈ turn.attempts program, ∃ args,
      attempt.request = .call (.program .end) args := ⟨attempt, hattempt, [], hrequest⟩
  obtain ⟨hfinal, hends⟩ := final_of_parse hparse {} [.spawn 0]
  have hendsAt := hends 0 turn hturn hend
  exact ⟨program, turn, hparse, hturn, hend, hblocked, hendsAt,
    hfinal 0 true hendsAt.report _ (by simp)⟩

end Machine

end SmallBasic
