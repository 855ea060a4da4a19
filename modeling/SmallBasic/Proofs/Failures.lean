import SmallBasic.Proofs.RoundRobin

/-!
# Failures

A tick that fails comes to its threads in their order up to the one that fails, and goes no further.
The clean-up at the end of a tick does not take place, so that finished threads stay among the
others. They do nothing in the ticks that follow, and the first tick that does not fail drops them.
All other threads go on from where they stand, wherever the tick has left them.

This holds for every program, also for one whose links are broken. There a statement can fail in the
midst of what it does. One that ends a counting loop fails before it does anything.

## Main definitions

* `Thread.GoesThrough`, `Thread.afterTurns` — turns that a thread has one after the other, and what
  they make of it.
* `Machine.FailsAt` — what a tick does that fails.
* `Machine.CarriesOn` — what becomes of the threads of a machine in later moves.

## Main statements

* `Machine.GoesRound.exists_of_fault` — a round with a fault is one without a fault up to a turn
  that fails.
* `Machine.GoesRound.threads_eq` — a round makes of each thread what its turns make of it.
* `Machine.InOrder.goesOn` — in every run each thread goes on from where it stands.
* `Machine.fails_alone_after_start` — a failure concerns one thread only.
-/

namespace SmallBasic

/-! ## The turns of a thread -/

/-- In its turn the thread does nothing at all. -/
structure Turn.Idle (turn : Turn) (program : Program) : Prop where
  attempts : turn.attempts program = []
  step : turn.step program = (.finished, turn.thread, turn.world)

theorem Turn.id_step (turn : Turn) (program : Program) :
    (turn.step program).2.1.id = turn.thread.id :=
  (turn.thread.unblock.id_step program turn.world).trans turn.thread.id_unblock

/-- A turn that fails finishes its thread at the statement that it is at. -/
theorem Turn.Advances.of_failed {turn : Turn} {program : Program} {fault : Fault}
    {next : Thread} {later : World} (hadvances : turn.Advances program)
    (hfailed : turn.step program = (.failed fault, next, later)) :
    next = turn.thread.finish ∧ ∃ statement, program.get? turn.thread.ip = some statement := by
  cases hadvances with
  | idles _ hstep | waits _ _ hstep => cases hstep.symm.trans hfailed
  | completes _ _ hstep =>
    have hreport := congrArg Prod.fst (hstep.symm.trans hfailed)
    exact absurd hreport ((Thread.stepsWell_follow turn.thread program _).1 fault)
  | fails hstatement _ hstep =>
    have hnext := congrArg (·.2.1) (hfailed.symm.trans hstep)
    exact ⟨hnext, _, hstatement⟩

namespace Thread

variable {program : Program} {thread : Thread} {turns more : List Turn}

/-- The turns follow one another: the first one finds the thread as it is, and each of the others
finds what the one before has made of it. -/
def GoesThrough (program : Program) : Thread → List Turn → Prop
  | _, [] => True
  | thread, turn :: turns =>
    turn.thread = thread ∧ (turn.step program).2.1.GoesThrough program turns

/-- What some turns make of a thread. -/
def afterTurns (program : Program) (thread : Thread) (turns : List Turn) : Thread :=
  turns.foldl (fun _ turn => (turn.step program).2.1) thread

theorem afterTurns_append (program : Program) (thread : Thread) (turns more : List Turn) :
    thread.afterTurns program (turns ++ more) =
      (thread.afterTurns program turns).afterTurns program more := List.foldl_append

theorem GoesThrough.append (hturns : thread.GoesThrough program turns)
    (hmore : (thread.afterTurns program turns).GoesThrough program more) :
    thread.GoesThrough program (turns ++ more) := by
  induction turns generalizing thread with
  | nil => exact hmore
  | cons turn turns ih => exact ⟨hturns.1, ih hturns.2 hmore⟩

theorem GoesThrough.id_afterTurns (hturns : thread.GoesThrough program turns) :
    (thread.afterTurns program turns).id = thread.id := by
  induction turns generalizing thread with
  | nil => rfl
  | cons turn turns ih =>
    obtain ⟨rfl, hrest⟩ := hturns
    exact (ih hrest).trans (turn.id_step program)

theorem idle_of_isFinished (hfinished : thread.isFinished = true) (program : Program)
    (world : World) : Turn.Idle ⟨thread, world⟩ program := by
  obtain ⟨id, ip, returns, phase⟩ := thread
  cases phase with
  | finished => exact ⟨rfl, rfl⟩
  | ready | waiting | woken => cases hfinished

/-- A thread that has finished does nothing in its turns, and stays as it is. -/
theorem GoesThrough.idle (hturns : thread.GoesThrough program turns)
    (hfinished : thread.isFinished = true) :
    thread.afterTurns program turns = thread ∧
      ∀ turn ∈ turns, turn.thread = thread ∧ turn.Idle program := by
  induction turns generalizing thread with
  | nil => exact ⟨rfl, by simp⟩
  | cons turn turns ih =>
    obtain ⟨rfl, hrest⟩ := hturns
    have hidle := idle_of_isFinished hfinished program turn.world
    have hstays : (turn.step program).2.1 = turn.thread := congrArg (·.2.1) hidle.step
    rw [hstays] at hrest
    obtain ⟨hafter, hall⟩ := ih hrest hfinished
    refine ⟨?_, List.forall_mem_cons.2 ⟨⟨rfl, hidle⟩, hall⟩⟩
    exact (congrArg (afterTurns program · turns) hstays).trans hafter

end Thread

namespace Machine

/-! ## Rounds -/

section Rounds

variable {program : Program} {now : Nat} {threads : List Thread} {world : World}
  {turns : List Turn} {after : Round} {thread : Thread}

/-- A round leaves the world that its turns leave. -/
theorem GoesRound.world_eq (hround : GoesRound program now threads world turns after) :
    after.world = worldAfter program world turns := by
  induction hround with
  | nil => rfl
  | parked _ _ ih => exact ih
  | fails _ _ hstep | ends _ _ hstep => exact (congrArg (·.2.2) hstep).symm
  | @turn first _ _ world _ _ turns _ _ hstep _ _ _ ih =>
    have hlater := congrArg (fun result => worldAfter program result.2.2 turns) hstep
    exact ih.trans hlater.symm

/-- In a round without a fault that does not end the program, no turn fails or ends it. -/
theorem GoesRound.goesOn (hround : GoesRound program now threads world turns after)
    (hfault : after.fault? = none) (hended : after.ended = false) :
    ∀ turn ∈ turns, (∀ fault, (turn.step program).1 ≠ .failed fault) ∧
      turn.ends program = false := by
  induction hround with
  | nil => simp
  | parked _ _ ih => exact ih hfault hended
  | fails => cases hfault
  | ends => cases hended
  | turn _ hstep hreport hgoing _ ih =>
    refine List.forall_mem_cons.2 ⟨⟨?_, ?_⟩, ih hfault hended⟩
    · rw [hstep]
      exact hreport
    · rw [Turn.ends, hstep]
      exact hgoing

/-- A round with a fault is a round without one, followed by the turn of a thread that fails. -/
theorem GoesRound.exists_of_fault (hround : GoesRound program now threads world turns after)
    {fault : Fault} (hfault : after.fault? = some fault) :
    ∃ before failing later earlier middle next, threads = before ++ failing :: later ∧
      GoesRound program now before world earlier middle ∧
      middle.fault? = none ∧ middle.ended = false ∧
      isParked middle.world now failing = false ∧ turns = earlier ++ [⟨failing, middle.world⟩] ∧
      Turn.step ⟨failing, middle.world⟩ program = (.failed fault, next, after.world) ∧
      after.threads = middle.threads ++ next :: later := by
  induction hround with
  | nil | ends => cases hfault
  | @parked first _ _ _ _ hparked _ ih =>
    obtain ⟨before, failing, later, earlier, middle, next, rfl, hbefore, hgood, hgoing, hfree,
      hturns, hstep, hthreads⟩ := ih hfault
    exact ⟨first :: before, failing, later, earlier, _, next, rfl, .parked hparked hbefore, hgood,
      hgoing, hfree, hturns, hstep, congrArg (first :: ·) hthreads⟩
  | @fails first next world _ _ rest hparked hstep =>
    cases hfault
    exact ⟨[], first, rest, [], _, next, rfl, .nil world, rfl, rfl, hparked, rfl, hstep, rfl⟩
  | @turn first moved _ world _ _ _ _ hparked hfirst hreport hended _ ih =>
    obtain ⟨before, failing, later, earlier, middle, next, rfl, hbefore, hgood, hgoing, hfree,
      hturns, hstep, hthreads⟩ := ih hfault
    exact ⟨first :: before, failing, later, ⟨first, world⟩ :: earlier, _, next, rfl,
      .turn hparked hfirst hreport hended hbefore, hgood, hgoing, hfree,
      congrArg (⟨first, world⟩ :: ·) hturns, hstep, congrArg (moved :: ·) hthreads⟩

theorem turnsOf_cons_of_ne {turn : Turn} {id : Nat} (hne : turn.thread.id ≠ id)
    (turns : List Turn) : turnsOf id (turn :: turns) = turnsOf id turns := by
  simp [turnsOf, hne]

/-- The other threads have no part in a turn. -/
theorem map_afterTurns_cons {first : Thread} {rest : List Thread}
    (hnew : first.id ∉ rest.map (·.id)) (world : World) (turns : List Turn) :
    rest.map (fun thread =>
        thread.afterTurns program (turnsOf thread.id (⟨first, world⟩ :: turns))) =
      rest.map fun thread => thread.afterTurns program (turnsOf thread.id turns) := by
  refine List.map_congr_left fun thread hthread => ?_
  rw [turnsOf_cons_of_ne (ne_of_not_mem_ids hnew hthread)]

/-- A round makes of each thread what its turns make of it. -/
theorem GoesRound.threads_eq (hround : GoesRound program now threads world turns after)
    (hnodup : (threads.map (·.id)).Nodup) :
    after.threads = threads.map fun thread =>
      thread.afterTurns program (turnsOf thread.id turns) := by
  induction hround with
  | nil => rfl
  | @parked first rest _ turns _ _ hrest ih =>
    obtain ⟨hnew, hnodup⟩ := nodup_ids_cons.1 hnodup
    rw [List.map_cons, hrest.turnsOf_eq_nil hnew, ← ih hnodup]
    rfl
  | @fails first next world _ _ rest _ hstep | @ends first next world _ _ rest _ hstep =>
    obtain ⟨hnew, -⟩ := nodup_ids_cons.1 hnodup
    have hrest : rest.map (fun thread => thread.afterTurns program (turnsOf thread.id [])) = rest :=
      List.map_id' rest
    have hfirst : turnsOf first.id [⟨first, world⟩] = [⟨first, world⟩] := by simp [turnsOf]
    rw [List.map_cons, map_afterTurns_cons hnew, hrest, hfirst]
    exact congrArg (· :: rest) (congrArg (·.2.1) hstep).symm
  | @turn first next rest world _ _ turns after _ hstep _ _ hrest ih =>
    obtain ⟨hnew, hnodup⟩ := nodup_ids_cons.1 hnodup
    have hnone := hrest.turnsOf_eq_nil hnew
    have hfirst : turnsOf first.id (⟨first, world⟩ :: turns) = [⟨first, world⟩] := by
      simpa [turnsOf] using hnone
    rw [List.map_cons, map_afterTurns_cons hnew, hfirst, ← ih hnodup]
    exact congrArg (· :: after.threads) (congrArg (·.2.1) hstep).symm

/-- A round gives a thread at most one turn, which finds it as it is. -/
theorem GoesRound.goesThrough (hround : GoesRound program now threads world turns after)
    (hnodup : (threads.map (·.id)).Nodup) (hthread : thread ∈ threads) :
    thread.GoesThrough program (turnsOf thread.id turns) := by
  rw [hround.turnsOf_eq hnodup hthread]
  split
  · split
    · trivial
    · exact ⟨rfl, trivial⟩
  · trivial

end Rounds

/-! ## Ticks that fail -/

variable {machine : Machine} {now : Nat} {thread : Thread}

/-- What a tick does that fails. Its threads are some that it comes to before the one that fails,
this one, and some that it does not come to. -/
structure FailsAt (machine : Machine) (now : Nat) (fault : Fault) (before : List Thread)
    (failing : Thread) (later : List Thread) (earlier : List Turn) : Prop where
  /-- Threads are in their order, with the one that the tick has started at the end. -/
  order : machine.threads ++ machine.startedBy now = before ++ failing :: later
  /-- The last turn is that of the thread that fails. -/
  turns : machine.turns now =
    earlier ++ [⟨failing, worldAfter machine.program (machine.awaken now).2.world earlier⟩]
  /-- No turn before it fails. -/
  succeeds : ∀ turn ∈ earlier, turn.Advances machine.program ∧
    ∀ fault, (turn.step machine.program).1 ≠ .failed fault
  /-- Each of the threads before has its turn, unless it is parked. -/
  resumes : ∀ thread ∈ before,
    let found := worldAfter machine.program (machine.awaken now).2.world
      (earlier.filter (·.thread.id < thread.id))
    turnsOf thread.id earlier = if isParked found now thread then [] else [⟨thread, found⟩]
  /-- The thread fails at its statement, and is finished there. -/
  fails : (∃ statement, machine.program.get? failing.ip = some statement) ∧
    Turn.step ⟨failing, worldAfter machine.program (machine.awaken now).2.world earlier⟩
      machine.program = (.failed fault, failing.finish, (machine.tick now).2.world)
  /-- The threads before are what their turns have made of them, and those after are as they
  were. -/
  threads : (machine.tick now).2.threads =
    (before.map fun thread =>
        thread.afterTurns machine.program (turnsOf thread.id earlier)) ++
      failing.finish :: later

/-- The round of a tick that fails. -/
theorem exists_goesRound_of_error {fault : Fault} (hfailed : (machine.tick now).1 = .error fault) :
    machine.ended = false ∧ ∃ after, after.fault? = some fault ∧
      GoesRound machine.program now (machine.awaken now).2.threads
        (machine.awaken now).2.world (machine.turns now) after ∧
      (machine.tick now).2 =
        { (machine.awaken now).2 with threads := after.threads, world := after.world } := by
  cases hended : machine.ended with
  | true => simp [tick, hended] at hfailed
  | false =>
    cases hfault : (round machine.program now (machine.awaken now).2.threads
        (machine.awaken now).2.world).fault? with
    | none => simp [tick_of_round hended rfl hfault] at hfailed
    | some found =>
      refine ⟨rfl, _, ?_, goesRound_turns hended now, ?_⟩
      all_goals simp only [tick, hended, Bool.false_eq_true, if_false, machine.program_awaken now,
        hfault] at hfailed ⊢
      cases hfailed
      rfl

theorem InOrder.exists_failsAt (horder : machine.InOrder)
    (hamid : ∀ thread ∈ machine.threads, thread.Amid machine.program) {fault : Fault}
    (hfailed : (machine.tick now).1 = .error fault) :
    ∃ before failing later earlier, machine.FailsAt now fault before failing later earlier := by
  obtain ⟨hended, after, hfault, hround, htick⟩ := exists_goesRound_of_error hfailed
  obtain ⟨before, failing, later, earlier, middle, next, hthreads, hbefore, hgood, hgoing, -,
    hturns, hstep, hafter⟩ := hround.exists_of_fault hfault
  have hadvances : ∀ turn ∈ machine.turns now, turn.Advances machine.program := by
    intro turn hturn
    have hall := forall_mem_awaken (fun _ _ => trivial) hamid now
    exact Turn.advances (hall _ (hround.thread_mem hturn))
  have hgoesOn := hbefore.goesOn hgood hgoing
  have hincreasing : (before.map (·.id)).Pairwise (· < ·) := by
    have hall := (horder.awaken now).increasing
    rw [hthreads, List.map_append, List.pairwise_append] at hall
    exact hall.1
  obtain ⟨rfl, hstatement⟩ := (hadvances _ (by simp [hturns])).of_failed hstep
  refine ⟨before, failing, later, earlier, ?_⟩
  constructor
  case order => rw [← (threads_awaken hended now).1, hthreads]
  case turns => rw [hturns, hbefore.world_eq]
  case succeeds =>
    intro turn hturn
    exact ⟨hadvances turn (by simp [hturns, hturn]), (hgoesOn turn hturn).1⟩
  case resumes =>
    intro thread hthread
    have hnever : (earlier.filter (·.thread.id < thread.id)).any (·.ends machine.program) =
        false := by
      rw [List.any_eq_false]
      intro turn hturn
      simp [(hgoesOn turn (List.mem_filter.1 hturn).1).2]
    simpa [hnever] using hbefore.turnsOf_eq_ite hincreasing hgood hthread
  case fails =>
    rw [htick, ← hbefore.world_eq]
    exact ⟨hstatement, hstep⟩
  case threads =>
    rw [htick, ← hbefore.threads_eq (hincreasing.imp Nat.ne_of_lt)]
    exact hafter

/-! ## Later moves -/

/-- A tick leaves some of the threads of its round, in their order. -/
theorem threads_tick_sublist (hended : machine.ended = false) (now : Nat) :
    (machine.tick now).2.threads.Sublist (round machine.program now
      (machine.awaken now).2.threads (machine.awaken now).2.world).threads := by
  simp only [tick, hended, Bool.false_eq_true, if_false, machine.program_awaken now]
  split
  · exact List.Sublist.refl _
  · dsimp only
    split
    · exact List.nil_sublist _
    · exact List.filter_sublist

/-- What becomes of a thread: it has these turns one after the other, starting from where it
stands, and is then what they have made of it, if it is still there. Only threads that have finished
are dropped before the program ends. -/
structure GoesOn (program : Program) (thread : Thread) (turns : List Turn) (after : Machine) :
    Prop where
  goesThrough : thread.GoesThrough program (turnsOf thread.id turns)
  eq : ∀ next ∈ after.threads, next.id = thread.id →
    next = thread.afterTurns program (turnsOf thread.id turns)
  stays : (thread.afterTurns program (turnsOf thread.id turns)).isFinished = false →
    after.ended = false →
    thread.afterTurns program (turnsOf thread.id turns) ∈ after.threads

theorem InOrder.eq_of_id_eq (horder : machine.InOrder) {other : Thread}
    (hother : other ∈ machine.threads) (hthread : thread ∈ machine.threads)
    (hid : other.id = thread.id) : other = thread :=
  List.inj_on_of_nodup_map horder.nodup hother hthread hid

/-- A thread that has no turn, and stays, goes on as it is. -/
theorem InOrder.goesOn_of_mem (horder : machine.InOrder) (hthread : thread ∈ machine.threads)
    (program : Program) : GoesOn program thread [] machine :=
  ⟨trivial, fun _ hnext hid => horder.eq_of_id_eq hnext hthread hid, fun _ _ => hthread⟩

/-- What a move makes of a thread. -/
theorem InOrder.goesOn_apply (horder : machine.InOrder) (hthread : thread ∈ machine.threads)
    (move : Move) :
    GoesOn machine.program thread (machine.turnHistory [move]) (machine.apply move) := by
  have hstays := fun hmem : thread ∈ (machine.apply move).threads =>
    (horder.apply move).goesOn_of_mem hmem machine.program
  cases move with
  | spawn ip => exact hstays (List.mem_append_left _ hthread)
  | push | close => exact hstays hthread
  | tick now =>
    simp only [turnHistory, List.append_nil]
    cases hended : machine.ended with
    | true =>
      have hturns : machine.turns now = [] := by simp [turns, hended]
      rw [hturns]
      exact hstays (by simpa [Machine.apply, Machine.tick, hended] using hthread)
    | false =>
      obtain ⟨after, hround, -, hkept⟩ := machine.exists_goesRound now hended
      have hnodup := (horder.awaken now).nodup
      have hawake := mem_awaken hthread now
      have hafter := hround.threads_eq hnodup
      have hsublist := threads_tick_sublist hended now
      rw [← hround.eq_round] at hsublist
      refine ⟨hround.goesThrough hnodup hawake, fun next hnext hid => ?_, ?_⟩
      · -- No other thread of the round has this number.
        obtain ⟨old, hold, rfl⟩ := List.mem_map.1 (hafter ▸ hsublist.subset hnext)
        rw [(hround.goesThrough hnodup hold).id_afterTurns] at hid
        rw [(horder.awaken now).eq_of_id_eq hold hawake hid]
      · exact hkept _ (hafter ▸ List.mem_map_of_mem hawake)

/-- Turns are had by threads that were there, or that were started in between. -/
theorem id_mem_of_mem_turnHistory (machine : Machine) (moves : List Move) :
    ∀ turn ∈ machine.turnHistory moves,
      turn.thread.id ∈ (machine.threads ++ machine.startHistory moves).map (·.id) := by
  induction moves generalizing machine with
  | nil => simp [turnHistory]
  | cons move moves ih =>
    intro turn hturn
    rw [startHistory_cons, ← List.append_assoc, List.map_append, List.mem_append]
    rw [turnHistory_cons, List.mem_append] at hturn
    rcases hturn with hturn | hturn
    · left
      cases move with
      | spawn | push | close => cases hturn
      | tick now =>
        simp only [turnHistory, List.append_nil] at hturn
        have hended := ended_of_mem_turns hturn
        have hmem := (goesRound_turns hended now).thread_mem hturn
        rw [(threads_awaken hended now).1] at hmem
        simpa [startHistory] using List.mem_map_of_mem hmem
    · have hmem := ih (machine.apply move) turn hturn
      rw [List.map_append, List.mem_append] at hmem
      rcases hmem with hmem | hmem
      · obtain ⟨thread, hthread, hid⟩ := List.mem_map.1 hmem
        exact .inl (hid ▸ machine.id_mem_of_mem_after [move] thread hthread)
      · exact .inr hmem

theorem nextId_le_apply (machine : Machine) (move : Move) :
    machine.nextId ≤ (machine.apply move).nextId := by
  cases move with
  | tick now =>
    rw [Machine.apply, nextId_tick]
    exact Nat.le_add_right ..
  | spawn ip => exact Nat.le_succ _
  | push | close => exact Nat.le_refl _

/-- The number of a thread that is gone is not used in later moves. -/
theorem unused_of_gone {id : Nat} (hlt : id < machine.nextId)
    (hgone : id ∉ machine.threads.map (·.id)) (moves : List Move) :
    turnsOf id (machine.turnHistory moves) = [] ∧
      ∀ thread ∈ (machine.after moves).threads, thread.id ≠ id := by
  have hunused : id ∉ (machine.threads ++ machine.startHistory moves).map (·.id) := by
    rw [List.map_append, List.mem_append, map_id_startHistory, List.mem_range'_1]
    exact fun hused => hused.elim hgone fun hnew => absurd hlt (Nat.not_lt.2 hnew.1)
  refine ⟨turnsOf_eq_nil_iff.2 fun turn hturn hid => ?_, fun thread hthread hid => ?_⟩
  · exact hunused (hid ▸ machine.id_mem_of_mem_turnHistory moves turn hturn)
  · exact hunused (hid ▸ machine.id_mem_of_mem_after moves thread hthread)

/-- A thread that is gone has had its last turn. -/
theorem GoesOn.of_gone {program : Program} (hlt : thread.id < machine.nextId)
    (hgone : thread.id ∉ machine.threads.map (·.id)) {moves : List Move}
    (hfinished : thread.isFinished = false → machine.ended = true) :
    GoesOn program thread (machine.turnHistory moves) (machine.after moves) := by
  obtain ⟨hturns, hnever⟩ := unused_of_gone hlt hgone moves
  constructor
  case goesThrough =>
    rw [hturns]
    trivial
  case eq => exact fun next hnext hid => absurd hid (hnever next hnext)
  case stays =>
    intro hgoing hended
    rw [hturns] at hgoing
    have hafter := (turnHistory_of_ended (hfinished hgoing) moves).2
    cases hended.symm.trans hafter

theorem GoesOn.append {program : Program} {turns more : List Turn} {last : Machine}
    (hturns : GoesOn program thread turns machine)
    (hmore : GoesOn program (thread.afterTurns program (turnsOf thread.id turns)) more last) :
    GoesOn program thread (turns ++ more) last := by
  have hid := hturns.goesThrough.id_afterTurns
  obtain ⟨hthrough, heq, hstays⟩ := hmore
  rw [hid, ← Thread.afterTurns_append, ← turnsOf_append] at heq hstays
  rw [hid] at hthrough
  refine ⟨?_, heq, hstays⟩
  rw [turnsOf_append]
  exact hturns.goesThrough.append hthrough

/-- In every run each thread goes on from where it stands. -/
theorem InOrder.goesOn (horder : machine.InOrder) (hthread : thread ∈ machine.threads)
    (moves : List Move) :
    GoesOn machine.program thread (machine.turnHistory moves) (machine.after moves) := by
  induction moves generalizing machine thread with
  | nil => exact horder.goesOn_of_mem hthread machine.program
  | cons move moves ih =>
    have hfirst := horder.goesOn_apply hthread move
    have hprogram : (machine.apply move).program = machine.program := machine.program_after [move]
    rw [turnHistory_cons]
    refine hfirst.append ?_
    by_cases hthere : thread.id ∈ (machine.apply move).threads.map (·.id)
    · obtain ⟨next, hnext, hid⟩ := List.mem_map.1 hthere
      rw [← hfirst.eq next hnext hid, ← hprogram]
      exact ih (horder.apply move) hnext
    · have hid := hfirst.goesThrough.id_afterTurns
      refine .of_gone ?_ (by rwa [hid]) fun hgoing => ?_
      · rw [hid]
        exact Nat.lt_of_lt_of_le (horder.lt thread hthread) (machine.nextId_le_apply move)
      · -- Only the end of the program drops a thread that has not finished.
        rw [← Bool.not_eq_false]
        intro hended
        exact hthere (hid ▸ List.mem_map_of_mem (hfirst.stays hgoing hended))

theorem nextId_le_after (machine : Machine) (moves : List Move) :
    machine.nextId ≤ (machine.after moves).nextId := by
  induction moves generalizing machine with
  | nil => exact Nat.le_refl _
  | cons move moves ih => exact Nat.le_trans (machine.nextId_le_apply move) (ih _)

/-- What becomes of the threads of a machine in later moves. -/
structure CarriesOn (machine : Machine) (moves : List Move) : Prop where
  /-- Each of them goes on from exactly where it stands. -/
  goesOn : ∀ thread ∈ machine.threads,
    GoesOn machine.program thread (machine.turnHistory moves) (machine.after moves)
  /-- One that has finished executes nothing. -/
  idles : ∀ thread ∈ machine.threads, thread.isFinished = true →
    ∀ turn ∈ turnsOf thread.id (machine.turnHistory moves),
      turn.thread = thread ∧ turn.Idle machine.program
  /-- It is gone after the first tick that does not fail, and does not come back. -/
  drops : ∀ thread ∈ machine.threads, thread.isFinished = true → ∀ now report,
    ((machine.after moves).tick now).1 = .ok report →
      ∀ more, ∀ other ∈ (((machine.after moves).tick now).2.after more).threads,
        other.id ≠ thread.id
  /-- In a tick that does not fail, all threads take turns. -/
  roundRobin : ∀ now report, ((machine.after moves).tick now).1 = .ok report →
    (machine.after moves).RoundRobin now

theorem InOrder.carriesOn (horder : machine.InOrder)
    (hamid : ∀ moves, ∀ thread ∈ (machine.after moves).threads, thread.Amid machine.program)
    (moves : List Move) : machine.CarriesOn moves := by
  have hroundRobin : ∀ now report, ((machine.after moves).tick now).1 = .ok report →
      (machine.after moves).RoundRobin now := by
    intro now report hreport
    refine (horder.after moves).roundRobin ?_ hreport
    rw [machine.program_after moves]
    exact hamid moves
  constructor
  case goesOn => exact fun thread hthread => horder.goesOn hthread moves
  case idles =>
    intro thread hthread hfinished
    exact ((horder.goesOn hthread moves).goesThrough.idle hfinished).2
  case drops =>
    intro thread hthread hfinished now report hreport more
    have hafter : machine.after (moves ++ [.tick now]) = ((machine.after moves).tick now).2 := by
      simp [Machine.after, Machine.apply]
    have hgoesOn := horder.goesOn hthread (moves ++ [.tick now])
    rw [← hafter]
    refine (unused_of_gone ?_ ?_ more).2
    · exact Nat.lt_of_lt_of_le (horder.lt thread hthread) (machine.nextId_le_after _)
    · -- It would still be finished, and the tick has dropped all threads that were.
      intro hthere
      obtain ⟨other, hother, hid⟩ := List.mem_map.1 hthere
      have hsame := (hgoesOn.eq other hother hid).trans (hgoesOn.goesThrough.idle hfinished).1
      have hunfinished := (hroundRobin now report hreport).unfinished other (hafter ▸ hother)
      rw [hsame, hfinished] at hunfinished
      cases hunfinished
  case roundRobin => exact hroundRobin

end Machine

/-! ## Broken links -/

/-- The thread is to end a pass through a counting loop, but its statement does not lead to the
beginning of one. -/
def Thread.AtBrokenEndFor (thread : Thread) (program : Program) : Prop :=
  thread.phase = .ready ∧ ∃ statement, program.get? thread.ip = some statement ∧
    statement.clause = .endFor ∧
      ∀ header, program.get? (program.target statement) = some header →
        header.clause.opener? ≠ some .for

/-- Such a thread fails before anything is read or changed. -/
theorem Thread.AtBrokenEndFor.fails {turn : Turn} {program : Program}
    (hbroken : turn.thread.AtBrokenEndFor program) :
    turn.attempts program = [] ∧
      turn.step program = (.failed (.brokenLink turn.thread.ip .endFor), turn.thread.finish,
        turn.world) := by
  obtain ⟨hready, statement, hstatement, hclause, hnone⟩ := hbroken
  have hexecute : program.execute turn.thread.ip statement =
      .fail (.brokenLink turn.thread.ip .endFor) := by
    simp only [Program.execute, hclause]
    unfold Program.repeatFor
    split
    · rename_i hfound
      obtain ⟨header, hheader, hfor⟩ := Option.map_eq_some_iff.1 hfound
      exact absurd (congrArg Clause.opener? hfor) (hnone header hheader)
    · rfl
  constructor
  · rw [Turn.attempts, unblock_of_ready hready, attempts_of_ready hready hstatement, hexecute,
      Action.attempts]
  · rw [Turn.step, unblock_of_ready hready, step_of_ready hready hstatement, hexecute]
    rfl

namespace Machine

/-- A failure concerns one thread only, in every run of every program, also of one whose links are
broken. A tick that fails gives the threads before the one that fails their turns, finishes this one
at its statement, and leaves those after it as they were. Afterwards each thread goes on from where
it stands: one that has finished executes nothing any more and is dropped by the next tick that does
not fail, and the others take turns. A broken end of a counting loop fails before its counter is
changed. -/
theorem fails_alone_after_start (program : Program) (library : Library) (moves : List Move) :
    let machine := (Machine.start program library).after moves
    (∀ now fault, (machine.tick now).1 = .error fault →
        (∃ before failing later earlier,
          machine.FailsAt now fault before failing later earlier) ∧
        ∀ more, (machine.tick now).2.CarriesOn more) ∧
      ∀ turn : Turn, turn.thread.AtBrokenEndFor program →
        turn.attempts program = [] ∧
          turn.step program = (.failed (.brokenLink turn.thread.ip .endFor), turn.thread.finish,
            turn.world) := by
  intro machine
  have horder : machine.InOrder := (inOrder_start program library).after moves
  have hprogram : machine.program = program :=
    (program_after _ moves).trans (program_start program library)
  have hamid : ∀ more, ∀ thread ∈ (machine.after more).threads, thread.Amid machine.program := by
    intro more
    have hall := amid_after_start program library (moves ++ more)
    rw [Machine.after, List.foldl_append] at hall
    exact hprogram ▸ hall
  refine ⟨fun now fault hfailed => ⟨horder.exists_failsAt (hamid []) hfailed, ?_⟩,
    fun turn => Thread.AtBrokenEndFor.fails⟩
  refine (horder.tick now).carriesOn fun more => ?_
  rw [machine.program_tick now]
  exact hamid (.tick now :: more)

/-- A program with three threads, in which the end of a loop leads to a statement that was written
over: the second thread fails there, the first has had its turn, the third has not. -/
theorem fails_alone_after_start_overwritten : ∃ program replaced,
    Program.parse "For i = 1 To 3\nEndFor\ny = 1" = .ok program ∧
    replaced = program.replace 0 2 ∧
    let machine := (Machine.start replaced {}).after [.spawn 1, .spawn 2]
    let failing := Thread.start replaced 1 1
    (machine.tick 0).1 = .error (.brokenLink 1 .endFor) ∧
      (machine.tick 0).2.threads.map (fun thread => (thread.ip, thread.isFinished)) =
        [(1, false), (1, true), (2, false)] ∧
      (∃ before failing later earlier,
        machine.FailsAt 0 (.brokenLink 1 .endFor) before failing later earlier) ∧
      (machine.tick 0).2.CarriesOn [.tick 1, .tick 2] ∧
      failing.AtBrokenEndFor replaced ∧
      Turn.step ⟨failing, {}⟩ replaced = (.failed (.brokenLink 1 .endFor), failing.finish, {}) := by
  obtain ⟨program, hparse, hcheck⟩ := Program.exists_of_any "For i = 1 To 3\nEndFor\ny = 1"
    (fun program =>
      let replaced := program.replace 0 2
      let machine := (Machine.start replaced {}).after [.spawn 1, .spawn 2]
      (machine.tick 0).1 == .error (.brokenLink 1 .endFor) &&
        (machine.tick 0).2.threads.map (fun thread => (thread.ip, thread.isFinished)) ==
          [(1, false), (1, true), (2, false)] &&
        (replaced.get? 1).any fun statement => statement.clause matches .endFor &&
          (replaced.get? (replaced.target statement)).all (·.clause.opener? != some .for))
    (by decide +kernel)
  simp only [Bool.and_eq_true, beq_iff_eq, Option.any_eq_true, Option.all_eq_true,
    bne_iff_ne] at hcheck
  obtain ⟨⟨hfailed, hthreads⟩, statement, hstatement, hclause, hnone⟩ := hcheck
  obtain ⟨hfails, hcarriesOn⟩ := (fails_alone_after_start (program.replace 0 2) {}
    [.spawn 1, .spawn 2]).1 0 _ hfailed
  have hbroken : (Thread.start (program.replace 0 2) 1 1).AtBrokenEndFor (program.replace 0 2) := by
    refine ⟨rfl, statement, hstatement, ?_, hnone⟩
    cases hfound : statement.clause <;> simp [hfound] at hclause ⊢
  have hstep := ((fails_alone_after_start (program.replace 0 2) {} []).2
    ⟨Thread.start (program.replace 0 2) 1 1, {}⟩ hbroken).2
  exact ⟨program, _, hparse, rfl, hfailed, hthreads, hfails, hcarriesOn _, hbroken, hstep⟩

end Machine

end SmallBasic
