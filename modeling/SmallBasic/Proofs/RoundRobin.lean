import SmallBasic.Proofs.Parking

/-!
# Round robin

Threads are numbered in the order in which they are started, and a tick goes through them in this
order. Each of them has at most one turn, and a turn belongs to one statement: it brings it to its
end, or comes to a wait or to a fault inside it. Which threads have a turn depends on what the turns
before theirs have left.

All this holds for every program, also for one whose links are broken, and in every state that its
machine can come to, also after ticks that fail.

## Main definitions

* `Turn.Advances` — what a turn does with the statement that its thread is at.
* `Machine.startedBy`, `Machine.startHistory` — the threads that a tick, and a run, starts.
* `Machine.InOrder` — threads are listed in the order of their numbers.
* `Machine.RoundRobin` — what a tick without a fault does.

## Main statements

* `Machine.forall_mem_after` — what a thread keeps in its turns, all threads have in every run.
* `Machine.GoesRound.turnsOf_eq_ite` — which threads have a turn in a round.
* `Machine.map_id_startHistory` — every thread is started under a number of its own.
* `Machine.roundRobin_after_start` — every tick without a fault goes round.
-/

namespace SmallBasic

/-! ## One statement per turn -/

section Reaches

variable {α : Type}

/-- An action that is run comes to what is left of it, unless it fails on the way. -/
theorem Action.exists_reaches_run (action : Action α) (world : World) :
    ∃ rest, action.Reaches (exchanges (action.attempts world)) rest ∧
      ((∀ fault, (action.run world).1 ≠ .failed fault) →
        rest = (action.run world).1.residual) := by
  induction action generalizing world with
  | done value => exact ⟨_, .refl _, fun _ => rfl⟩
  | fail fault => exact ⟨_, .refl _, fun _ => rfl⟩
  | ask request next ih =>
    unfold Action.attempts Action.run
    cases hperform : world.perform false request with
    | error error => exact ⟨_, .refl _, fun hfails => absurd rfl (hfails _)⟩
    | ok result =>
      obtain ⟨outcome, later⟩ := result
      cases outcome with
      | ready answer =>
        obtain ⟨rest, hreaches, hrest⟩ := ih answer later
        exact ⟨rest, .ask hreaches, hrest⟩
      | blocked block => exact ⟨_, .refl _, fun _ => rfl⟩

theorem Suspension.exists_reaches_resume (left : Suspension α) (world : World) :
    ∃ rest, (Action.ask left.request left.next).Reaches (exchanges (left.attempts world)) rest ∧
      ((∀ fault, (left.resume world).1 ≠ .failed fault) →
        rest = (left.resume world).1.residual) := by
  unfold Suspension.attempts Suspension.resume
  cases hperform : world.perform true left.request with
  | error error => exact ⟨_, .refl _, fun hfails => absurd rfl (hfails _)⟩
  | ok result =>
    obtain ⟨outcome, later⟩ := result
    cases outcome with
    | ready answer =>
      obtain ⟨rest, hreaches, hrest⟩ := (left.next answer).exists_reaches_run later
      exact ⟨rest, .ask hreaches, hrest⟩
    | blocked block => exact ⟨_, .refl _, fun _ => rfl⟩

end Reaches

/-- What a turn does with the statement that its thread is at. It belongs to no other statement: all
its requests are requests of this one, after those that the thread has made in it before. -/
inductive Turn.Advances (turn : Turn) (program : Program) : Prop
  /-- The thread has no statement left, and does nothing. -/
  | idles (hattempts : turn.attempts program = [])
      (hstep : turn.step program = (.finished, turn.thread.finish, turn.world))
  /-- The statement comes to its end, and the thread goes where it leads. -/
  | completes {statement : Statement} {before : List Exchange} {flow : Flow} {later : World}
      (hstatement : program.get? turn.thread.ip = some statement)
      (hreaches : (program.execute turn.thread.ip statement).Reaches
        (before ++ exchanges (turn.attempts program)) (.done flow))
      (hstep : turn.step program =
        ((turn.thread.follow program flow).1, (turn.thread.follow program flow).2, later))
  /-- The statement comes to a wait, and the thread stays at it. -/
  | waits {statement : Statement} {before : List Exchange} {block : Block}
      {left : Suspension Flow} {later : World}
      (hstatement : program.get? turn.thread.ip = some statement)
      (hreaches : (program.execute turn.thread.ip statement).Reaches
        (before ++ exchanges (turn.attempts program)) (.ask left.request left.next))
      (hstep : turn.step program =
        (.blocked block, { turn.thread with phase := .waiting block left }, later))
  /-- The statement fails, and the thread is finished at it. -/
  | fails {statement : Statement} {before : List Exchange} {rest : Action Flow} {fault : Fault}
      {later : World} (hstatement : program.get? turn.thread.ip = some statement)
      (hreaches : (program.execute turn.thread.ip statement).Reaches
        (before ++ exchanges (turn.attempts program)) rest)
      (hstep : turn.step program = (.failed fault, turn.thread.finish, later))

namespace Thread

variable {thread : Thread} {program : Program}

/-- What a thread has left to do inside a statement is left of the statement at its index. -/
def Amid (thread : Thread) (program : Program) : Prop :=
  match thread.phase with
  | .ready | .finished => True
  | .waiting _ left | .woken left => ∃ statement log,
      program.get? thread.ip = some statement ∧
        (program.execute thread.ip statement).Reaches log (.ask left.request left.next)

theorem amid_of_goto (thread : Thread) (program : Program) (index : Nat) :
    (thread.goto program index).2.Amid program := by
  unfold goto
  split <;> trivial

theorem amid_of_follow (thread : Thread) (program : Program) (flow : Flow) :
    (thread.follow program flow).2.Amid program := by
  cases flow with
  | next | jump | enter => exact amid_of_goto _ _ _
  | leave =>
    unfold follow
    dsimp only
    split
    · exact amid_of_goto _ _ _
    · trivial

end Thread

namespace Turn

variable {turn : Turn} {program : Program} {statement : Statement}

/-- A turn advances the statement at its thread, if its step takes in how far this has come. -/
theorem advances_of_settle (hstatement : program.get? turn.thread.ip = some statement)
    {progress : Progress Flow} (before : List Exchange) {rest : Action Flow} {later : World}
    (hreaches : (program.execute turn.thread.ip statement).Reaches
      (before ++ exchanges (turn.attempts program)) rest)
    (hrest : (∀ fault, progress ≠ .failed fault) → rest = progress.residual)
    (hstep : turn.step program =
      ((turn.thread.settle program progress).1, (turn.thread.settle program progress).2, later)) :
    turn.Advances program := by
  cases progress with
  | done flow => exact .completes hstatement (hrest nofun ▸ hreaches) hstep
  | failed fault => exact .fails hstatement hreaches hstep
  | blocked block left => exact .waits hstatement (hrest nofun ▸ hreaches) hstep

/-- Whether the program has ended once the turn is over. -/
def ends (turn : Turn) (program : Program) : Bool := (turn.step program).2.2.library.ended

/-- Every turn goes on with the statement that its thread is at. -/
theorem advances (hamid : turn.thread.Amid program) : turn.Advances program := by
  obtain ⟨thread, world⟩ := turn
  cases hphase : thread.phase with
  | finished =>
    refine .idles ?_ ?_
    · simp only [attempts, Thread.unblock, hphase, Thread.attempts]
    · have hfinish : thread.finish = thread := by
        rw [Thread.finish, ← hphase]
      simp only [step, Thread.unblock, hphase, Thread.step, hfinish]
  | ready =>
    cases hstatement : program.get? thread.ip with
    | none =>
      refine .idles ?_ ?_
      · simp only [attempts, Thread.unblock, hphase, Thread.attempts, hstatement]
      · simp only [step, Thread.unblock, hphase, Thread.step, hstatement]
    | some statement =>
      obtain ⟨rest, hreaches, hrest⟩ :=
        (program.execute thread.ip statement).exists_reaches_run world
      have hstep : step ⟨thread, world⟩ program = _ :=
        (congrArg (Thread.step · program world) (Thread.unblock_of_ready hphase)).trans
          (Thread.step_of_ready hphase hstatement world)
      refine advances_of_settle hstatement [] ?_ hrest hstep
      rw [attempts, Thread.unblock_of_ready hphase, Thread.attempts_of_ready hphase hstatement]
      exact hreaches
  | waiting _ left | woken left =>
    simp only [Thread.Amid, hphase] at hamid
    obtain ⟨statement, log, hstatement, hbefore⟩ := hamid
    obtain ⟨rest, hreaches, hrest⟩ := left.exists_reaches_resume world
    have hstep : step ⟨thread, world⟩ program =
        ((thread.settle program (left.resume world).1).1,
          (thread.settle program (left.resume world).1).2, (left.resume world).2) := by
      simp only [step, Thread.unblock, hphase, Thread.step, Thread.settle_phase]
    refine advances_of_settle hstatement log ?_ hrest hstep
    simpa only [attempts, Thread.unblock, hphase, Thread.attempts] using hbefore.trans hreaches

/-- After its turn a thread has nothing left to do, except inside the statement at its index. -/
theorem Advances.amid (hadvances : turn.Advances program) :
    (turn.step program).2.1.Amid program := by
  cases hadvances with
  | idles _ hstep | fails _ _ hstep =>
    rw [hstep]
    trivial
  | completes _ _ hstep =>
    rw [hstep]
    exact Thread.amid_of_follow _ _ _
  | waits hstatement hreaches hstep =>
    rw [hstep]
    exact ⟨_, _, hstatement, hreaches⟩

end Turn

namespace Machine

variable {machine : Machine} {now : Nat}

/-! ## What holds of every thread -/

section Threads

variable {P : Thread → Prop}

theorem forall_mem_spawn (machine : Machine)
    (hstart : ∀ id ip, P (Thread.start machine.program id ip))
    (hthreads : ∀ thread ∈ machine.threads, P thread) (ip : Nat) :
    ∀ thread ∈ (machine.spawn ip).threads, P thread :=
  List.forall_mem_append.2 ⟨hthreads, by simpa using hstart machine.nextId ip⟩

theorem GoesRound.forall_mem {program : Program} {threads : List Thread} {world : World}
    {turns : List Turn} {after : Round} (hround : GoesRound program now threads world turns after)
    (hturn : ∀ turn : Turn, P turn.thread → P (turn.step program).2.1)
    (hthreads : ∀ thread ∈ threads, P thread) : ∀ thread ∈ after.threads, P thread := by
  induction hround with
  | nil => simp
  | parked _ _ ih =>
    obtain ⟨hfirst, hrest⟩ := List.forall_mem_cons.1 hthreads
    exact List.forall_mem_cons.2 ⟨hfirst, ih hrest⟩
  | @fails first next world _ _ _ _ hstep | @ends first next world _ _ _ _ hstep =>
    obtain ⟨hfirst, hrest⟩ := List.forall_mem_cons.1 hthreads
    have hnext := hturn ⟨first, world⟩ hfirst
    rw [hstep] at hnext
    exact List.forall_mem_cons.2 ⟨hnext, hrest⟩
  | @turn first next _ world _ _ _ _ _ hstep _ _ _ ih =>
    obtain ⟨hfirst, hrest⟩ := List.forall_mem_cons.1 hthreads
    have hnext := hturn ⟨first, world⟩ hfirst
    rw [hstep] at hnext
    exact List.forall_mem_cons.2 ⟨hnext, ih hrest⟩

theorem forall_mem_awaken (hstart : ∀ id ip, P (Thread.start machine.program id ip))
    (hthreads : ∀ thread ∈ machine.threads, P thread) (now : Nat) :
    ∀ thread ∈ (machine.awaken now).2.threads, P thread := by
  obtain ⟨world, hawaken | ⟨ip, hawaken⟩⟩ := machine.awaken_eq now
  · rwa [hawaken]
  · rw [hawaken]
    exact forall_mem_spawn { machine with world } hstart hthreads ip

/-- A tick steps some threads, and drops some. -/
theorem forall_mem_tick (hstart : ∀ id ip, P (Thread.start machine.program id ip))
    (hturn : ∀ turn : Turn, P turn.thread → P (turn.step machine.program).2.1)
    (hthreads : ∀ thread ∈ machine.threads, P thread) (now : Nat) :
    ∀ thread ∈ (machine.tick now).2.threads, P thread := by
  cases hended : machine.ended with
  | true => simpa [tick, hended] using hthreads
  | false =>
    have hround := goesRound_round machine.program now (machine.awaken now).2.threads
      (machine.awaken now).2.world
    have hafter := hround.forall_mem hturn (forall_mem_awaken hstart hthreads now)
    simp only [tick, hended, Bool.false_eq_true, if_false, machine.program_awaken now]
    split
    · exact hafter
    · intro thread hthread
      dsimp only at hthread
      split at hthread
      · simp at hthread
      · exact hafter thread (List.mem_filter.1 hthread).1

/-- What holds of a thread when it starts, and after each of its turns, holds of all threads in
every run, whether its ticks fail or not. -/
theorem forall_mem_after (hstart : ∀ id ip, P (Thread.start machine.program id ip))
    (hturn : ∀ turn : Turn, P turn.thread → P (turn.step machine.program).2.1)
    (hthreads : ∀ thread ∈ machine.threads, P thread) (moves : List Move) :
    ∀ thread ∈ (machine.after moves).threads, P thread := by
  induction moves generalizing machine with
  | nil => exact hthreads
  | cons move moves ih =>
    have hprogram : (machine.apply move).program = machine.program := machine.program_after [move]
    refine ih (by rwa [hprogram]) (by rwa [hprogram]) ?_
    cases move with
    | tick now => exact forall_mem_tick hstart hturn hthreads now
    | spawn ip => exact forall_mem_spawn machine hstart hthreads ip
    | push | close => exact hthreads

end Threads

/-- In every run, what a thread has left to do is left of the statement at its index. -/
theorem amid_after_start (program : Program) (library : Library) (moves : List Move) :
    ∀ thread ∈ ((Machine.start program library).after moves).threads, thread.Amid program := by
  have hprogram := program_start program library
  refine forall_mem_after (fun _ _ => trivial) ?_ ?_ moves
  · rw [hprogram]
    exact fun turn hamid => (Turn.advances hamid).amid
  · unfold Machine.start
    dsimp only
    split <;> simp [spawn, Thread.start, Thread.Amid]

/-! ## Numbers -/

/-- The threads that a tick starts by itself: one at what the timer is bound to, if it is due. -/
def startedBy (machine : Machine) (now : Nat) : List Thread :=
  if machine.ended then []
  else
    let handler? := (machine.world.library.timer.poll now).1
    handler?.toList.map (Thread.start machine.program machine.nextId)

/-- The threads that are started in some moves. -/
def startHistory (machine : Machine) : List Move → List Thread
  | [] => []
  | .tick now :: moves => machine.startedBy now ++ (machine.apply (.tick now)).startHistory moves
  | .spawn ip :: moves =>
    Thread.start machine.program machine.nextId ip ::
      (machine.apply (.spawn ip)).startHistory moves
  | move :: moves => (machine.apply move).startHistory moves

theorem startHistory_cons (machine : Machine) (move : Move) (moves : List Move) :
    machine.startHistory (move :: moves) =
      machine.startHistory [move] ++ (machine.apply move).startHistory moves := by
  cases move <;> simp [startHistory]

theorem length_startedBy_le (machine : Machine) (now : Nat) :
    (machine.startedBy now).length ≤ 1 := by
  unfold startedBy
  split
  · simp
  · simp only [List.length_map]
    cases (machine.world.library.timer.poll now).1 <;> simp

/-- At the beginning of a tick the timer may start a thread, which comes last. -/
theorem threads_awaken (hended : machine.ended = false) (now : Nat) :
    (machine.awaken now).2.threads = machine.threads ++ machine.startedBy now ∧
      (machine.awaken now).2.nextId = machine.nextId + (machine.startedBy now).length := by
  have hdue : ((machine.world.library.setNow now).due now).1 =
      (machine.world.library.timer.poll now).1 := rfl
  unfold awaken startedBy
  dsimp only
  rw [hended, hdue]
  cases (machine.world.library.timer.poll now).1 with
  | none => simp
  | some handler => simp [spawn]

theorem nextId_tick (machine : Machine) (now : Nat) :
    (machine.tick now).2.nextId = machine.nextId + (machine.startedBy now).length := by
  cases hended : machine.ended with
  | true => simp [tick, startedBy, hended]
  | false =>
    obtain ⟨after, -, -, -, hnextId, -⟩ := machine.exists_rounds now hended
    rw [hnextId, (threads_awaken hended now).2]

/-- Threads are listed in the order of their numbers, below the next one. A program that has ended
has no finished threads. -/
structure InOrder (machine : Machine) : Prop where
  increasing : (machine.threads.map (·.id)).Pairwise (· < ·)
  lt : ∀ thread ∈ machine.threads, thread.id < machine.nextId
  ended : machine.ended = true → ∀ thread ∈ machine.threads, thread.isFinished = false

theorem InOrder.spawn (horder : machine.InOrder) (ip : Nat) : (machine.spawn ip).InOrder := by
  constructor
  case increasing =>
    simp only [Machine.spawn, List.map_append, List.pairwise_append]
    refine ⟨horder.increasing, by simp, ?_⟩
    intro id hid other hother
    obtain ⟨thread, hthread, rfl⟩ := List.mem_map.1 hid
    obtain rfl := List.mem_singleton.1 hother
    exact horder.lt thread hthread
  case lt =>
    refine List.forall_mem_append.2 ⟨fun thread hthread => ?_, ?_⟩
    · exact Nat.lt_succ_of_lt (horder.lt thread hthread)
    · simp [Thread.start, Machine.spawn]
  case ended =>
    intro hended
    refine List.forall_mem_append.2 ⟨horder.ended hended, ?_⟩
    simp [Thread.start, Thread.isFinished]

theorem InOrder.withWorld (horder : machine.InOrder) (world : World) :
    { machine with world }.InOrder := ⟨horder.increasing, horder.lt, horder.ended⟩

theorem InOrder.awaken (horder : machine.InOrder) (now : Nat) :
    (machine.awaken now).2.InOrder := by
  obtain ⟨world, hawaken | ⟨ip, hawaken⟩⟩ := machine.awaken_eq now
  · rw [hawaken]
    exact horder.withWorld world
  · rw [hawaken]
    exact (horder.withWorld world).spawn ip

theorem InOrder.tick (horder : machine.InOrder) (now : Nat) : (machine.tick now).2.InOrder := by
  cases hended : machine.ended with
  | true => simpa [Machine.tick, hended] using horder
  | false =>
    obtain ⟨after, hrounds, -, -, hnextId, hthreads⟩ := machine.exists_rounds now hended
    have hawake := horder.awaken now
    have hids := hrounds.map_id
    constructor
    case increasing =>
      refine List.Pairwise.sublist (hthreads.map (·.id)) ?_
      rw [hids]
      exact hawake.increasing
    case lt =>
      intro thread hthread
      have hmem : thread.id ∈ (machine.awaken now).2.threads.map (·.id) :=
        hids ▸ List.mem_map_of_mem (hthreads.subset hthread)
      obtain ⟨old, hold, hsame⟩ := List.mem_map.1 hmem
      rw [hnextId, ← hsame]
      exact hawake.lt old hold
    case ended =>
      -- The tick in which the program ends drops all threads.
      intro hafter
      simp only [Machine.tick, hended, Bool.false_eq_true, if_false] at hafter ⊢
      split at hafter
      · simp [ended_awaken, hended] at hafter
      · simp only at hafter
        simp [hafter]

theorem InOrder.apply (horder : machine.InOrder) (move : Move) : (machine.apply move).InOrder := by
  cases move with
  | tick now => exact horder.tick now
  | spawn ip => exact horder.spawn ip
  | push | close => exact horder.withWorld _

theorem InOrder.after (horder : machine.InOrder) (moves : List Move) :
    (machine.after moves).InOrder := by
  induction moves generalizing machine with
  | nil => exact horder
  | cons move moves ih => exact ih (horder.apply move)

theorem inOrder_start (program : Program) (library : Library) :
    (Machine.start program library).InOrder := by
  have hempty : ({ program, world := { library } } : Machine).InOrder :=
    ⟨by simp, by simp, by simp⟩
  unfold Machine.start
  dsimp only
  split
  · exact hempty.spawn 0
  · exact hempty

theorem InOrder.nodup (horder : machine.InOrder) : (machine.threads.map (·.id)).Nodup :=
  horder.increasing.imp Nat.ne_of_lt

/-- In every run threads are started under one number after the other. -/
theorem map_id_startHistory (machine : Machine) (moves : List Move) :
    (machine.startHistory moves).map (·.id) =
      List.range' machine.nextId (machine.startHistory moves).length := by
  induction moves generalizing machine with
  | nil => rfl
  | cons move moves ih =>
    have hrest := ih (machine.apply move)
    cases move with
    | push | close => exact hrest
    | spawn ip =>
      simp only [startHistory, List.map_cons, List.length_cons, List.range'_succ]
      exact congrArg _ hrest
    | tick now =>
      have hfirst : (machine.startedBy now).map (·.id) =
          List.range' machine.nextId (machine.startedBy now).length := by
        unfold startedBy
        split
        · rfl
        · cases (machine.world.library.timer.poll now).1 <;> rfl
      rw [apply, nextId_tick] at hrest
      simp only [startHistory, List.map_append, List.length_append, apply]
      rw [hfirst, hrest, ← List.range'_append_1]

/-- Every thread of a run was there before, or was started in it. -/
theorem id_mem_of_mem_after (machine : Machine) (moves : List Move) :
    ∀ thread ∈ (machine.after moves).threads,
      thread.id ∈ (machine.threads ++ machine.startHistory moves).map (·.id) := by
  induction moves generalizing machine with
  | nil =>
    intro thread hthread
    simpa [startHistory] using ⟨thread, hthread, rfl⟩
  | cons move moves ih =>
    have hmove : ∀ thread ∈ (machine.apply move).threads,
        thread.id ∈ (machine.threads ++ machine.startHistory [move]).map (·.id) := by
      intro thread hthread
      cases move with
      | push | close => simpa [startHistory] using ⟨thread, hthread, rfl⟩
      | spawn ip => exact List.mem_map_of_mem hthread
      | tick now =>
        simp only [startHistory, List.append_nil]
        cases hended : machine.ended with
        | true =>
          simp only [apply, tick, hended, if_true] at hthread
          exact List.mem_map_of_mem (List.mem_append_left _ hthread)
        | false =>
          obtain ⟨after, hrounds, -, -, -, hthreads⟩ := machine.exists_rounds now hended
          rw [← (threads_awaken hended now).1, ← hrounds.map_id]
          exact List.mem_map_of_mem (hthreads.subset hthread)
    intro thread hthread
    have hmem := ih (machine.apply move) thread hthread
    rw [startHistory_cons, ← List.append_assoc, List.map_append, List.mem_append]
    rw [List.map_append, List.mem_append] at hmem
    rcases hmem with hmem | hmem
    · obtain ⟨old, hold, hsame⟩ := List.mem_map.1 hmem
      exact .inl (hsame ▸ hmove old hold)
    · exact .inr hmem

/-- A machine never uses a number again: in whatever moves follow, threads are started under new
numbers, each of them under its own, and the number of a thread that is gone does not come back. -/
structure NumbersOnce (machine : Machine) (later : List Move) : Prop where
  fresh : (machine.startHistory later).map (·.id) =
    List.range' machine.nextId (machine.startHistory later).length
  gone : ∀ thread ∈ (machine.after later).threads,
    thread.id ∈ (machine.threads ++ machine.startHistory later).map (·.id)

/-! ## Turns -/

/-- The world that some turns leave. -/
def worldAfter (program : Program) (world : World) (turns : List Turn) : World :=
  turns.foldl (fun _ turn => (turn.step program).2.2) world

section Rounds

variable {program : Program} {threads : List Thread} {world : World} {turns : List Turn}
  {after : Round} {thread first : Thread} {rest : List Thread}

theorem increasing_cons :
    ((first :: rest).map (·.id)).Pairwise (· < ·) ↔
      (∀ thread ∈ rest, first.id < thread.id) ∧ (rest.map (·.id)).Pairwise (· < ·) := by
  rw [List.map_cons, List.pairwise_cons, List.forall_mem_map]

/-- The threads after the first one have no turns before it. -/
theorem filter_lt_eq_nil (hfirst : ∀ thread ∈ rest, first.id < thread.id)
    (hturns : ∀ turn ∈ turns, turn.thread ∈ rest) :
    turns.filter (·.thread.id < first.id) = [] := by
  rw [List.filter_eq_nil_iff]
  intro turn hturn
  simpa using Nat.le_of_lt (hfirst _ (hturns turn hturn))

/-- Which threads have a turn in a round without a fault: those that are not parked in the world
that the turns before have left, unless the program has ended in one of these. -/
theorem GoesRound.turnsOf_eq_ite (hround : GoesRound program now threads world turns after)
    (hincreasing : (threads.map (·.id)).Pairwise (· < ·)) (hfault : after.fault? = none)
    (hthread : thread ∈ threads) :
    let earlier := turns.filter (·.thread.id < thread.id)
    turnsOf thread.id turns =
      if earlier.any (·.ends program) || isParked (worldAfter program world earlier) now thread
      then [] else [⟨thread, worldAfter program world earlier⟩] := by
  induction hround with
  | nil => simp at hthread
  | @parked first rest world turns after hparked hrest ih =>
    obtain ⟨hfirst, hincreasing⟩ := increasing_cons.1 hincreasing
    rcases List.mem_cons.1 hthread with rfl | hthread
    · have hnone : turnsOf thread.id turns = [] := by
        rw [turnsOf_eq_nil_iff]
        exact fun turn hturn => (Nat.ne_of_lt (hfirst _ (hrest.thread_mem hturn))).symm
      simp [filter_lt_eq_nil hfirst fun _ => hrest.thread_mem, worldAfter, hparked, hnone]
    · exact ih hincreasing hfault hthread
  | fails => cases hfault
  | @ends first next world later report rest hparked hstep hreport hended =>
    obtain ⟨hfirst, -⟩ := increasing_cons.1 hincreasing
    rcases List.mem_cons.1 hthread with rfl | hthread
    · simp [worldAfter, hparked, turnsOf]
    · have hlt := hfirst thread hthread
      simp [hlt, Turn.ends, hstep, hended, turnsOf, Nat.ne_of_lt hlt]
  | @turn first next rest world later report turns after hparked hstep hreport hended hrest ih =>
    obtain ⟨hfirst, hincreasing⟩ := increasing_cons.1 hincreasing
    rcases List.mem_cons.1 hthread with rfl | hthread
    · have hnone : turnsOf thread.id turns = [] := by
        rw [turnsOf_eq_nil_iff]
        exact fun turn hturn => (Nat.ne_of_lt (hfirst _ (hrest.thread_mem hturn))).symm
      simp only [turnsOf] at hnone
      simp [filter_lt_eq_nil hfirst fun _ => hrest.thread_mem, worldAfter, hparked, turnsOf, hnone]
    · have hlt := hfirst thread hthread
      have hskip : turnsOf thread.id (⟨first, world⟩ :: turns) = turnsOf thread.id turns := by
        simp [turnsOf, Nat.ne_of_lt hlt]
      have hearlier : (⟨first, world⟩ :: turns : List Turn).filter (·.thread.id < thread.id) =
          ⟨first, world⟩ :: turns.filter (·.thread.id < thread.id) := by simp [hlt]
      rw [hskip, ih hincreasing hfault hthread, hearlier]
      simp [worldAfter, Turn.ends, hstep, hended]

/-- Turns are had in the order of the numbers. -/
theorem GoesRound.increasing (hround : GoesRound program now threads world turns after)
    (hincreasing : (threads.map (·.id)).Pairwise (· < ·)) :
    (turns.map (·.thread.id)).Pairwise (· < ·) := by
  have hsublist := hround.sublist.map (·.id)
  rw [List.map_map] at hsublist
  exact List.Pairwise.sublist hsublist hincreasing

end Rounds

/-- A tick without a fault is a round without a fault, unless the program has ended. -/
theorem exists_goesRound_of_ok (hended : machine.ended = false) {report : TickReport}
    (hreport : (machine.tick now).1 = .ok report) :
    ∃ after, after.fault? = none ∧
      GoesRound machine.program now (machine.awaken now).2.threads
        (machine.awaken now).2.world (machine.turns now) after ∧
      machine.tick now =
        (.ok ⟨(machine.awaken now).1 || after.progressed,
            ((machine.awaken now).2.afterRound after).isFinished⟩,
          (machine.awaken now).2.afterRound after) := by
  have hfault : (round machine.program now (machine.awaken now).2.threads
      (machine.awaken now).2.world).fault? = none := by
    simp only [tick, hended, Bool.false_eq_true, if_false, machine.program_awaken now] at hreport
    split at hreport
    · cases hreport
    · assumption
  exact ⟨_, hfault, goesRound_turns hended now, tick_of_round hended rfl hfault⟩

/-- What a tick without a fault does. -/
structure RoundRobin (machine : Machine) (now : Nat) : Prop where
  /-- Each thread has at most one turn, and turns are had in the order of the numbers. -/
  increasing : ((machine.turns now).map (·.thread.id)).Pairwise (· < ·)
  /-- A turn brings at most one statement to its end. -/
  advances : ∀ turn ∈ machine.turns now, turn.Advances machine.program
  /-- The tick starts at most one thread, the one of the timer, under the next number. -/
  starts : (machine.startedBy now).length ≤ 1 ∧
    (machine.tick now).2.nextId = machine.nextId + (machine.startedBy now).length
  /-- Turns are had by threads that were there, and by the one that was started. -/
  takesPart : ∀ turn ∈ machine.turns now,
    turn.thread ∈ machine.threads ++ machine.startedBy now
  /-- Each of these has a turn unless, when it comes to it, the thread is parked or the program has
  ended. -/
  resumes : machine.ended = false → ∀ thread ∈ machine.threads ++ machine.startedBy now,
    let earlier := (machine.turns now).filter (·.thread.id < thread.id)
    let found := worldAfter machine.program (machine.awaken now).2.world earlier
    turnsOf thread.id (machine.turns now) =
      if earlier.any (·.ends machine.program) || isParked found now thread then []
      else [⟨thread, found⟩]
  /-- The thread that was started comes last and has its turn in the same tick, unless the program
  ends before. -/
  startedLast : ∀ thread ∈ machine.startedBy now,
    (∃ turn ∈ machine.turns now, turn.ends machine.program = true) ∨
      ∃ before found, machine.turns now = before ++ [⟨thread, found⟩]
  /-- A program that has ended does nothing. -/
  stopped : machine.ended = true → machine.turns now = [] ∧ machine.startedBy now = []
  /-- No thread that is left has finished. -/
  unfinished : ∀ thread ∈ (machine.tick now).2.threads, thread.isFinished = false

theorem InOrder.roundRobin_of_ended (horder : machine.InOrder) (hended : machine.ended = true)
    (now : Nat) : machine.RoundRobin now := by
  have hturns : machine.turns now = [] := by simp [turns, hended]
  have hstarted : machine.startedBy now = [] := by simp [startedBy, hended]
  constructor
  case increasing => simp [hturns]
  case advances => simp [hturns]
  case starts => exact ⟨machine.length_startedBy_le now, machine.nextId_tick now⟩
  case takesPart => simp [hturns]
  case resumes => simp [hended]
  case startedLast => simp [hstarted]
  case stopped => exact fun _ => ⟨hturns, hstarted⟩
  case unfinished => simpa [Machine.tick, hended] using horder.ended hended

/-- The last number is that of the thread that was started. -/
theorem le_of_mem_startedBy (hlt : ∀ thread ∈ machine.threads, thread.id < machine.nextId)
    {started thread : Thread} (hstarted : started ∈ machine.startedBy now)
    (hthread : thread ∈ machine.threads ++ machine.startedBy now) : thread.id ≤ started.id := by
  have hid : ∀ started ∈ machine.startedBy now, started.id = machine.nextId := by
    unfold startedBy
    split <;> simp [Thread.start]
  rw [hid started hstarted]
  rcases List.mem_append.1 hthread with hthread | hthread
  · exact Nat.le_of_lt (hlt thread hthread)
  · exact Nat.le_of_eq (hid thread hthread)

/-- The largest of numbers that increase comes last. -/
theorem exists_eq_append_of_le {turns : List Turn} {turn : Turn} (hturn : turn ∈ turns)
    (hincreasing : (turns.map (·.thread.id)).Pairwise (· < ·))
    (hle : ∀ other ∈ turns, other.thread.id ≤ turn.thread.id) :
    ∃ before, turns = before ++ [turn] := by
  obtain ⟨before, later, rfl⟩ := List.append_of_mem hturn
  refine ⟨before, ?_⟩
  cases later with
  | nil => rfl
  | cons other later =>
    have hlt : turn.thread.id < other.thread.id := by
      simp only [List.map_append, List.map_cons, List.pairwise_append, List.pairwise_cons]
        at hincreasing
      exact hincreasing.2.1.1 _ List.mem_cons_self
    exact absurd hlt (Nat.not_lt.2 (hle other (by simp)))

theorem InOrder.roundRobin (horder : machine.InOrder)
    (hamid : ∀ thread ∈ machine.threads, thread.Amid machine.program) {report : TickReport}
    (hreport : (machine.tick now).1 = .ok report) : machine.RoundRobin now := by
  cases hended : machine.ended with
  | true => exact horder.roundRobin_of_ended hended now
  | false =>
    obtain ⟨after, hfault, hround, htick⟩ := exists_goesRound_of_ok hended hreport
    obtain ⟨hthreads, -⟩ := threads_awaken hended now
    have hawake := (horder.awaken now).increasing
    have hincreasing := hround.increasing hawake
    have htakesPart : ∀ turn ∈ machine.turns now,
        turn.thread ∈ machine.threads ++ machine.startedBy now :=
      fun turn hturn => hthreads ▸ hround.thread_mem hturn
    have hresumes := fun thread (hthread : thread ∈ machine.threads ++ machine.startedBy now) =>
      hround.turnsOf_eq_ite hawake hfault (hthreads.symm ▸ hthread)
    constructor
    case increasing => exact hincreasing
    case advances =>
      intro turn hturn
      have hall := forall_mem_awaken (fun _ _ => trivial) hamid now
      exact Turn.advances (hall _ (hround.thread_mem hturn))
    case starts => exact ⟨machine.length_startedBy_le now, machine.nextId_tick now⟩
    case takesPart => exact htakesPart
    case resumes => exact fun _ => hresumes
    case startedLast =>
      intro thread hthread
      rw [or_iff_not_imp_left]
      intro hgoing
      have hturn := hresumes thread (List.mem_append_right _ hthread)
      have hnever : ((machine.turns now).filter (·.thread.id < thread.id)).any
          (·.ends machine.program) = false := by
        rw [List.any_eq_false]
        exact fun turn hturn hends => hgoing ⟨turn, (List.mem_filter.1 hturn).1, hends⟩
      have hfree : ∀ world, isParked world now thread = false := by
        intro world
        simp only [startedBy, hended, Bool.false_eq_true, if_false, List.mem_map] at hthread
        obtain ⟨ip, -, rfl⟩ := hthread
        rfl
      simp only [hnever, hfree, Bool.or_self, Bool.false_eq_true, if_false] at hturn
      have hmem := (List.mem_filter.1 (hturn ▸ List.mem_cons_self :
        _ ∈ turnsOf thread.id (machine.turns now))).1
      obtain ⟨before, hlast⟩ := exists_eq_append_of_le hmem hincreasing fun other hother =>
        le_of_mem_startedBy horder.lt hthread (htakesPart other hother)
      exact ⟨before, _, hlast⟩
    case stopped => simp [hended]
    case unfinished =>
      rw [htick]
      intro thread hthread
      simp only [afterRound] at hthread
      split at hthread
      · simp at hthread
      · simpa using (List.mem_filter.1 hthread).2

/-- Threads take turns in every run of every program. In whatever state its ticks, also those that
fail, and what comes from outside have left the machine, the threads are listed in the order of
their numbers, and no number is ever used again. Every tick without a fault gives the threads that
can go on a turn each, in this order, and drops those that have finished. -/
theorem roundRobin_after_start (program : Program) (library : Library) (moves : List Move) :
    let machine := (Machine.start program library).after moves
    (machine.threads.map (·.id)).Pairwise (· < ·) ∧
      (∀ thread ∈ machine.threads, thread.id < machine.nextId) ∧
      (∀ later, machine.NumbersOnce later) ∧
      ∀ now report, (machine.tick now).1 = .ok report → machine.RoundRobin now := by
  intro machine
  have horder : machine.InOrder := (inOrder_start program library).after moves
  have hprogram : machine.program = program :=
    (program_after _ moves).trans (program_start program library)
  have hamid : ∀ thread ∈ machine.threads, thread.Amid machine.program :=
    hprogram.symm ▸ amid_after_start program library moves
  refine ⟨horder.increasing, horder.lt, fun later => ?_, fun now report hreport => ?_⟩
  · exact ⟨machine.map_id_startHistory later, machine.id_mem_of_mem_after later⟩
  · exact horder.roundRobin hamid hreport

end Machine

end SmallBasic
