import SmallBasic.Proofs.History

/-!
# Turns

Which threads a tick steps, in which order, and what it does to each of them. A tick gives every
thread at most one turn. A thread without a turn stays as it is, and a thread with a turn becomes
what its step makes of it.

## Main definitions

* `Turn` — a thread that is stepped, and the world that it finds.
* `Machine.turns`, `Machine.turnHistory` — the turns of a tick, and of a run.
* `Machine.GoesRound` — what a round does, turn by turn.
* `Machine.goRound` — the machine after a round.

## Main statements

* `Machine.goesRound_round` — every round is one of those described.
* `Machine.GoesRound.thread_after` — what a round does to a thread.
* `Machine.Sound.exists_goesRound` — a tick of a sound machine is a round without a fault.
* `Machine.Sound.tick_eq_without` — a thread that only finishes makes no difference to the others.
-/

namespace SmallBasic

/-- A thread that is stepped, as it was before, and the world that it finds. -/
structure Turn where
  thread : Thread
  world : World

namespace Turn

/-- What comes of the turn. -/
def step (turn : Turn) (program : Program) : Thread.Report × Thread × World :=
  turn.thread.unblock.step program turn.world

/-- The attempts of the turn. -/
def attempts (turn : Turn) (program : Program) : List Attempt :=
  turn.thread.unblock.attempts program turn.world

/-- A turn does to the world what its attempts do. -/
theorem makes_attempts (turn : Turn) (program : Program) :
    turn.world.Makes (turn.attempts program) (turn.step program).2.2 :=
  turn.thread.unblock.makes_attempts program turn.world

end Turn

/-- The turns of a thread. -/
def turnsOf (id : Nat) (turns : List Turn) : List Turn := turns.filter (·.thread.id == id)

theorem turnsOf_append (id : Nat) (turns more : List Turn) :
    turnsOf id (turns ++ more) = turnsOf id turns ++ turnsOf id more := List.filter_append ..

theorem turnsOf_eq_nil_iff {id : Nat} {turns : List Turn} :
    turnsOf id turns = [] ↔ ∀ turn ∈ turns, turn.thread.id ≠ id := by
  simp [turnsOf, List.filter_eq_nil_iff]

namespace Machine

/-- The turns of a round. -/
def roundTurns (program : Program) (now : Nat) : List Thread → World → List Turn
  | [], _ => []
  | thread :: rest, world =>
    if isParked world now thread then roundTurns program now rest world
    else
      let (report, _, later) := Turn.step ⟨thread, world⟩ program
      match report with
      | .failed _ => [⟨thread, world⟩]
      | _ =>
        if later.library.ended then [⟨thread, world⟩]
        else ⟨thread, world⟩ :: roundTurns program now rest later

/-- The turns of a tick. -/
def turns (machine : Machine) (now : Nat) : List Turn :=
  if machine.ended then []
  else
    let awake := (machine.awaken now).2
    roundTurns awake.program now awake.threads awake.world

theorem ended_of_mem_turns {machine : Machine} {now : Nat} {turn : Turn}
    (hturn : turn ∈ machine.turns now) :
    machine.ended = false := by
  rw [Bool.eq_false_iff]
  intro hended
  simp [turns, hended] at hturn

/-- The turns of moves that are made one after the other. -/
def turnHistory (machine : Machine) : List Move → List Turn
  | [] => []
  | .tick now :: moves => machine.turns now ++ (machine.apply (.tick now)).turnHistory moves
  | move :: moves => (machine.apply move).turnHistory moves

theorem turnHistory_cons (machine : Machine) (move : Move) (moves : List Move) :
    machine.turnHistory (move :: moves) =
      machine.turnHistory [move] ++ (machine.apply move).turnHistory moves := by
  cases move <;> simp [turnHistory]

/-! ## Rounds -/

/-- What a round does, turn by turn: a thread is passed over, or it has its turn, after which the
round goes on, or stops at a fault or at the end of the program. -/
inductive GoesRound (program : Program) (now : Nat) :
    List Thread → World → List Turn → Round → Prop
  | nil (world : World) : GoesRound program now [] world [] { threads := [], world }
  | parked {thread : Thread} {rest : List Thread} {world : World} {turns : List Turn}
      {after : Round} (hparked : isParked world now thread = true)
      (hrest : GoesRound program now rest world turns after) :
      GoesRound program now (thread :: rest) world turns
        { after with threads := thread :: after.threads }
  | fails {thread next : Thread} {world later : World} {fault : Fault} (rest : List Thread)
      (hparked : isParked world now thread = false)
      (hstep : Turn.step ⟨thread, world⟩ program = (.failed fault, next, later)) :
      GoesRound program now (thread :: rest) world [⟨thread, world⟩]
        { threads := next :: rest, world := later, progressed := true, fault? := some fault }
  | ends {thread next : Thread} {world later : World} {report : Thread.Report} (rest : List Thread)
      (hparked : isParked world now thread = false)
      (hstep : Turn.step ⟨thread, world⟩ program = (report, next, later))
      (hreport : ∀ fault, report ≠ .failed fault) (hended : later.library.ended = true) :
      GoesRound program now (thread :: rest) world [⟨thread, world⟩]
        { threads := next :: rest, world := later, progressed := true, ended := true }
  | turn {thread next : Thread} {rest : List Thread} {world later : World} {report : Thread.Report}
      {turns : List Turn} {after : Round} (hparked : isParked world now thread = false)
      (hstep : Turn.step ⟨thread, world⟩ program = (report, next, later))
      (hreport : ∀ fault, report ≠ .failed fault) (hended : later.library.ended = false)
      (hrest : GoesRound program now rest later turns after) :
      GoesRound program now (thread :: rest) world (⟨thread, world⟩ :: turns)
        { after with threads := next :: after.threads, progressed := true }

/-- Every round is one of those described. -/
theorem goesRound_round (program : Program) (now : Nat) (threads : List Thread) (world : World) :
    GoesRound program now threads world (roundTurns program now threads world)
      (round program now threads world) := by
  induction threads generalizing world with
  | nil => exact .nil world
  | cons thread rest ih =>
    unfold round roundTurns
    cases hparked : isParked world now thread with
    | true => exact .parked hparked (ih world)
    | false =>
      obtain ⟨report, next, later, hstep⟩ : ∃ report next later,
          thread.unblock.step program world = (report, next, later) := ⟨_, _, _, rfl⟩
      simp only [Turn.step, hstep, Bool.false_eq_true, if_false]
      cases report with
      | failed fault => exact .fails rest hparked hstep
      | ran | blocked | finished =>
        cases hended : later.library.ended with
        | true => exact .ends rest hparked hstep (by simp) hended
        | false => exact .turn hparked hstep (by simp) hended (ih later)

section GoesRound

variable {program : Program} {now : Nat} {threads : List Thread} {world : World}
  {turns : List Turn} {after : Round}

/-- A round has one outcome. -/
theorem GoesRound.eq_round (hround : GoesRound program now threads world turns after) :
    after = round program now threads world := by
  induction hround with
  | nil => rfl
  | parked hparked _ ih => simp [round, hparked, ih]
  | fails rest hparked hstep =>
    rw [Turn.step] at hstep
    simp [round, hparked, hstep]
  | @ends _ _ _ _ report rest hparked hstep hreport hended =>
    rw [Turn.step] at hstep
    cases report <;> simp_all [round]
  | @turn _ _ _ _ _ report _ _ hparked hstep hreport hended _ ih =>
    rw [Turn.step] at hstep
    cases report <;> simp_all [round]

/-- Turns are had in the order of the threads, and each thread has at most one. -/
theorem GoesRound.sublist (hround : GoesRound program now threads world turns after) :
    (turns.map (·.thread)).Sublist threads := by
  induction hround with
  | nil => exact .slnil
  | parked _ _ ih => exact .cons _ ih
  | fails | ends => exact .cons_cons _ (List.nil_sublist _)
  | turn _ _ _ _ _ ih => exact .cons_cons _ ih

theorem GoesRound.thread_mem (hround : GoesRound program now threads world turns after)
    {turn : Turn} (hturn : turn ∈ turns) : turn.thread ∈ threads :=
  hround.sublist.subset (List.mem_map_of_mem hturn)

theorem GoesRound.turnsOf_eq_nil (hround : GoesRound program now threads world turns after)
    {id : Nat} (hid : id ∉ threads.map (·.id)) : turnsOf id turns = [] := by
  rw [turnsOf_eq_nil_iff]
  intro turn hturn hsame
  exact hid (hsame ▸ List.mem_map_of_mem (hround.thread_mem hturn))

/-- What a round does to a thread: it leaves it as it is, or gives it one turn. -/
theorem GoesRound.thread_after (hround : GoesRound program now threads world turns after)
    (hnodup : (threads.map (·.id)).Nodup) : ∀ next ∈ after.threads, ∃ thread ∈ threads,
      (turnsOf thread.id turns = [] ∧ next = thread) ∨
        ∃ turn : Turn, turn.thread = thread ∧ turnsOf thread.id turns = [turn] ∧
          next = (turn.step program).2.1 := by
  induction hround with
  | nil => simp
  | @parked first rest _ turns after _ hrest ih =>
    obtain ⟨hnew, hnodup⟩ := nodup_ids_cons.1 hnodup
    intro next hnext
    rcases List.mem_cons.1 hnext with rfl | hnext
    · exact ⟨next, List.mem_cons_self, .inl ⟨hrest.turnsOf_eq_nil hnew, rfl⟩⟩
    · obtain ⟨thread, hthread, hafter⟩ := ih hnodup next hnext
      exact ⟨thread, List.mem_cons_of_mem _ hthread, hafter⟩
  | @fails first next world _ _ rest _ hstep | @ends first next world _ _ rest _ hstep =>
    obtain ⟨hnew, -⟩ := nodup_ids_cons.1 hnodup
    intro other hother
    rcases List.mem_cons.1 hother with rfl | hother
    · exact ⟨first, List.mem_cons_self,
        .inr ⟨⟨first, world⟩, rfl, by simp [turnsOf], by rw [hstep]⟩⟩
    · have hne := ne_of_not_mem_ids hnew hother
      exact ⟨other, List.mem_cons_of_mem _ hother, .inl ⟨by simp [turnsOf, hne], rfl⟩⟩
  | @turn first next rest world _ _ turns after _ hstep _ _ hrest ih =>
    obtain ⟨hnew, hnodup⟩ := nodup_ids_cons.1 hnodup
    intro other hother
    rcases List.mem_cons.1 hother with rfl | hother
    · refine ⟨first, List.mem_cons_self, .inr ⟨⟨first, world⟩, rfl, ?_, by rw [hstep]⟩⟩
      have hnone := hrest.turnsOf_eq_nil hnew
      simp only [turnsOf] at hnone
      simp [turnsOf, hnone]
    · obtain ⟨thread, hthread, hafter⟩ := ih hnodup other hother
      have hne := ne_of_not_mem_ids hnew hthread
      refine ⟨thread, List.mem_cons_of_mem _ hthread, ?_⟩
      have hskip : turnsOf thread.id (⟨first, world⟩ :: turns) = turnsOf thread.id turns := by
        simp [turnsOf, hne]
      rwa [hskip]

theorem filter_id_of_new {first : Thread} {rest : List Thread}
    (hnew : first.id ∉ rest.map (·.id)) : rest.filter (·.id != first.id) = rest := by
  rw [List.filter_eq_self]
  exact fun thread hthread => bne_iff_ne.2 (ne_of_not_mem_ids hnew hthread).symm

/-- A turn that finishes its thread and leaves the world as it is makes no difference to the other
threads. -/
theorem GoesRound.exists_without (hround : GoesRound program now threads world turns after)
    (hfault : after.fault? = none) (hrunning : world.library.ended = false)
    (hnodup : (threads.map (·.id)).Nodup) {turn : Turn} (hturn : turn ∈ turns)
    (hfinished : (turn.step program).2.1.isFinished = true)
    (hworld : (turn.step program).2.2 = turn.world) :
    ∃ rest more, GoesRound program now (threads.filter (·.id != turn.thread.id)) world more rest ∧
      rest.world = after.world ∧ rest.ended = after.ended ∧
      rest.threads.filter (!·.isFinished) = after.threads.filter (!·.isFinished) := by
  induction hround with
  | nil => simp at hturn
  | @parked first rest _ turns after hparked hrest ih =>
    obtain ⟨hnew, hnodup⟩ := nodup_ids_cons.1 hnodup
    have hne := ne_of_not_mem_ids hnew (hrest.thread_mem hturn)
    obtain ⟨others, more, hothers, hsame, hends, hthreads⟩ := ih hfault hrunning hnodup hturn
    refine ⟨{ others with threads := first :: others.threads }, more, ?_, hsame, hends, ?_⟩
    · rw [List.filter_cons_of_pos (by simpa using hne)]
      exact .parked hparked hothers
    · simp [List.filter_cons, hthreads]
  | fails => cases hfault
  | ends _ _ hstep _ hended =>
    -- The program cannot have ended in a turn that leaves the world as it is.
    obtain rfl := List.mem_singleton.1 hturn
    rw [hstep] at hworld
    cases hworld
    cases hrunning.symm.trans hended
  | @turn first next rest world later _ turns after hparked hstep hreport hended hrest ih =>
    obtain ⟨hnew, hnodup⟩ := nodup_ids_cons.1 hnodup
    rcases List.mem_cons.1 hturn with rfl | hturn
    · -- The rest of the round starts from the same world.
      rw [hstep] at hfinished hworld
      cases hworld
      refine ⟨after, turns, ?_, rfl, rfl, ?_⟩
      · rw [List.filter_cons_of_neg (by simp), filter_id_of_new hnew]
        exact hrest
      · rw [List.filter_cons_of_neg (by simpa using hfinished)]
    · have hne := ne_of_not_mem_ids hnew (hrest.thread_mem hturn)
      obtain ⟨others, more, hothers, hsame, hends, hthreads⟩ := ih hfault hended hnodup hturn
      refine ⟨{ others with threads := next :: others.threads, progressed := true },
        ⟨first, world⟩ :: more, ?_, hsame, hends, ?_⟩
      · rw [List.filter_cons_of_pos (by simpa using hne)]
        exact .turn hparked hstep hreport hended hothers
      · simp [List.filter_cons, hthreads]

end GoesRound

/-! ## Ticks -/

/-- The machine after a round without a fault: threads that have finished are dropped, and all of
them are if the program has ended. -/
def afterRound (machine : Machine) (after : Round) : Machine :=
  { machine with
    threads := if after.ended then [] else after.threads.filter (!·.isFinished)
    world := after.world
    ended := after.ended }

/-- The turns of a tick are those of the round that its threads make. -/
theorem goesRound_turns {machine : Machine} (hended : machine.ended = false) (now : Nat) :
    GoesRound machine.program now (machine.awaken now).2.threads (machine.awaken now).2.world
      (machine.turns now)
      (round machine.program now (machine.awaken now).2.threads
        (machine.awaken now).2.world) := by
  have hturns : machine.turns now = roundTurns machine.program now
      (machine.awaken now).2.threads (machine.awaken now).2.world := by
    simp [turns, hended, machine.program_awaken now]
  rw [hturns]
  exact goesRound_round ..

/-- What a tick does if its round has no fault. -/
theorem tick_of_round {machine : Machine} (hended : machine.ended = false) {now : Nat}
    {after : Round} (hround : round machine.program now (machine.awaken now).2.threads
      (machine.awaken now).2.world = after) (hfault : after.fault? = none) :
    machine.tick now =
      (.ok ⟨(machine.awaken now).1 || after.progressed,
          ((machine.awaken now).2.afterRound after).isFinished⟩,
        (machine.awaken now).2.afterRound after) := by
  simp [tick, hended, machine.program_awaken now, hround, hfault, afterRound]

/-- What a tick of a sound machine does: its threads make a round without a fault. -/
theorem Sound.exists_goesRound {machine : Machine} (hsound : machine.Sound) (now : Nat)
    (hended : machine.ended = false) :
    ∃ after, after.fault? = none ∧
      GoesRound machine.program now (machine.awaken now).2.threads
        (machine.awaken now).2.world (machine.turns now) after ∧
      machine.tick now =
        (.ok ⟨(machine.awaken now).1 || after.progressed,
            ((machine.awaken now).2.afterRound after).isFinished⟩,
          (machine.awaken now).2.afterRound after) := by
  have hawake := hsound.awaken now
  have hfault := (round_sound hawake.linked now hawake.threads (machine.awaken now).2.world).1
  rw [machine.program_awaken now] at hfault
  exact ⟨_, hfault, goesRound_turns hended now, tick_of_round hended rfl hfault⟩

/-- The machine after its threads have made a round. -/
def goRound (machine : Machine) (now : Nat) : Machine :=
  machine.afterRound (round machine.program now machine.threads machine.world)

/-- The machine without one of its threads. -/
def without (machine : Machine) (id : Nat) : Machine :=
  { machine with threads := machine.threads.filter (·.id != id) }

theorem id_mem_of_mem_goRound {machine : Machine} {now : Nat} {next : Thread}
    (hnext : next ∈ (machine.goRound now).threads) : next.id ∈ machine.threads.map (·.id) := by
  rw [← (rounds_round machine.program now machine.threads machine.world).map_id]
  simp only [goRound, afterRound] at hnext
  split at hnext
  · simp at hnext
  · exact List.mem_map_of_mem (List.mem_filter.1 hnext).1

/-- A thread that finishes in its turn, and leaves the world as it is, might as well not have been
there in this tick. -/
theorem Sound.tick_eq_without {machine : Machine} (hsound : machine.Sound)
    (hnumbered : machine.Numbered) (hended : machine.ended = false) {now : Nat}
    (hrunning : (machine.awaken now).2.world.library.ended = false) {turn : Turn}
    (hturn : turn ∈ machine.turns now)
    (hfinished : (turn.step machine.program).2.1.isFinished = true)
    (hworld : (turn.step machine.program).2.2 = turn.world) :
    (machine.tick now).2 = ((machine.awaken now).2.without turn.thread.id).goRound now := by
  obtain ⟨after, hfault, hround, htick⟩ := hsound.exists_goesRound now hended
  obtain ⟨rest, more, hrest, hsame, hends, hthreads⟩ := hround.exists_without hfault hrunning
    (hnumbered.awaken now).nodup hturn hfinished hworld
  have hround := hrest.eq_round
  rw [← machine.program_awaken now] at hround
  rw [htick, goRound, without, ← hround]
  simp only [afterRound, hsame, hends, hthreads]

end Machine

end SmallBasic
