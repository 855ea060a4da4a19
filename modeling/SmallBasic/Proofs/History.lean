import Mathlib.Data.List.Nodup
import SmallBasic.Proofs.Ticks

/-!
# Histories

What the threads of a machine have done, attempt by attempt. The history of a run tells for every
attempt which thread made it, which world it found and which one it left. From the start on, each
thread makes one request after the other, and repeats one that has to wait before it makes the next.
This holds for every program and every run, also for those that fail.

## Main definitions

* `Entry` — an attempt of a thread in its world.
* `Machine.Rounds` — what a round does, thread by thread.
* `Machine.history` — the entries of a run.
* `Machine.Expects` — what the threads of a machine may go on to do.

## Main statements

* `Machine.rounds_round` — every round is one of those described.
* `Machine.Rounds.expects` — what a thread may do after a round, it may do in and after it.
* `Machine.paced_history` — each thread makes its requests one after the other.
-/

namespace SmallBasic

/-! ## Entries -/

/-- An attempt of a thread, with the world that it found and the one that it left. -/
structure Entry where
  thread : Nat
  attempt : Attempt
  before : World
  after : World

/-- The attempt has its outcome in the world that it found. -/
def Entry.Happens (entry : Entry) : Prop :=
  entry.before.perform entry.attempt.resumed entry.attempt.request =
    .ok (entry.attempt.outcome, entry.after)

/-- The entries of attempts that a thread makes one after the other. -/
def World.entries (thread : Nat) : World → List Attempt → List Entry
  | _, [] => []
  | world, attempt :: log =>
    match world.perform attempt.resumed attempt.request with
    | .ok (_, next) => ⟨thread, attempt, world, next⟩ :: World.entries thread next log
    | .error _ => []

/-- The entries follow one another and lead from one world to another. -/
inductive World.Unfolds : World → List Entry → World → Prop
  | nil (world : World) : World.Unfolds world [] world
  | cons {entry : Entry} {entries : List Entry} {last : World} (hhappens : entry.Happens)
      (hrest : World.Unfolds entry.after entries last) :
      World.Unfolds entry.before (entry :: entries) last

namespace World

variable {world middle last : World} {log : List Attempt} {entries more : List Entry}

theorem Unfolds.append (hentries : world.Unfolds entries middle)
    (hmore : middle.Unfolds more last) : world.Unfolds (entries ++ more) last := by
  induction hentries with
  | nil => exact hmore
  | cons hhappens _ ih => exact .cons hhappens (ih hmore)

theorem Unfolds.happens (hentries : world.Unfolds entries last) {entry : Entry}
    (hentry : entry ∈ entries) : entry.Happens := by
  induction hentries with
  | nil => simp at hentry
  | cons hhappens _ ih =>
    rcases List.mem_cons.1 hentry with rfl | hentry
    · exact hhappens
    · exact ih hentry

theorem Makes.unfolds (hmakes : world.Makes log last) (thread : Nat) :
    world.Unfolds (World.entries thread world log) last := by
  induction hmakes with
  | nil => exact .nil _
  | cons hattempt _ ih =>
    rw [World.entries, hattempt]
    exact .cons (show Entry.Happens ⟨thread, _, _, _⟩ from hattempt) ih

theorem Makes.map_attempt (hmakes : world.Makes log last) (thread : Nat) :
    (World.entries thread world log).map (·.attempt) = log := by
  induction hmakes with
  | nil => rfl
  | cons hattempt _ ih =>
    rw [World.entries, hattempt]
    simp [ih]

theorem thread_of_mem_entries {thread : Nat} {entry : Entry}
    (hentry : entry ∈ World.entries thread world log) : entry.thread = thread := by
  induction log generalizing world with
  | nil => simp [World.entries] at hentry
  | cons attempt log ih =>
    unfold World.entries at hentry
    split at hentry
    · rcases List.mem_cons.1 hentry with rfl | hentry
      · rfl
      · exact ih hentry
    · simp at hentry

end World

/-- The entries of the turn of a thread. -/
def Thread.entries (thread : Thread) (program : Program) (world : World) : List Entry :=
  World.entries thread.id world (thread.unblock.attempts program world)

theorem Thread.unfolds_entries (thread : Thread) (program : Program) (world : World) :
    world.Unfolds (thread.entries program world) (thread.unblock.step program world).2.2 :=
  (thread.unblock.makes_attempts program world).unfolds thread.id

/-! ## Rounds -/

namespace Machine

/-- The entries of a round. -/
def roundEntries (program : Program) (now : Nat) : List Thread → World → List Entry
  | [], _ => []
  | thread :: rest, world =>
    if isParked world now thread then roundEntries program now rest world
    else
      let entries := thread.entries program world
      let (report, _, world) := thread.unblock.step program world
      match report with
      | .failed _ => entries
      | _ => if world.library.ended then entries else entries ++ roundEntries program now rest world

/-- What a round does, thread by thread: a thread is passed over, or it has its turn, after which
the round goes on, or stops at a fault or at the end of the program. -/
inductive Rounds (program : Program) (now : Nat) :
    List Thread → World → List Entry → Round → Prop
  | nil (world : World) : Rounds program now [] world [] { threads := [], world }
  | parked {thread : Thread} {rest : List Thread} {world : World} {entries : List Entry}
      {after : Round} (hparked : isParked world now thread = true)
      (hrest : Rounds program now rest world entries after) :
      Rounds program now (thread :: rest) world entries
        { after with threads := thread :: after.threads }
  | fails {thread next : Thread} {world later : World} {fault : Fault} (rest : List Thread)
      (hparked : isParked world now thread = false)
      (hstep : thread.unblock.step program world = (.failed fault, next, later)) :
      Rounds program now (thread :: rest) world (thread.entries program world)
        { threads := next :: rest, world := later, progressed := true, fault? := some fault }
  | ends {thread next : Thread} {world later : World} {report : Thread.Report} (rest : List Thread)
      (hparked : isParked world now thread = false)
      (hstep : thread.unblock.step program world = (report, next, later))
      (hreport : ∀ fault, report ≠ .failed fault) (hended : later.library.ended = true) :
      Rounds program now (thread :: rest) world (thread.entries program world)
        { threads := next :: rest, world := later, progressed := true, ended := true }
  | turn {thread next : Thread} {rest : List Thread} {world later : World} {report : Thread.Report}
      {entries : List Entry} {after : Round} (hparked : isParked world now thread = false)
      (hstep : thread.unblock.step program world = (report, next, later))
      (hreport : ∀ fault, report ≠ .failed fault) (hended : later.library.ended = false)
      (hrest : Rounds program now rest later entries after) :
      Rounds program now (thread :: rest) world (thread.entries program world ++ entries)
        { after with threads := next :: after.threads, progressed := true }

/-- Every round is one of those described. -/
theorem rounds_round (program : Program) (now : Nat) (threads : List Thread) (world : World) :
    Rounds program now threads world (roundEntries program now threads world)
      (round program now threads world) := by
  induction threads generalizing world with
  | nil => exact .nil world
  | cons thread rest ih =>
    unfold round roundEntries
    cases hparked : isParked world now thread with
    | true => exact .parked hparked (ih world)
    | false =>
      obtain ⟨report, next, later, hstep⟩ : ∃ report next later,
          thread.unblock.step program world = (report, next, later) := ⟨_, _, _, rfl⟩
      rw [hstep]
      simp only [Bool.false_eq_true, if_false]
      cases report with
      | failed fault => exact .fails rest hparked hstep
      | ran | blocked | finished =>
        cases hended : later.library.ended with
        | true => exact .ends rest hparked hstep (by simp) hended
        | false => exact .turn hparked hstep (by simp) hended (ih later)

/-- What happens to the world in a round is in its entries. -/
theorem Rounds.unfolds {program : Program} {now : Nat} {threads : List Thread} {world : World}
    {entries : List Entry} {after : Round}
    (hrounds : Rounds program now threads world entries after) :
    world.Unfolds entries after.world := by
  induction hrounds with
  | nil world => exact .nil world
  | parked _ _ ih => exact ih
  | @fails thread next world later fault rest _ hstep =>
    have hentries := thread.unfolds_entries program world
    rwa [hstep] at hentries
  | @ends thread next world later report rest _ hstep =>
    have hentries := thread.unfolds_entries program world
    rwa [hstep] at hentries
  | @turn thread next rest world later report entries after _ hstep _ _ _ ih =>
    have hentries := thread.unfolds_entries program world
    rw [hstep] at hentries
    exact hentries.append ih

/-! ## Runs -/

/-- The entries of a tick. -/
def entries (machine : Machine) (now : Nat) : List Entry :=
  if machine.ended then []
  else
    let awake := (machine.awaken now).2
    roundEntries awake.program now awake.threads awake.world

/-- The entries of moves that are made one after the other. -/
def history (machine : Machine) : List Move → List Entry
  | [] => []
  | .tick now :: moves => machine.entries now ++ (machine.apply (.tick now)).history moves
  | move :: moves => (machine.apply move).history moves

end Machine

/-! ## The attempts of a thread -/

/-- The attempts of a thread among some entries. -/
def attemptsOf (thread : Nat) (entries : List Entry) : List Attempt :=
  (entries.filter (·.thread == thread)).map (·.attempt)

theorem attemptsOf_append (thread : Nat) (entries more : List Entry) :
    attemptsOf thread (entries ++ more) = attemptsOf thread entries ++ attemptsOf thread more := by
  simp [attemptsOf]

theorem attemptsOf_eq_nil {thread : Nat} {entries : List Entry}
    (hentries : ∀ entry ∈ entries, entry.thread ≠ thread) : attemptsOf thread entries = [] := by
  simpa [attemptsOf] using hentries

namespace Thread

variable {thread next : Thread} {program : Program} {world : World} {log : List Attempt}

theorem attemptsOf_entries (thread : Thread) (program : Program) (world : World) :
    attemptsOf thread.id (thread.entries program world) =
      thread.unblock.attempts program world := by
  have hall : (thread.entries program world).filter (·.thread == thread.id) =
      thread.entries program world := by
    rw [List.filter_eq_self]
    intro entry hentry
    exact beq_iff_eq.2 (World.thread_of_mem_entries hentry)
  rw [attemptsOf, hall]
  exact (thread.unblock.makes_attempts program world).map_attempt thread.id

/-- The request that the thread has to repeat. -/
def owed? (thread : Thread) : Option Request :=
  match thread.phase with
  | .ready | .finished => none
  | .waiting _ rest | .woken rest => some rest.request

/-- The thread may go on to make these attempts. -/
structure Expects (thread : Thread) (log : List Attempt) : Prop where
  finished : thread.isFinished = true → log = []
  paced : ∃ last?, Paced thread.owed? log last?

theorem expects_nil (thread : Thread) : thread.Expects [] := ⟨fun _ => rfl, _, .nil _⟩

theorem id_unblock (thread : Thread) : thread.unblock.id = thread.id := by
  unfold unblock
  split <;> rfl

theorem owed?_unblock (thread : Thread) : thread.unblock.owed? = thread.owed? := by
  obtain ⟨id, ip, returns, phase⟩ := thread
  cases phase <;> rfl

theorem id_goto (thread : Thread) (program : Program) (index : Nat) :
    (thread.goto program index).2.id = thread.id := by
  unfold Thread.goto
  split <;> rfl

theorem id_settle (thread : Thread) (program : Program) (progress : Progress Flow) :
    (thread.settle program progress).2.id = thread.id := by
  cases progress with
  | failed | blocked => rfl
  | done flow =>
    cases flow with
    | next | jump | enter => exact id_goto _ _ _
    | leave =>
      simp only [settle, follow]
      split
      · exact id_goto _ _ _
      · rfl

theorem id_step (thread : Thread) (program : Program) (world : World) :
    (thread.step program world).2.1.id = thread.id := by
  unfold Thread.step
  split
  · rfl
  · rfl
  · exact id_settle _ _ _
  · split
    · rfl
    · exact id_settle _ _ _

/-- A thread that was directed somewhere has nothing to repeat. -/
theorem owed?_follow (thread : Thread) (program : Program) (flow : Flow) :
    (thread.follow program flow).2.owed? = none := by
  have hgoto : ∀ (thread : Thread) (index : Nat),
      (thread.goto program index).2.owed? = none := by
    intro thread index
    unfold Thread.goto
    split <;> rfl
  cases flow with
  | next | jump | enter => exact hgoto _ _
  | leave =>
    unfold follow
    dsimp only
    split
    · exact hgoto _ _
    · rfl

theorem owed?_settle (thread : Thread) (program : Program) (progress : Progress Flow) :
    (thread.settle program progress).2.owed? = progress.pending? := by
  cases progress with
  | failed | blocked => rfl
  | done flow => exact thread.owed?_follow program flow

end Thread

section Paced

variable {α : Type}

theorem Action.paced_attempts (action : Action α) (world : World) :
    Paced none (action.attempts world) (action.run world).1.pending? := by
  induction action generalizing world with
  | done | fail => exact .nil none
  | ask request next ih =>
    unfold Action.attempts Action.run
    cases hperform : world.perform false request with
    | error error => exact .nil none
    | ok result =>
      obtain ⟨outcome, after⟩ := result
      cases outcome with
      | ready answer => exact .first (ih answer after)
      | blocked block => exact .first (.nil _)

/-- An action that goes on after a wait repeats the call first. Where this is refused, nothing
follows. -/
theorem Suspension.paced_attempts (rest : Suspension α) (world : World) :
    ∃ last?, Paced (some rest.request) (rest.attempts world) last? ∧
      ((∀ fault, (rest.resume world).1 ≠ .failed fault) →
        last? = (rest.resume world).1.pending?) := by
  unfold Suspension.attempts Suspension.resume
  cases hperform : world.perform true rest.request with
  | error error => exact ⟨_, .nil _, fun hfails => absurd rfl (hfails _)⟩
  | ok result =>
    obtain ⟨outcome, after⟩ := result
    cases outcome with
    | ready answer => exact ⟨_, .again ((rest.next answer).paced_attempts after), fun _ => rfl⟩
    | blocked block => exact ⟨_, .again (.nil _), fun _ => rfl⟩

end Paced

namespace Thread

variable {program : Program} {world : World}

/-- In its turn a thread first repeats what it has to repeat. -/
theorem paced_turn (thread : Thread) (program : Program) (world : World) :
    ∃ last?, Paced thread.owed? (thread.unblock.attempts program world) last? ∧
      ((thread.unblock.step program world).2.1.isFinished = false →
        last? = (thread.unblock.step program world).2.1.owed?) := by
  rw [← owed?_unblock]
  generalize thread.unblock = thread
  cases hphase : thread.phase with
  | finished | waiting =>
    simp only [Thread.attempts, Thread.step, hphase]
    exact ⟨_, .nil _, fun _ => rfl⟩
  | woken rest =>
    have howed : thread.owed? = some rest.request := by simp only [owed?, hphase]
    obtain ⟨last?, hpaced, hlast⟩ := rest.paced_attempts world
    simp only [Thread.attempts, Thread.step, howed, hphase]
    refine ⟨last?, hpaced, fun hgoes => ?_⟩
    rw [owed?_settle]
    apply hlast
    intro fault hfault
    simp [hfault, settle, finish, isFinished] at hgoes
  | ready =>
    have howed : thread.owed? = none := by simp only [owed?, hphase]
    cases hstatement : program.get? thread.ip with
    | none =>
      simp only [Thread.attempts, Thread.step, howed, hphase, hstatement]
      exact ⟨_, .nil _, fun _ => rfl⟩
    | some statement =>
      simp only [Thread.attempts, Thread.step, howed, hphase, hstatement]
      refine ⟨_, Action.paced_attempts _ world, fun _ => ?_⟩
      exact (owed?_settle thread program _).symm

/-- What a thread may do after its turn, it may do in and after its turn. -/
theorem Expects.turn {thread : Thread} {log : List Attempt}
    (hnext : (thread.unblock.step program world).2.1.Expects log) :
    thread.Expects (thread.unblock.attempts program world ++ log) := by
  constructor
  case finished =>
    intro hfinished
    obtain ⟨id, ip, returns, phase⟩ := thread
    cases phase with
    | finished => exact hnext.finished rfl
    | ready | waiting | woken => cases hfinished
  case paced =>
    obtain ⟨middle?, hpaced, hmiddle⟩ := thread.paced_turn program world
    cases hfinished : (thread.unblock.step program world).2.1.isFinished with
    | true =>
      rw [hnext.finished hfinished, List.append_nil]
      exact ⟨middle?, hpaced⟩
    | false =>
      obtain ⟨last?, hlast⟩ := hnext.paced
      rw [← hmiddle hfinished] at hlast
      exact ⟨last?, hpaced.append hlast⟩

end Thread

/-! ## Runs and their threads -/

namespace Machine

section Rounds

variable {program : Program} {now : Nat} {threads : List Thread} {world : World}
  {entries : List Entry} {after : Round}

theorem id_of_step {thread next : Thread} {later : World} {report : Thread.Report}
    (hstep : thread.unblock.step program world = (report, next, later)) : next.id = thread.id := by
  have hid := thread.unblock.id_step program world
  rwa [hstep, thread.id_unblock] at hid

theorem nodup_ids_cons {first : Thread} {rest : List Thread} :
    ((first :: rest).map (·.id)).Nodup ↔
      first.id ∉ rest.map (·.id) ∧ (rest.map (·.id)).Nodup := List.nodup_cons

theorem ne_of_not_mem_ids {first thread : Thread} {rest : List Thread}
    (hnew : first.id ∉ rest.map (·.id)) (hthread : thread ∈ rest) : first.id ≠ thread.id :=
  fun hsame => hnew (hsame ▸ List.mem_map_of_mem hthread)

/-- A round keeps the numbers of the threads. -/
theorem Rounds.map_id (hrounds : Rounds program now threads world entries after) :
    after.threads.map (·.id) = threads.map (·.id) := by
  induction hrounds with
  | nil => rfl
  | parked _ _ ih => simp [ih]
  | fails rest _ hstep => simp [id_of_step hstep]
  | ends rest _ hstep => simp [id_of_step hstep]
  | turn _ hstep _ _ _ ih => simp [id_of_step hstep, ih]

/-- In a round only its threads do something. -/
theorem Rounds.thread_mem (hrounds : Rounds program now threads world entries after) :
    ∀ entry ∈ entries, entry.thread ∈ threads.map (·.id) := by
  induction hrounds with
  | nil => simp
  | parked _ _ ih => exact fun entry hentry => List.mem_cons_of_mem _ (ih entry hentry)
  | fails | ends =>
    intro entry hentry
    exact List.mem_cons.2 (.inl (World.thread_of_mem_entries hentry))
  | turn _ _ _ _ _ ih =>
    intro entry hentry
    rcases List.mem_append.1 hentry with hentry | hentry
    · exact List.mem_cons.2 (.inl (World.thread_of_mem_entries hentry))
    · exact List.mem_cons_of_mem _ (ih entry hentry)

theorem Rounds.attemptsOf_eq_nil (hrounds : Rounds program now threads world entries after)
    {id : Nat} (hid : id ∉ threads.map (·.id)) : attemptsOf id entries = [] :=
  SmallBasic.attemptsOf_eq_nil fun entry hentry hsame =>
    hid (hsame ▸ hrounds.thread_mem entry hentry)

theorem attemptsOf_turn_of_ne {thread : Thread} {id : Nat} (hid : thread.id ≠ id) :
    attemptsOf id (thread.entries program world) = [] :=
  attemptsOf_eq_nil fun _ hentry => World.thread_of_mem_entries hentry ▸ hid

/-- What a thread may do after a round, it may do in and after the round. -/
theorem Rounds.expects (hrounds : Rounds program now threads world entries after)
    (hnodup : (threads.map (·.id)).Nodup) : ∀ thread ∈ threads, ∃ next ∈ after.threads,
      next.id = thread.id ∧
        ∀ log, next.Expects log → thread.Expects (attemptsOf thread.id entries ++ log) := by
  induction hrounds with
  | nil => simp
  | @parked first rest _ entries after _ hrest ih =>
    obtain ⟨hnew, hnodup⟩ := nodup_ids_cons.1 hnodup
    intro thread hthread
    rcases List.mem_cons.1 hthread with rfl | hthread
    · refine ⟨thread, List.mem_cons_self, rfl, fun log hlog => ?_⟩
      rwa [hrest.attemptsOf_eq_nil hnew]
    · obtain ⟨next, hnext, hexpects⟩ := ih hnodup thread hthread
      exact ⟨next, List.mem_cons_of_mem _ hnext, hexpects⟩
  | @fails first next _ _ _ rest _ hstep | @ends first next _ _ _ rest _ hstep =>
    obtain ⟨hnew, -⟩ := nodup_ids_cons.1 hnodup
    intro thread hthread
    rcases List.mem_cons.1 hthread with rfl | hthread
    · refine ⟨next, List.mem_cons_self, id_of_step hstep, fun log hlog => ?_⟩
      rw [thread.attemptsOf_entries]
      exact .turn (by rwa [hstep])
    · refine ⟨thread, List.mem_cons_of_mem _ hthread, rfl, fun log hlog => ?_⟩
      rwa [attemptsOf_turn_of_ne (ne_of_not_mem_ids hnew hthread)]
  | @turn first next rest _ _ _ entries after _ hstep _ _ hrest ih =>
    obtain ⟨hnew, hnodup⟩ := nodup_ids_cons.1 hnodup
    intro thread hthread
    rcases List.mem_cons.1 hthread with rfl | hthread
    · refine ⟨next, List.mem_cons_self, id_of_step hstep, fun log hlog => ?_⟩
      rw [attemptsOf_append, thread.attemptsOf_entries, hrest.attemptsOf_eq_nil hnew,
        List.append_nil]
      exact .turn (by rwa [hstep])
    · obtain ⟨after, hafter, hid, hexpects⟩ := ih hnodup thread hthread
      refine ⟨after, List.mem_cons_of_mem _ hafter, hid, fun log hlog => ?_⟩
      rw [attemptsOf_append, attemptsOf_turn_of_ne (ne_of_not_mem_ids hnew hthread),
        List.nil_append]
      exact hexpects log hlog

end Rounds

/-- Every thread has a number of its own, and the next number is new. -/
structure Numbered (machine : Machine) : Prop where
  nodup : (machine.threads.map (·.id)).Nodup
  lt : ∀ thread ∈ machine.threads, thread.id < machine.nextId

/-- The threads of the machine, and those that are started later, may go on to make these
entries. -/
structure Expects (machine : Machine) (entries : List Entry) : Prop where
  present : ∀ thread ∈ machine.threads, thread.Expects (attemptsOf thread.id entries)
  gone : ∀ id < machine.nextId, (∀ thread ∈ machine.threads, thread.id ≠ id) →
    attemptsOf id entries = []
  coming : ∀ id ≥ machine.nextId, ∃ last?, Paced none (attemptsOf id entries) last?

theorem expects_nil (machine : Machine) : machine.Expects [] :=
  ⟨fun thread _ => thread.expects_nil, fun _ _ _ => rfl, fun _ _ => ⟨_, .nil _⟩⟩

variable {machine next : Machine} {entries more : List Entry}

theorem Numbered.spawn (hnumbered : machine.Numbered) (ip : Nat) : (machine.spawn ip).Numbered := by
  constructor
  case nodup =>
    simp only [Machine.spawn, List.map_append, List.map_cons, List.map_nil]
    rw [List.nodup_append]
    refine ⟨hnumbered.nodup, by simp, ?_⟩
    intro id hid other hother hsame
    obtain ⟨thread, hthread, rfl⟩ := List.mem_map.1 hid
    obtain rfl := List.mem_singleton.1 hother
    exact absurd hsame (Nat.ne_of_lt (hnumbered.lt thread hthread))
  case lt =>
    intro thread hthread
    rcases List.mem_append.1 hthread with hthread | hthread
    · exact Nat.lt_succ_of_lt (hnumbered.lt thread hthread)
    · obtain rfl := List.mem_singleton.1 hthread
      exact Nat.lt_succ_self _

theorem Expects.of_spawn {ip : Nat} (hspawn : (machine.spawn ip).Expects entries) :
    machine.Expects entries := by
  constructor
  case present =>
    intro thread hthread
    exact hspawn.present thread (List.mem_append_left _ hthread)
  case gone =>
    intro id hid hnone
    refine hspawn.gone id (Nat.lt_succ_of_lt hid) fun thread hthread => ?_
    rcases List.mem_append.1 hthread with hthread | hthread
    · exact hnone thread hthread
    · obtain rfl := List.mem_singleton.1 hthread
      exact Nat.ne_of_gt hid
  case coming =>
    intro id hid
    rcases Nat.eq_or_lt_of_le hid with rfl | hlt
    · have hnew := List.mem_append_right machine.threads
        (List.mem_singleton_self (Thread.start machine.program machine.nextId ip))
      exact (hspawn.present _ hnew).paced
    · exact hspawn.coming id hlt

/-- What a tick does, unless the program has ended: its threads make a round, after which some may
be gone. -/
theorem exists_rounds (machine : Machine) (now : Nat) (hended : machine.ended = false) :
    ∃ after, Rounds machine.program now (machine.awaken now).2.threads (machine.awaken now).2.world
        (machine.entries now) after ∧
      (machine.tick now).2.program = machine.program ∧
      (machine.tick now).2.world = after.world ∧
      (machine.tick now).2.nextId = (machine.awaken now).2.nextId ∧
      (machine.tick now).2.threads.Sublist after.threads := by
  have hprogram := machine.program_awaken now
  have hrounds := rounds_round machine.program now (machine.awaken now).2.threads
    (machine.awaken now).2.world
  have hentries : machine.entries now = roundEntries machine.program now
      (machine.awaken now).2.threads (machine.awaken now).2.world := by
    simp [entries, hended, hprogram]
  refine ⟨_, hentries ▸ hrounds, ?_⟩
  simp only [tick, hended, Bool.false_eq_true, if_false, hprogram]
  split
  · exact ⟨rfl, rfl, rfl, List.Sublist.refl _⟩
  · refine ⟨rfl, rfl, rfl, ?_⟩
    split
    · exact List.nil_sublist _
    · exact List.filter_sublist

/-- What the threads may do after a tick, they may do in and after the tick. -/
theorem Expects.of_rounds {now : Nat} {world : World} {after : Round}
    (hnumbered : machine.Numbered)
    (hrounds : Rounds machine.program now machine.threads world entries after)
    (hnextId : next.nextId = machine.nextId) (hthreads : next.threads.Sublist after.threads)
    (hnext : next.Expects more) : machine.Expects (entries ++ more) := by
  have hids := hrounds.map_id
  have hmem : ∀ thread ∈ next.threads, thread.id ∈ machine.threads.map (·.id) := by
    intro thread hthread
    rw [← hids]
    exact List.mem_map_of_mem (hthreads.subset hthread)
  constructor
  case present =>
    intro thread hthread
    obtain ⟨later, hlater, hid, hexpects⟩ := hrounds.expects hnumbered.nodup thread hthread
    rw [attemptsOf_append]
    apply hexpects
    rw [← hid]
    by_cases hstays : later ∈ next.threads
    · exact hnext.present later hstays
    · -- A thread that is gone does nothing any more.
      have hgone : ∀ other ∈ next.threads, other.id ≠ later.id := by
        intro other hother hsame
        have heq := List.inj_on_of_nodup_map (hids ▸ hnumbered.nodup) (hthreads.subset hother)
          hlater hsame
        exact hstays (heq ▸ hother)
      rw [hnext.gone later.id (hnextId ▸ hid ▸ hnumbered.lt thread hthread) hgone]
      exact later.expects_nil
  case gone =>
    intro id hid hnone
    have hnot : id ∉ machine.threads.map (·.id) := by
      intro hmem
      obtain ⟨thread, hthread, hsame⟩ := List.mem_map.1 hmem
      exact hnone thread hthread hsame
    rw [attemptsOf_append, hrounds.attemptsOf_eq_nil hnot, List.nil_append]
    exact hnext.gone id (hnextId ▸ hid) fun thread hthread hsame =>
      hnot (hsame ▸ hmem thread hthread)
  case coming =>
    intro id hid
    have hnot : id ∉ machine.threads.map (·.id) := by
      intro hmem
      obtain ⟨thread, hthread, rfl⟩ := List.mem_map.1 hmem
      exact absurd (hnumbered.lt thread hthread) (Nat.not_lt.2 hid)
    rw [attemptsOf_append, hrounds.attemptsOf_eq_nil hnot, List.nil_append]
    exact hnext.coming id (hnextId ▸ hid)

/-- The beginning of a tick changes the world, and may start a thread. -/
theorem awaken_eq (machine : Machine) (now : Nat) :
    ∃ world : World, (machine.awaken now).2 = { machine with world } ∨
      ∃ ip, (machine.awaken now).2 = { machine with world }.spawn ip := by
  refine ⟨machine.world.withLibrary ((machine.world.library.setNow now).due now).2, ?_⟩
  unfold awaken
  dsimp only
  split
  · exact .inr ⟨_, rfl⟩
  · exact .inl rfl

theorem Numbered.awaken (hnumbered : machine.Numbered) (now : Nat) :
    (machine.awaken now).2.Numbered := by
  obtain ⟨world, hawaken | ⟨ip, hawaken⟩⟩ := machine.awaken_eq now
  · rw [hawaken]
    exact ⟨hnumbered.nodup, hnumbered.lt⟩
  · have hsame : { machine with world }.Numbered := ⟨hnumbered.nodup, hnumbered.lt⟩
    rw [hawaken]
    exact hsame.spawn ip

theorem Expects.of_awaken {now : Nat} (hawake : (machine.awaken now).2.Expects entries) :
    machine.Expects entries := by
  obtain ⟨world, hawaken | ⟨ip, hawaken⟩⟩ := machine.awaken_eq now
  · rw [hawaken] at hawake
    exact ⟨hawake.present, hawake.gone, hawake.coming⟩
  · rw [hawaken] at hawake
    have hspawn := hawake.of_spawn
    exact ⟨hspawn.present, hspawn.gone, hspawn.coming⟩

theorem Numbered.tick (hnumbered : machine.Numbered) (now : Nat) :
    (machine.tick now).2.Numbered := by
  cases hended : machine.ended with
  | true => simpa [Machine.tick, hended] using hnumbered
  | false =>
    obtain ⟨after, hrounds, -, -, hnextId, hthreads⟩ := machine.exists_rounds now hended
    have hawake := hnumbered.awaken now
    have hids := hrounds.map_id
    refine ⟨(hids ▸ hawake.nodup).sublist (hthreads.map _), fun thread hthread => ?_⟩
    have hmem : thread.id ∈ (machine.awaken now).2.threads.map (·.id) := by
      rw [← hids]
      exact List.mem_map_of_mem (hthreads.subset hthread)
    obtain ⟨old, hold, hsame⟩ := List.mem_map.1 hmem
    rw [hnextId, ← hsame]
    exact hawake.lt old hold

theorem Expects.of_tick {now : Nat} (hnumbered : machine.Numbered)
    (hnext : (machine.tick now).2.Expects more) :
    machine.Expects (machine.entries now ++ more) := by
  cases hended : machine.ended with
  | true => simpa [Machine.tick, Machine.entries, hended] using hnext
  | false =>
    obtain ⟨after, hrounds, -, -, hnextId, hthreads⟩ := machine.exists_rounds now hended
    rw [← machine.program_awaken now] at hrounds
    exact (hnext.of_rounds (hnumbered.awaken now) hrounds hnextId hthreads).of_awaken

theorem Numbered.apply (hnumbered : machine.Numbered) (move : Move) :
    (machine.apply move).Numbered := by
  cases move with
  | tick now => exact hnumbered.tick now
  | spawn ip => exact hnumbered.spawn ip
  | push | close => exact ⟨hnumbered.nodup, hnumbered.lt⟩

/-- The threads of a machine do what they may do. -/
theorem Numbered.expects_history (hnumbered : machine.Numbered) (moves : List Move) :
    machine.Expects (machine.history moves) := by
  induction moves generalizing machine with
  | nil => exact machine.expects_nil
  | cons move moves ih =>
    have hnext := ih (hnumbered.apply move)
    cases move with
    | tick now => exact .of_tick hnumbered hnext
    | spawn ip => exact hnext.of_spawn
    | push | close => exact ⟨hnext.present, hnext.gone, hnext.coming⟩

theorem numbered_start (program : Program) (library : Library) :
    (Machine.start program library).Numbered := by
  have hempty : ({ program, world := { library } } : Machine).Numbered := ⟨by simp, by simp⟩
  unfold Machine.start
  dsimp only
  split
  · exact hempty.spawn 0
  · exact hempty

/-- From the start on, each thread makes its requests one after the other. -/
theorem paced_history (program : Program) (library : Library) (moves : List Move) (id : Nat) :
    ∃ last?, Paced none
      (attemptsOf id ((Machine.start program library).history moves)) last? := by
  have hexpects := (numbered_start program library).expects_history moves
  have hempty : ({ program, world := { library } } : Machine).Expects
      ((Machine.start program library).history moves) := by
    generalize (Machine.start program library).history moves = entries at hexpects
    unfold Machine.start at hexpects
    dsimp only at hexpects
    split at hexpects
    · exact hexpects.of_spawn
    · exact hexpects
  exact hempty.coming id (Nat.zero_le id)

end Machine

end SmallBasic
