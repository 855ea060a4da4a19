import Mathlib.Data.List.SplitBy
import SmallBasic.Proofs.History

/-!
# Calls

The attempts of a thread fall into calls: a request is made once as a new one, and then repeated as
long as it has to wait. A call is repeated only when what it waits for has come, and nothing that
other threads do comes between the check and the repetition. Both hold in every run of every
program.

## Main definitions

* `callsOf` — the calls of a thread.
* `IsCall` — attempts of one request, all but the last of which had to wait.
* `Entry.Timely` — a repetition finds that what was waited for has come.
* `Thread.Orderly` — a thread waits, if at all, for what its request asked for.

## Main statements

* `Machine.exists_isCall` — what `callsOf` gives are calls.
* `Machine.timely_of_mem_history` — no call is repeated too early.
-/

namespace SmallBasic

/-! ## The calls of a thread -/

/-- The calls of a thread among some entries. A request that is not resumed begins a call. -/
def callsOf (thread : Nat) (entries : List Entry) : List (List Entry) :=
  (entries.filter (·.thread == thread)).splitBy fun _ entry => entry.attempt.resumed

/-- The entries are those of one request, of which all but the last had to wait. All but the first
are resumed. -/
inductive IsCall (request : Request) : (resumed : Bool) → List Entry → Prop
  | last {resumed : Bool} {entry : Entry} (hrequest : entry.attempt.request = request)
      (hresumed : entry.attempt.resumed = resumed) : IsCall request resumed [entry]
  | wait {resumed : Bool} {entry : Entry} {rest : List Entry} {block : Block}
      (hrequest : entry.attempt.request = request) (hresumed : entry.attempt.resumed = resumed)
      (hblocked : entry.attempt.outcome = .blocked block) (hrest : IsCall request true rest) :
      IsCall request resumed (entry :: rest)

/-- The calls of a thread are all that it does. -/
theorem flatten_callsOf (thread : Nat) (entries : List Entry) :
    (callsOf thread entries).flatten = entries.filter (·.thread == thread) :=
  List.flatten_splitBy _ _

theorem mem_of_mem_callsOf {thread : Nat} {entries call : List Entry}
    (hcall : call ∈ callsOf thread entries) {entry : Entry} (hentry : entry ∈ call) :
    entry ∈ entries := by
  have hflat := List.mem_flatten_of_mem hcall hentry
  rw [flatten_callsOf] at hflat
  exact List.mem_of_mem_filter hflat

/-- The attempt takes up the request that is to be repeated, or is a new one if there is none. -/
def Attempt.TakesUp (attempt : Attempt) (pending? : Option Request) : Prop :=
  attempt.resumed = pending?.isSome ∧ ∀ request ∈ pending?, attempt.request = request

section Paced

variable {pending? last? : Option Request} {log : List Attempt}

theorem Paced.takesUp_head (hpaced : Paced pending? log last?) :
    ∀ attempt ∈ log.head?, attempt.TakesUp pending? := by
  cases hpaced with
  | nil => simp
  | first _ | again _ =>
    intro attempt hattempt
    obtain rfl := Option.some.inj hattempt
    simp [Attempt.TakesUp]

/-- Each attempt takes up what the one before it has left. -/
theorem Paced.isChain (hpaced : Paced pending? log last?) :
    log.IsChain fun attempt next => next.TakesUp attempt.pending? := by
  induction hpaced with
  | nil => exact .nil
  | first hrest ih | again hrest ih => exact List.isChain_cons.2 ⟨hrest.takesUp_head, ih⟩

end Paced

section Split

variable {thread : Nat} {entries call : List Entry}

/-- A call begins with a new request, if the first entry of all is one. -/
theorem resumed_head_of_mem_callsOf
    (hnew : ∀ entry ∈ (entries.filter (·.thread == thread)).head?, entry.attempt.resumed = false)
    (hcall : call ∈ callsOf thread entries) :
    ∃ entry rest, call = entry :: rest ∧ entry.attempt.resumed = false := by
  unfold callsOf at hcall
  generalize entries.filter (·.thread == thread) = own at hnew hcall
  have hnonempty : own ≠ [] := by
    rintro rfl
    simp at hcall
  have hfirst := List.head_head_splitBy (fun _ entry : Entry => entry.attempt.resumed) hnonempty
  have hchain :=
    List.isChain_getLast_head_splitBy (fun _ entry : Entry => entry.attempt.resumed) own
  have hcalls : own.splitBy (fun _ entry : Entry => entry.attempt.resumed) ≠ [] :=
    List.splitBy_ne_nil.2 hnonempty
  have hbegins : ∀ call ∈ own.splitBy (fun _ entry : Entry => entry.attempt.resumed),
      ∃ h : call ≠ [], (call.head h).attempt.resumed = false := by
    refine hchain.induction _ _ ?_ ?_
    · rintro first next ⟨-, hnext, hresumed⟩ -
      exact ⟨hnext, hresumed⟩
    · intro _
      refine ⟨List.ne_nil_of_mem_splitBy (List.head_mem hcalls), ?_⟩
      rw [hfirst]
      exact hnew _ (List.head_mem_head? hnonempty)
  obtain ⟨hne, hresumed⟩ := hbegins call hcall
  obtain ⟨entry, rest, rfl⟩ := List.exists_cons_of_ne_nil hne
  exact ⟨entry, rest, rfl, hresumed⟩

/-- Entries of which each takes up what the one before it has left, and of which all but the first
are resumed, make a call. -/
theorem isCall_of_isChain {entry : Entry} {rest : List Entry}
    (hchain : (entry :: rest).IsChain fun first next =>
      next.attempt.TakesUp first.attempt.pending?)
    (hresumed : (entry :: rest).IsChain fun _ next => next.attempt.resumed) :
    IsCall entry.attempt.request entry.attempt.resumed (entry :: rest) := by
  induction rest generalizing entry with
  | nil => exact .last rfl rfl
  | cons next rest ih =>
    obtain ⟨htakesUp, hchain⟩ := List.isChain_cons_cons.1 hchain
    obtain ⟨hagain, hresumed⟩ := List.isChain_cons_cons.1 hresumed
    have hrest := ih hchain hresumed
    rw [hagain] at hrest
    cases houtcome : entry.attempt.outcome with
    | ready answer => simp [Attempt.TakesUp, Attempt.pending?, houtcome, hagain] at htakesUp
    | blocked block =>
      have hrequest : next.attempt.request = entry.attempt.request :=
        htakesUp.2 _ (by simp [Attempt.pending?, houtcome])
      exact .wait rfl rfl houtcome (hrequest ▸ hrest)

/-- Where a thread makes its requests one after the other, its calls are calls of one request
each. -/
theorem exists_isCall_of_paced {last? : Option Request}
    (hpaced : Paced none (attemptsOf thread entries) last?)
    (hcall : call ∈ callsOf thread entries) : ∃ request, IsCall request false call := by
  have hnew : ∀ entry ∈ (entries.filter (·.thread == thread)).head?,
      entry.attempt.resumed = false := by
    intro entry hentry
    refine (hpaced.takesUp_head entry.attempt ?_).1
    rw [attemptsOf, List.head?_map, hentry]
    rfl
  obtain ⟨entry, rest, rfl, hfirst⟩ := resumed_head_of_mem_callsOf hnew hcall
  have hwithin : (entry :: rest) <:+: entries.filter (·.thread == thread) := by
    rw [← flatten_callsOf]
    exact List.infix_of_mem_flatten hcall
  have hchain := (List.isChain_map _).1 hpaced.isChain
  have hown := List.IsChain.infix hchain hwithin
  rw [← hfirst]
  exact ⟨_, isCall_of_isChain hown (List.isChain_of_mem_splitBy hcall)⟩

end Split

/-! ## Repetitions -/

/-- The request may have to wait for this. -/
def Request.WaitsFor (r : Request) (block : Block) : Prop :=
  ∃ (world : World) (resumed : Bool) (next : World),
    world.perform resumed r = .ok (.blocked block, next)

/-- If the attempt is a repetition, what its request waits for has come. -/
def Entry.Timely (entry : Entry) : Prop :=
  entry.attempt.resumed = true → ∃ block now, entry.attempt.request.WaitsFor block ∧
    entry.before.library.isResolved now block = true

/-- A thread between two turns. If it waits, it waits for what its request asked for. -/
def Thread.Orderly (thread : Thread) : Prop :=
  match thread.phase with
  | .ready | .finished => True
  | .waiting block rest => rest.request.WaitsFor block
  | .woken _ => False

section Progress

variable {α : Type}

/-- A statement that waits, waits for what its request asked for. -/
def Progress.Orderly (progress : Progress α) : Prop :=
  ∀ block rest, progress = .blocked block rest → rest.request.WaitsFor block

theorem Action.orderly_run (action : Action α) (world : World) :
    (action.run world).1.Orderly := by
  induction action generalizing world with
  | done | fail => exact fun _ _ hblocked => by cases hblocked
  | ask request next ih =>
    unfold Action.run
    cases hperform : world.perform false request with
    | error error => exact fun _ _ hblocked => by cases hblocked
    | ok result =>
      obtain ⟨outcome, after⟩ := result
      cases outcome with
      | ready answer => exact ih answer after
      | blocked block =>
        rintro _ _ ⟨⟩
        exact ⟨world, false, after, hperform⟩

theorem Suspension.orderly_resume (rest : Suspension α) (world : World) :
    (rest.resume world).1.Orderly := by
  unfold Suspension.resume
  cases hperform : world.perform true rest.request with
  | error error => exact fun _ _ hblocked => by cases hblocked
  | ok result =>
    obtain ⟨outcome, after⟩ := result
    cases outcome with
    | ready answer => exact (rest.next answer).orderly_run after
    | blocked block =>
      rintro _ _ ⟨⟩
      exact ⟨world, true, after, hperform⟩

/-- An action that is run makes new requests only. -/
theorem Action.not_resumed_of_mem_attempts (action : Action α) {world : World} {attempt : Attempt}
    (hattempt : attempt ∈ action.attempts world) : attempt.resumed = false := by
  induction action generalizing world with
  | done | fail => cases hattempt
  | ask request next ih =>
    unfold Action.attempts at hattempt
    cases hperform : world.perform false request with
    | error error => simp [hperform] at hattempt
    | ok result =>
      obtain ⟨outcome, after⟩ := result
      rw [hperform] at hattempt
      cases outcome with
      | ready answer =>
        rcases List.mem_cons.1 hattempt with rfl | hattempt
        · rfl
        · exact ih answer hattempt
      | blocked block =>
        obtain rfl := List.mem_singleton.1 hattempt
        rfl

end Progress

theorem World.attempt_of_mem_entries {thread : Nat} {world : World} {log : List Attempt}
    {entry : Entry} (hentry : entry ∈ World.entries thread world log) : entry.attempt ∈ log := by
  induction log generalizing world with
  | nil => simp [World.entries] at hentry
  | cons attempt log ih =>
    unfold World.entries at hentry
    split at hentry
    · rcases List.mem_cons.1 hentry with rfl | hentry
      · exact List.mem_cons_self
      · exact List.mem_cons_of_mem _ (ih hentry)
    · simp at hentry

theorem Entry.timely_of_new {entry : Entry} (hnew : entry.attempt.resumed = false) :
    entry.Timely := by
  intro hresumed
  rw [hnew] at hresumed
  cases hresumed

/-- Going on with a statement in a world in which what it waits for has come. -/
theorem Suspension.timely_entries {rest : Suspension Flow} {world : World} {now : Nat}
    {block : Block} (hwaits : rest.request.WaitsFor block)
    (hresolved : world.library.isResolved now block = true) {id : Nat} {entry : Entry}
    (hentry : entry ∈ World.entries id world (rest.attempts world)) : entry.Timely := by
  unfold Suspension.attempts at hentry
  cases hperform : world.perform true rest.request with
  | error error => simp [hperform, World.entries] at hentry
  | ok result =>
    obtain ⟨outcome, after⟩ := result
    rw [hperform] at hentry
    cases outcome with
    | ready answer =>
      simp only [World.entries, hperform, List.mem_cons] at hentry
      rcases hentry with rfl | hentry
      · exact fun _ => ⟨block, now, hwaits, hresolved⟩
      · have hattempt := World.attempt_of_mem_entries hentry
        exact Entry.timely_of_new ((rest.next answer).not_resumed_of_mem_attempts hattempt)
    | blocked other =>
      simp only [World.entries, hperform, List.mem_singleton] at hentry
      subst hentry
      exact fun _ => ⟨block, now, hwaits, hresolved⟩

namespace Thread

variable {thread : Thread} {world : World}

theorem orderly_settle (thread : Thread) (program : Program) {progress : Progress Flow}
    (horderly : progress.Orderly) : (thread.settle program progress).2.Orderly := by
  have hgoto : ∀ (thread : Thread) (index : Nat), (thread.goto program index).2.Orderly := by
    intro thread index
    unfold Thread.goto
    split <;> trivial
  cases progress with
  | failed => trivial
  | blocked block rest => exact horderly block rest rfl
  | done flow =>
    cases flow with
    | next | jump | enter => exact hgoto _ _
    | leave =>
      simp only [settle, follow]
      split
      · exact hgoto _ _
      · trivial

/-- A thread that is not parked repeats its request in time, and is orderly after its turn. -/
theorem Orderly.turn (horderly : thread.Orderly) (program : Program) {now : Nat}
    (hparked : Machine.isParked world now thread = false) :
    (∀ entry ∈ thread.entries program world, entry.Timely) ∧
      (thread.unblock.step program world).2.1.Orderly := by
  cases hphase : thread.phase with
  | woken rest => simp [Orderly, hphase] at horderly
  | finished =>
    simp only [entries, unblock, hphase, attempts, step]
    exact ⟨by simp [World.entries], horderly⟩
  | waiting block rest =>
    have hwaits : rest.request.WaitsFor block := by simpa only [Orderly, hphase] using horderly
    have hresolved : world.library.isResolved now block = true := by
      simpa [Machine.isParked, block?, hphase] using hparked
    simp only [entries, unblock, hphase, attempts, step]
    exact ⟨fun entry hentry => Suspension.timely_entries hwaits hresolved hentry,
      orderly_settle _ program (rest.orderly_resume world)⟩
  | ready =>
    cases hstatement : program.get? thread.ip with
    | none =>
      simp only [entries, unblock, hphase, attempts, step, hstatement]
      exact ⟨by simp [World.entries], trivial⟩
    | some statement =>
      simp only [entries, unblock, hphase, attempts, step, hstatement]
      refine ⟨fun entry hentry => ?_, orderly_settle _ program (Action.orderly_run _ world)⟩
      have hattempt := World.attempt_of_mem_entries hentry
      exact Entry.timely_of_new (Action.not_resumed_of_mem_attempts _ hattempt)

end Thread

namespace Machine

/-- Between two ticks, all threads are orderly. -/
def Orderly (machine : Machine) : Prop := ∀ thread ∈ machine.threads, thread.Orderly

theorem Rounds.timely {program : Program} {now : Nat} {threads : List Thread} {world : World}
    {entries : List Entry} {after : Round}
    (hrounds : Rounds program now threads world entries after)
    (horderly : ∀ thread ∈ threads, thread.Orderly) :
    (∀ entry ∈ entries, entry.Timely) ∧ ∀ thread ∈ after.threads, thread.Orderly := by
  induction hrounds with
  | nil => simp
  | parked _ _ ih =>
    obtain ⟨hfirst, hrest⟩ := List.forall_mem_cons.1 horderly
    exact ⟨(ih hrest).1, List.forall_mem_cons.2 ⟨hfirst, (ih hrest).2⟩⟩
  | fails rest hparked hstep | ends rest hparked hstep =>
    obtain ⟨hfirst, hrest⟩ := List.forall_mem_cons.1 horderly
    obtain ⟨htimely, hnext⟩ := hfirst.turn program hparked
    rw [hstep] at hnext
    exact ⟨htimely, List.forall_mem_cons.2 ⟨hnext, hrest⟩⟩
  | turn hparked hstep _ _ _ ih =>
    obtain ⟨hfirst, hrest⟩ := List.forall_mem_cons.1 horderly
    obtain ⟨htimely, hnext⟩ := hfirst.turn program hparked
    rw [hstep] at hnext
    exact ⟨List.forall_mem_append.2 ⟨htimely, (ih hrest).1⟩,
      List.forall_mem_cons.2 ⟨hnext, (ih hrest).2⟩⟩

variable {machine : Machine}

theorem Orderly.spawn (horderly : machine.Orderly) (ip : Nat) : (machine.spawn ip).Orderly :=
  List.forall_mem_append.2 ⟨horderly, by simp [Thread.start, Thread.Orderly]⟩

theorem Orderly.awaken (horderly : machine.Orderly) (now : Nat) :
    (machine.awaken now).2.Orderly := by
  obtain ⟨world, hawaken | ⟨ip, hawaken⟩⟩ := machine.awaken_eq now
  · rw [hawaken]
    exact horderly
  · have hsame : { machine with world }.Orderly := horderly
    rw [hawaken]
    exact hsame.spawn ip

theorem Orderly.tick (horderly : machine.Orderly) (now : Nat) :
    (∀ entry ∈ machine.entries now, entry.Timely) ∧ (machine.tick now).2.Orderly := by
  cases hended : machine.ended with
  | true => simpa [Machine.tick, Machine.entries, hended] using horderly
  | false =>
    obtain ⟨after, hrounds, -, -, -, hthreads⟩ := machine.exists_rounds now hended
    obtain ⟨htimely, hafter⟩ := hrounds.timely (horderly.awaken now)
    exact ⟨htimely, fun thread hthread => hafter thread (hthreads.subset hthread)⟩

theorem Orderly.apply (horderly : machine.Orderly) (move : Move) :
    (machine.apply move).Orderly := by
  cases move with
  | tick now => exact (horderly.tick now).2
  | spawn ip => exact horderly.spawn ip
  | push | close => exact horderly

theorem Orderly.timely_history (horderly : machine.Orderly) (moves : List Move) :
    ∀ entry ∈ machine.history moves, entry.Timely := by
  induction moves generalizing machine with
  | nil => simp [history]
  | cons move moves ih =>
    have hrest := ih (horderly.apply move)
    cases move with
    | tick now => exact List.forall_mem_append.2 ⟨(horderly.tick now).1, hrest⟩
    | spawn | push | close => exact hrest

theorem orderly_start (program : Program) (library : Library) :
    (Machine.start program library).Orderly := by
  have hempty : ({ program, world := { library } } : Machine).Orderly := by simp [Orderly]
  unfold Machine.start
  dsimp only
  split
  · exact hempty.spawn 0
  · exact hempty

variable {program : Program} {library : Library} {moves : List Move}

/-- Every entry of a history has its outcome in the world that it found. -/
theorem happens_of_mem_history (machine : Machine) (moves : List Move) {entry : Entry}
    (hentry : entry ∈ machine.history moves) : entry.Happens := by
  induction moves generalizing machine with
  | nil => simp [history] at hentry
  | cons move moves ih =>
    cases move with
    | spawn | push | close => exact ih _ hentry
    | tick now =>
      rcases List.mem_append.1 hentry with hentry | hentry
      · cases hended : machine.ended with
        | true => simp [entries, hended] at hentry
        | false =>
          obtain ⟨after, hrounds, -⟩ := machine.exists_rounds now hended
          exact hrounds.unfolds.happens hentry
      · exact ih _ hentry

/-- What a thread does from the start on falls into calls. -/
theorem exists_isCall {id : Nat} {call : List Entry}
    (hcall : call ∈ callsOf id ((Machine.start program library).history moves)) :
    ∃ request, IsCall request false call := by
  obtain ⟨last?, hpaced⟩ := paced_history program library moves id
  exact exists_isCall_of_paced hpaced hcall

/-- No call is repeated before what it waits for has come. -/
theorem timely_of_mem_history {entry : Entry}
    (hentry : entry ∈ (Machine.start program library).history moves) : entry.Timely :=
  (orderly_start program library).timely_history moves entry hentry

end Machine

end SmallBasic
