import SmallBasic.Proofs.ArrayPaths
import SmallBasic.Proofs.Parking
import SmallBasic.Proofs.Returns

/-!
# Updates of array elements

All threads share the variables, and an array is one text in one variable. An assignment to an
element reads this text, changes it and writes it back. It may have to wait many times before, while
its value and its indices are evaluated, but not in between: the text is read and written in the
turn that completes the assignment. So no element that another thread has assigned meanwhile is
lost.

## Main definitions

* `Program.underway` — what a thread has done so far in the statement in which it waits.
* `Turn.Assigns` — the turn completes an assignment to an element.
* `Program.OnlyAssigned` — a variable that is changed only element by element.
* `Program.LastAssigned` — the last assignment to an element.

## Main statements

* `Machine.Bears.after` — what holds of every thread with its turns, in every run.
* `Turn.Assigns.store_eq` — what an assignment to an element does to the variables.
* `Machine.updates_of_parse` — no assignment to an element is lost.
-/

namespace SmallBasic

/-! ## Variables -/

namespace Store

theorem get_set_of_sameName (store : Store) {name other : String} (value : String)
    (hsame : sameName name other = true) : (store.set name value).get other = value := by
  rw [sameName, beq_iff_eq] at hsame
  simp [get, set, Table.get?_insert, hsame]

theorem get_eq_of_sameName (store : Store) {name other : String}
    (hsame : sameName name other = true) : store.get other = store.get name := by
  rw [sameName, beq_iff_eq] at hsame
  simp [get, hsame]

theorem set_eq_of_sameName (store : Store) {name other : String} (value : String)
    (hsame : sameName name other = true) : store.set name value = store.set other value := by
  rw [sameName, beq_iff_eq] at hsame
  simp [set, hsame]

/-- What an exchange does to the variables. -/
def record (store : Store) : Exchange → Store
  | (.writeVariable name value, _) => store.set name value
  | _ => store

end Store

/-- A request that writes a variable. -/
def Request.isWrite : Request → Bool
  | .writeVariable _ _ => true
  | _ => false

theorem Store.foldl_record {log : List Exchange}
    (hlog : ∀ exchange ∈ log, exchange.1.isWrite = false) (store : Store) :
    log.foldl Store.record store = store := by
  induction log with
  | nil => rfl
  | cons exchange log ih =>
    obtain ⟨hfirst, hrest⟩ := List.forall_mem_cons.1 hlog
    have hsame : store.record exchange = store := by
      obtain ⟨request, answer⟩ := exchange
      cases request with
      | writeVariable => cases hfirst
      | _ => rfl
    rw [List.foldl_cons, hsame, ih hrest]

mutual

/-- The evaluation of an expression writes no variable. -/
theorem Expr.Yields.not_isWrite : {e : Expr} → {log : List Exchange} → {value : String} →
    e.Yields log value → ∀ exchange ∈ log, exchange.1.isWrite = false
  | _, _, _, .literal _ => by simp
  | _, _, _, .variable _ hindices =>
    List.forall_mem_append.2 ⟨hindices.not_isWrite, List.forall_mem_singleton.2 rfl⟩
  | _, _, _, .field _ _ => by simp [Request.isWrite]
  | _, _, _, .binary hleft hright =>
    List.forall_mem_append.2 ⟨hleft.not_isWrite, hright.not_isWrite⟩
  | _, _, _, .call _ hargs =>
    List.forall_mem_append.2 ⟨hargs.not_isWrite, List.forall_mem_singleton.2 rfl⟩

theorem Expr.YieldAll.not_isWrite : {es : List Expr} → {log : List Exchange} →
    {values : List String} → Expr.YieldAll es log values →
      ∀ exchange ∈ log, exchange.1.isWrite = false
  | _, _, _, .nil => by simp
  | _, _, _, .cons hhead htail => List.forall_mem_append.2 ⟨hhead.not_isWrite, htail.not_isWrite⟩

end

namespace World

variable {world next last : World} {log : List Attempt}

/-- An attempt does to the variables what its exchange does, if it comes to one. -/
theorem store_perform {attempt : Attempt}
    (hattempt : world.perform attempt.resumed attempt.request = .ok (attempt.outcome, next)) :
    next.store = attempt.exchange?.toList.foldl Store.record world.store := by
  obtain ⟨request, resumed, outcome⟩ := attempt
  cases request with
  | call method args =>
    obtain ⟨library, -, rfl⟩ := perform_call_iff.1 hattempt
    cases outcome <;> rfl
  | _ =>
    cases hattempt
    rfl

/-- Attempts do to the variables what their exchanges do. -/
theorem Makes.store_eq (hmakes : world.Makes log last) :
    last.store = (exchanges log).foldl Store.record world.store := by
  induction hmakes with
  | nil => rfl
  | @cons world next last attempt log hattempt _ ih =>
    rw [ih, store_perform hattempt, exchanges, exchanges, List.filterMap_cons]
    cases attempt.exchange? <;> rfl

/-- A variable is read as it is at that moment. -/
theorem Makes.read_eq (hmakes : world.Makes log last) {before after : List Exchange}
    {name held : String} (hlog : exchanges log = before ++ (.readVariable name, held) :: after) :
    held = (before.foldl Store.record world.store).get name := by
  induction hmakes generalizing before with
  | nil => simp [exchanges] at hlog
  | @cons world next last attempt log hattempt _ ih =>
    have hstore := store_perform hattempt
    cases hexchange : attempt.exchange? with
    | none =>
      rw [hexchange] at hstore
      rw [exchanges, List.filterMap_cons, hexchange] at hlog
      rw [ih hlog, show next.store = world.store from hstore]
    | some exchange =>
      rw [hexchange] at hstore
      rw [exchanges, List.filterMap_cons, hexchange] at hlog
      rcases before with _ | ⟨first, before⟩
      · obtain ⟨rfl, -⟩ := List.cons.inj hlog
        obtain ⟨request, resumed, outcome⟩ := attempt
        cases outcome with
        | blocked => cases hexchange
        | ready answer =>
          cases hexchange
          cases hattempt
          rfl
      · obtain ⟨rfl, hrest⟩ := List.cons.inj hlog
        rw [ih hrest, show next.store = world.store.record _ from hstore]
        rfl

end World

/-! ## What holds of every thread -/

/-- What holds of a thread with its turns: it holds of every thread that starts, and after every
turn that does not finish the thread. -/
structure Thread.Inductive (program : Program) (P : Thread → List Turn → Prop) : Prop where
  start : ∀ id ip, P (Thread.start program id ip) []
  turn : ∀ turns turn, P turn.thread turns →
    (turn.step program).2.1.isFinished = true ∨ P (turn.step program).2.1 (turns ++ [turn])

namespace Machine

/-- The machine after some turns: `P` holds of each thread with its turns. -/
structure Bears (P : Thread → List Turn → Prop) (machine : Machine) (past : List Turn) : Prop where
  sound : machine.Sound
  numbered : machine.Numbered
  threads : ∀ thread ∈ machine.threads, P thread (turnsOf thread.id past)
  past_lt : ∀ turn ∈ past, turn.thread.id < machine.nextId

variable {P : Thread → List Turn → Prop} {machine : Machine} {past : List Turn}

theorem Bears.spawn (hbears : machine.Bears P past) (hP : Thread.Inductive machine.program P)
    (ip : Nat) : (machine.spawn ip).Bears P past := by
  constructor
  case sound => exact hbears.sound.spawn ip
  case numbered => exact hbears.numbered.spawn ip
  case threads =>
    intro thread hthread
    rcases List.mem_append.1 hthread with hthread | hthread
    · exact hbears.threads thread hthread
    · -- The new thread has a new number, under which there have not been any turns.
      obtain rfl := List.mem_singleton.1 hthread
      have hnone : turnsOf machine.nextId past = [] :=
        turnsOf_eq_nil_iff.2 fun turn hturn => Nat.ne_of_lt (hbears.past_lt turn hturn)
      show P _ (turnsOf machine.nextId past)
      rw [hnone]
      exact hP.start machine.nextId ip
  case past_lt => exact fun turn hturn => Nat.lt_succ_of_lt (hbears.past_lt turn hturn)

theorem Bears.withWorld (hbears : machine.Bears P past) (world : World) :
    { machine with world }.Bears P past :=
  ⟨hbears.sound.withWorld world, ⟨hbears.numbered.nodup, hbears.numbered.lt⟩, hbears.threads,
    hbears.past_lt⟩

theorem Bears.awaken (hbears : machine.Bears P past) (hP : Thread.Inductive machine.program P)
    (now : Nat) : (machine.awaken now).2.Bears P past := by
  obtain ⟨world, hawaken | ⟨ip, hawaken⟩⟩ := machine.awaken_eq now
  · rw [hawaken]
    exact hbears.withWorld world
  · rw [hawaken]
    exact (hbears.withWorld world).spawn hP ip

theorem Bears.tick (hbears : machine.Bears P past) (hP : Thread.Inductive machine.program P)
    (now : Nat) : (machine.tick now).2.Bears P (past ++ machine.turns now) := by
  cases hended : machine.ended with
  | true => simpa [Machine.tick, turns, hended] using hbears
  | false =>
    obtain ⟨after, -, hround, htick⟩ := hbears.sound.exists_goesRound now hended
    have hawake := hbears.awaken hP now
    constructor
    case sound =>
      obtain ⟨report, next, hnext, hsound⟩ := hbears.sound.tick now
      rwa [hnext]
    case numbered => exact hbears.numbered.tick now
    case threads =>
      rw [htick]
      intro next hnext
      simp only [afterRound] at hnext
      split at hnext
      · simp at hnext
      obtain ⟨hnext, hgoing⟩ := List.mem_filter.1 hnext
      obtain ⟨thread, hthread, ⟨hnone, rfl⟩ | ⟨turn, rfl, hturns, rfl⟩⟩ :=
        hround.thread_after hawake.numbered.nodup next hnext
      · rw [turnsOf_append, hnone, List.append_nil]
        exact hawake.threads next hthread
      · have hid : (turn.step machine.program).2.1.id = turn.thread.id := id_of_step rfl
        rw [hid, turnsOf_append, hturns]
        rcases hP.turn _ turn (hawake.threads turn.thread hthread) with hfinished | hlater
        · simp [hfinished] at hgoing
        · exact hlater
    case past_lt =>
      rw [htick]
      intro turn hturn
      rcases List.mem_append.1 hturn with hturn | hturn
      · exact hawake.past_lt turn hturn
      · exact hawake.numbered.lt turn.thread (hround.thread_mem hturn)

theorem Bears.apply (hbears : machine.Bears P past) (hP : Thread.Inductive machine.program P)
    (move : Move) : (machine.apply move).Bears P (past ++ machine.turnHistory [move]) := by
  cases move with simp only [turnHistory, List.append_nil]
  | tick now => exact hbears.tick hP now
  | spawn ip => exact hbears.spawn hP ip
  | push | close => exact hbears.withWorld _

/-- What holds of a thread when it starts and after each of its turns, holds of all threads in every
run. -/
theorem Bears.after (hbears : machine.Bears P past) (hP : Thread.Inductive machine.program P)
    (moves : List Move) : (machine.after moves).Bears P (past ++ machine.turnHistory moves) := by
  induction moves generalizing machine past with
  | nil => simpa [Machine.after, turnHistory] using hbears
  | cons move moves ih =>
    have hprogram : (machine.apply move).program = machine.program := machine.program_after [move]
    rw [turnHistory_cons, ← List.append_assoc]
    exact ih (hbears.apply hP move) (hprogram ▸ hP)

theorem bears_start {program : Program} (hlinked : program.Linked)
    (hP : Thread.Inductive program P) (library : Library) :
    (Machine.start program library).Bears P [] := by
  have hempty : ({ program, world := { library } } : Machine).Bears P [] :=
    ⟨⟨hlinked, by simp⟩, ⟨by simp, by simp⟩, by simp, by simp⟩
  unfold Machine.start
  dsimp only
  split
  · exact hempty.spawn hP 0
  · exact hempty

/-- A turn of a run is had in a tick, after the turns of the ticks before it and after turns of the
same tick. -/
theorem exists_tick_of_turnHistory (machine : Machine) {moves : List Move} {turn : Turn}
    {rest : List Turn} (hsplit : machine.turnHistory moves = past ++ turn :: rest) :
    ∃ before now after earlier later, moves = before ++ .tick now :: after ∧
      (machine.after before).turns now = earlier ++ turn :: later ∧
      past = machine.turnHistory before ++ earlier := by
  induction moves generalizing machine past with
  | nil => simp [turnHistory] at hsplit
  | cons move moves ih =>
    have hlater : ∀ {past}, (machine.apply move).turnHistory moves = past ++ turn :: rest →
        ∃ before now after earlier later, move :: moves = before ++ .tick now :: after ∧
          (machine.after before).turns now = earlier ++ turn :: later ∧
          machine.turnHistory [move] ++ past = machine.turnHistory before ++ earlier := by
      intro past hsplit
      obtain ⟨before, now, after, earlier, later, rfl, hturns, rfl⟩ := ih _ hsplit
      refine ⟨move :: before, now, after, earlier, later, rfl, hturns, ?_⟩
      rw [turnHistory_cons machine move before, List.append_assoc]
    rw [turnHistory_cons] at hsplit
    rcases List.append_eq_append_iff.1 hsplit with ⟨middle, rfl, hrest⟩ | ⟨middle, hfirst, hrest⟩
    · exact hlater hrest
    · cases middle with
      | nil =>
        rw [List.append_nil] at hfirst
        obtain ⟨before, now, after, earlier, later, hmoves, hturns, hpast⟩ :=
          @hlater [] hrest.symm
        exact ⟨before, now, after, earlier, later, hmoves, hturns,
          by rw [← hpast, hfirst, List.append_nil]⟩
      | cons first middle =>
        obtain ⟨rfl, -⟩ := List.cons.inj hrest
        cases move with
        | tick now =>
          rw [turnHistory, turnHistory, List.append_nil] at hfirst
          exact ⟨[], now, moves, past, middle, rfl, hfirst, rfl⟩
        | spawn | push | close => simp [turnHistory] at hfirst

end Machine

/-! ## Statements that wait -/

namespace Program

/-- What a thread has done so far in its statement, after one more turn. A turn that does not end in
a wait ends the statement. -/
def underwayAfter (program : Program) (log : List Attempt) (turn : Turn) : List Attempt :=
  match (turn.step program).1 with
  | .blocked _ => log ++ turn.attempts program
  | _ => []

/-- What a thread has done in its turns in the statement in which it waits, and nothing if it does
not wait. -/
def underway (program : Program) (turns : List Turn) (id : Nat) : List Attempt :=
  (turnsOf id turns).foldl program.underwayAfter []

end Program

namespace Thread

variable {thread : Thread} {program : Program} {statement : Statement} {log : List Attempt}

/-- The thread has done so much in its statement: nothing if it stands before it, and what has
brought it to its call if it waits inside. -/
inductive Underway (thread : Thread) (program : Program) : List Attempt → Prop
  | ready (hphase : thread.phase = .ready) : Underway thread program []
  | waiting {block : Block} {rest : Suspension Flow} {statement : Statement} {log : List Attempt}
      (hphase : thread.phase = .waiting block rest) (hwaits : rest.request.WaitsFor block)
      (hstatement : program.get? thread.ip = some statement)
      (hfollows : (Progress.blocked block rest).Follows (program.execute thread.ip statement) log) :
      Underway thread program log

/-- A turn goes on with the statement from where the thread has come to. -/
theorem Underway.step (hunderway : thread.Underway program log) (hlinked : program.Linked)
    (hstatement : program.get? thread.ip = some statement) (world : World) :
    ∃ progress later,
      progress.Follows (program.execute thread.ip statement)
        (log ++ Turn.attempts ⟨thread, world⟩ program) ∧
      progress.Orderly ∧
      Turn.step ⟨thread, world⟩ program =
        ((thread.settle program progress).1, (thread.settle program progress).2, later) := by
  cases hunderway with
  | ready hphase =>
    refine ⟨_, ((program.execute thread.ip statement).run world).2, ?_,
      (program.execute thread.ip statement).orderly_run world, ?_⟩
    · rw [Turn.attempts, unblock_of_ready hphase, attempts_of_ready hphase hstatement]
      exact Progress.follows_run (hlinked.execute_sound hstatement) world
    · rw [Turn.step, unblock_of_ready hphase, step_of_ready hphase hstatement]
  | @waiting block rest found log hphase hwaits hfound hfollows =>
    obtain rfl := Option.some.inj (hfound.symm.trans hstatement)
    have hunblock : thread.unblock = { thread with phase := .woken rest } := by
      simp only [unblock, hphase]
    refine ⟨_, (rest.resume world).2, ?_, rest.orderly_resume world, ?_⟩
    · rw [Turn.attempts, hunblock]
      exact hfollows.resume world
    · rw [Turn.step, hunblock, Thread.step]
      simp only [settle_phase]

theorem Underway.of_goto (thread : Thread) (program : Program) (index : Nat) :
    (thread.goto program index).2.isFinished = true ∨
      (thread.goto program index).2.Underway program [] := by
  unfold goto
  split
  · exact .inr (.ready rfl)
  · exact .inl rfl

theorem Underway.of_follow (thread : Thread) (program : Program) (flow : Flow) :
    (thread.follow program flow).2.isFinished = true ∨
      (thread.follow program flow).2.Underway program [] := by
  cases flow with
  | next | jump | enter => exact Underway.of_goto _ _ _
  | leave =>
    unfold follow
    dsimp only
    split
    · exact Underway.of_goto _ _ _
    · exact .inl rfl

/-- A thread that is not finished by its turn has done so much in its statement. -/
theorem Underway.turn {turn : Turn} (hunderway : turn.thread.Underway program log)
    (hlinked : program.Linked) :
    (turn.step program).2.1.isFinished = true ∨
      (turn.step program).2.1.Underway program (program.underwayAfter log turn) := by
  obtain ⟨thread, world⟩ := turn
  cases hstatement : program.get? thread.ip with
  | none =>
    -- Past the last statement there is nothing to wait in.
    cases hunderway with
    | ready hphase =>
      have hready : thread.phase = .ready := hphase
      refine .inl ?_
      rw [Turn.step, unblock_of_ready hready]
      simp only [Thread.step, hready, hstatement]
      rfl
    | waiting _ _ hfound => cases hstatement.symm.trans hfound
  | some statement =>
    obtain ⟨progress, later, hfollows, horderly, hstep⟩ :=
      hunderway.step hlinked hstatement world
    simp only [Program.underwayAfter, hstep]
    cases progress with
    | done flow =>
      have hnext := Underway.of_follow thread program flow
      rcases thread.follow_reports program flow with hreport | hreport <;>
        simpa only [settle, hreport] using hnext
    | failed fault => exact hfollows.sound.elim
    | blocked block rest =>
      exact .inr (.waiting rfl (horderly block rest rfl) hstatement hfollows)

/-- Every thread has done so much in its statement as its turns tell. -/
theorem inductive_underway (hlinked : program.Linked) :
    Thread.Inductive program fun thread turns =>
      thread.Underway program (turns.foldl program.underwayAfter []) := by
  constructor
  case start => exact fun id ip => .ready rfl
  case turn =>
    intro turns turn hunderway
    rw [List.foldl_append]
    exact hunderway.turn hlinked

end Thread

/-! ## Assignments to elements -/

/-- The clause is an assignment to an element of a variable, in these exchanges: its right side is
evaluated to the value and its indices to the keys, and then the array is read and written back. -/
inductive Clause.Assigns (name : String) (keys : List String) (value : String) :
    Clause → List Exchange → Prop
  | element {written : String} {indices : List Expr} {e : Expr} {log more : List Exchange}
      (held answer : String) (hname : sameName written name = true) (hindices : indices ≠ [])
      (hvalue : e.Yields log value) (hkeys : Expr.YieldAll indices more keys) :
      Clause.Assigns name keys value (.assign (.variable written indices) e)
        (log ++ more ++ [(.readVariable written, held),
          (.writeVariable written (ArrayText.set held keys value), answer)])

/-- The turn completes an assignment to an element of a variable, in which the right side was
evaluated to the value and the indices to the keys, in this turn and the ones before it. -/
structure Turn.Assigns (turn : Turn) (program : Program) (past : List Turn) (name : String)
    (keys : List String) (value : String) : Prop where
  completes : ∀ block, (turn.step program).1 ≠ .blocked block
  evaluates : ∃ clause, program.clause? turn.thread.ip = some clause ∧
    clause.Assigns name keys value
      (exchanges (program.underway past turn.thread.id ++ turn.attempts program))

theorem exchanges_append (log more : List Attempt) :
    exchanges (log ++ more) = exchanges log ++ exchanges more := List.filterMap_append ..

/-- Where a call comes next, the array has not been read yet. -/
theorem exists_of_call_next {done rest log : List Exchange} {method : Method} {args : List String}
    {answer other name written held value : String}
    (hsplit : done ++ (.call method args, answer) :: rest =
      log ++ [(.readVariable name, held), (.writeVariable written value, other)]) :
    ∃ more, log = done ++ more ∧
      (.call method args, answer) :: rest =
        more ++ [(.readVariable name, held), (.writeVariable written value, other)] := by
  rcases List.append_eq_append_iff.1 hsplit with ⟨more, rfl, hrest⟩ | ⟨more, -, hrest⟩
  · exact ⟨more, rfl, hrest⟩
  · -- What comes next would be the reading or the writing of the array.
    have hmem : (Request.call method args, answer) ∈
        [(Request.readVariable name, held), (.writeVariable written value, other)] := by
      rw [hrest]
      simp
    simp at hmem

/-- An assignment to an element does what its direct evaluation does. -/
theorem Program.Performs.assigns {program : Program} {statement : Statement} {log : List Exchange}
    {flow : Flow} (hperforms : program.Performs statement log flow) {name : String}
    {indices : List Expr} {e : Expr}
    (hclause : statement.clause = .assign (.variable name indices) e) (hindices : indices ≠ []) :
    ∃ keys value, statement.clause.Assigns name keys value log := by
  rw [hclause]
  cases hperforms with
  | assign hassign hvalue hstore =>
    rw [hclause] at hassign
    cases hassign
    cases hstore with
    | «variable» => exact absurd rfl hindices
    | element held answer hkeys =>
      rw [← List.append_assoc]
      exact ⟨_, _, .element held answer (by simp [sameName]) hindices hvalue hkeys⟩
  | pass hother | branch hother =>
    rcases hother with ⟨_, hother⟩ | hother <;> cases hclause.symm.trans hother
  | bind _ hother | invoke _ hother | goto hother | callSub hother | sub hother | endSub hother
  | ifTrue hother | ifFalse hother | whileTrue hother | whileFalse hother | endWhile hother
  | «for» _ hother | endFor _ _ hother => cases hclause.symm.trans hother

theorem Request.WaitsFor.exists_call {r : Request} {block : Block} (hwaits : r.WaitsFor block) :
    ∃ method args, r = .call method args := by
  cases hwaits.cases with
  | readLine | readNumber | pause | delay => exact ⟨_, _, rfl⟩

section Turn

variable {turn : Turn} {program : Program} {past : List Turn}

/-- A turn of a thread that waits has the answer of its call first, unless it has to wait again. -/
theorem Turn.exchanges_attempts {log : List Attempt}
    (hunderway : turn.thread.Underway program log)
    (hends : ∀ block, (turn.step program).1 ≠ .blocked block) :
    log = [] ∨ ∃ method args answer more,
      exchanges (turn.attempts program) = (.call method args, answer) :: more := by
  obtain ⟨thread, world⟩ := turn
  cases hunderway with
  | ready => exact .inl rfl
  | @waiting block rest _ _ hphase hwaits _ _ =>
    have hunblock : thread.unblock = { thread with phase := .woken rest } := by
      simp only [Thread.unblock, show thread.phase = _ from hphase]
    obtain ⟨outcome, next, hperform⟩ := world.exists_perform true hwaits.cases.fits
    obtain ⟨method, args, hcall⟩ := hwaits.exists_call
    cases outcome with
    | blocked again =>
      refine absurd ?_ (hends again)
      simp only [Turn.step, hunblock, Thread.step, Suspension.resume, hperform, Thread.settle]
    | ready answer =>
      refine .inr ⟨method, args, answer, exchanges ((rest.next answer).attempts next), ?_⟩
      simp only [Turn.attempts, hunblock, Thread.attempts, Suspension.attempts, hperform]
      rw [← hcall]
      rfl

/-- What an assignment to an element does to the variables in the turn that completes it: it changes
the element in what the variable holds at that moment. -/
theorem Turn.Assigns.store_eq {name value : String} {keys : List String}
    (hassigns : turn.Assigns program past name keys value)
    (hunderway : turn.thread.Underway program (program.underway past turn.thread.id)) :
    (turn.step program).2.2.store =
      turn.world.store.set name (ArrayText.set (turn.world.store.get name) keys value) := by
  obtain ⟨hends, clause, -, hclause⟩ := hassigns
  generalize hlog : exchanges (program.underway past turn.thread.id ++ turn.attempts program) = log
    at hclause
  rw [exchanges_append] at hlog
  cases hclause with
  | @element written indices e log more held answer hname _ hvalue hkeys =>
    obtain ⟨rest, hrest, hattempts⟩ : ∃ rest,
        log ++ more = exchanges (program.underway past turn.thread.id) ++ rest ∧
          exchanges (turn.attempts program) = rest ++ [(.readVariable written, held),
            (.writeVariable written (ArrayText.set held keys value), answer)] := by
      rcases Turn.exchanges_attempts hunderway hends with
        hnone | ⟨method, args, first, others, hcall⟩
      · rw [hnone] at hlog ⊢
        exact ⟨log ++ more, rfl, hlog⟩
      · rw [hcall] at hlog ⊢
        exact exists_of_call_next hlog
    have hreads : ∀ exchange ∈ rest, exchange.1.isWrite = false := by
      intro exchange hexchange
      have hmem : exchange ∈ log ++ more := hrest ▸ List.mem_append_right _ hexchange
      exact List.forall_mem_append.2 ⟨hvalue.not_isWrite, hkeys.not_isWrite⟩ exchange hmem
    have hmakes := turn.makes_attempts program
    have hheld := hmakes.read_eq hattempts
    have hstore := hmakes.store_eq
    rw [Store.foldl_record hreads] at hheld
    rw [hattempts, List.foldl_append, Store.foldl_record hreads] at hstore
    rw [turn.world.store.get_eq_of_sameName hname, ← hheld, ← Store.set_eq_of_sameName _ _ hname]
    exact hstore

variable {name : String} {indices : List Expr} {e : Expr}

/-- A turn of an assignment to an element that does not end in a wait completes it. -/
theorem Turn.exists_assigns (hlinked : program.Linked)
    (hunderway : turn.thread.Underway program (program.underway past turn.thread.id))
    (hclause : program.clause? turn.thread.ip = some (.assign (.variable name indices) e))
    (hindices : indices ≠ []) (hends : ∀ block, (turn.step program).1 ≠ .blocked block) :
    ∃ keys value, turn.Assigns program past name keys value := by
  obtain ⟨thread, world⟩ := turn
  obtain ⟨statement, hstatement, hassign⟩ := Option.map_eq_some_iff.1 hclause
  obtain ⟨progress, later, hfollows, -, hstep⟩ := hunderway.step hlinked hstatement world
  rw [hstep] at hends
  cases progress with
  | failed fault => exact hfollows.sound.elim
  | blocked block rest => exact absurd rfl (hends block)
  | done flow =>
    have hperforms := (hlinked.completes_execute_iff hstatement).1 hfollows.reaches
    obtain ⟨keys, value, hvalue⟩ := hperforms.assigns hassign hindices
    rw [hassign] at hvalue
    exact ⟨keys, value, hstep ▸ hends, _, hclause, hvalue⟩

/-- A turn of an assignment to an element that ends in a wait changes no variable. -/
theorem Turn.store_eq_of_blocked (hlinked : program.Linked) {log : List Attempt}
    (hunderway : turn.thread.Underway program log)
    (hclause : program.clause? turn.thread.ip = some (.assign (.variable name indices) e))
    (hindices : indices ≠ []) {block : Block} (hblocked : (turn.step program).1 = .blocked block) :
    (turn.step program).2.2.store = turn.world.store := by
  have hstore := (turn.makes_attempts program).store_eq
  obtain ⟨thread, world⟩ := turn
  obtain ⟨statement, hstatement, hassign⟩ := Option.map_eq_some_iff.1 hclause
  obtain ⟨progress, later, hfollows, horderly, hstep⟩ := hunderway.step hlinked hstatement world
  rw [hstep] at hblocked
  obtain ⟨rest, rfl⟩ := Thread.eq_blocked_of_settle hblocked
  obtain ⟨method, args, hcall⟩ := (horderly block rest rfl).exists_call
  -- The call that has to wait comes before the array is read, however it is answered.
  have hrest : (Action.ask rest.request rest.next).Sound :=
    (hlinked.execute_sound hstatement).of_reaches hfollows.reaches
  obtain ⟨more, flow, hmore⟩ := hrest.exists_completes
  have hperforms := (hlinked.completes_execute_iff hstatement).1 (hfollows.reaches.trans hmore)
  obtain ⟨keys, value, hvalue⟩ := hperforms.assigns hassign hindices
  obtain ⟨answer, others, -, rfl⟩ := Action.completes_ask_iff.1 hmore
  rw [hassign, hcall, exchanges_append, List.append_assoc] at hvalue
  generalize hlog : exchanges log ++ _ = all at hvalue
  cases hvalue with
  | element held last _ _ hvalue hkeys =>
    rw [← List.append_assoc] at hlog
    obtain ⟨left, hleft, -⟩ := exists_of_call_next hlog
    have hreads := List.forall_mem_append.2 ⟨hvalue.not_isWrite, hkeys.not_isWrite⟩
    rw [hleft, List.append_assoc] at hreads
    have hown := (List.forall_mem_append.1 (List.forall_mem_append.1 hreads).2).1
    rw [hstore, Store.foldl_record hown]

end Turn

/-! ## Turns in order -/

/-- Each turn finds the variables as the one before it has left them. -/
inductive Program.Chains (program : Program) : Store → List Turn → Store → Prop
  | nil (store : Store) : Chains program store [] store
  | cons {turn : Turn} {turns : List Turn} {last : Store}
      (hrest : Chains program (turn.step program).2.2.store turns last) :
      Chains program turn.world.store (turn :: turns) last

namespace Program

variable {program : Program} {store middle last : Store} {turns more : List Turn}

theorem Chains.append (hturns : program.Chains store turns middle)
    (hmore : program.Chains middle more last) : program.Chains store (turns ++ more) last := by
  induction hturns with
  | nil => exact hmore
  | cons _ ih => exact .cons (ih hmore)

theorem Chains.exists_of_append (hchains : program.Chains store (turns ++ more) last) :
    ∃ middle, program.Chains store turns middle ∧ program.Chains middle more last := by
  induction turns generalizing store with
  | nil => exact ⟨store, .nil store, hchains⟩
  | cons turn turns ih =>
    cases hchains with
    | cons hrest =>
      obtain ⟨middle, hturns, hmore⟩ := ih hrest
      exact ⟨middle, .cons hturns, hmore⟩

end Program

namespace Machine

theorem GoesRound.chains {program : Program} {now : Nat} {threads : List Thread} {world : World}
    {turns : List Turn} {after : Round} (hround : GoesRound program now threads world turns after) :
    program.Chains world.store turns after.world.store := by
  induction hround with
  | nil => exact .nil _
  | parked _ _ ih => exact ih
  | @fails thread next world later _ _ _ hstep | @ends thread next world later _ _ _ hstep =>
    have hnext : program.Chains (Turn.step ⟨thread, world⟩ program).2.2.store [] later.store := by
      rw [hstep]
      exact .nil _
    exact Program.Chains.cons hnext
  | @turn thread next rest world later _ _ _ _ hstep _ _ _ ih =>
    rw [show later = (Turn.step ⟨thread, world⟩ program).2.2 by rw [hstep]] at ih
    exact Program.Chains.cons ih

theorem store_awaken (machine : Machine) (now : Nat) :
    (machine.awaken now).2.world.store = machine.world.store := by
  unfold awaken
  dsimp only
  split <;> rfl

/-- In every run the turns follow one another. -/
theorem chains_turnHistory (machine : Machine) (moves : List Move) :
    machine.program.Chains machine.world.store (machine.turnHistory moves)
      (machine.after moves).world.store := by
  induction moves generalizing machine with
  | nil => exact .nil _
  | cons move moves ih =>
    have hrest := ih (machine.apply move)
    cases move with
    | spawn | push | close => exact hrest
    | tick now =>
      refine Program.Chains.append ?_ ((machine.program_tick now) ▸ hrest)
      cases hended : machine.ended with
      | true =>
        simp only [turns, Machine.apply, tick, hended, if_true]
        exact .nil _
      | false =>
        obtain ⟨after, hround, hworld, -⟩ := machine.exists_goesRound now hended
        rw [Machine.apply, hworld, ← machine.store_awaken now]
        exact hround.chains

end Machine

/-! ## Variables that are changed element by element -/

namespace Program

variable {program : Program} {name : String} {turns : List Turn}

/-- In these turns a variable is changed only by assignments to its elements, at paths that are
pairwise equal or diverge. -/
structure OnlyAssigned (program : Program) (name : String) (turns : List Turn) : Prop where
  assigns : ∀ past turn rest, turns = past ++ turn :: rest →
    (turn.step program).2.2.store.get name = turn.world.store.get name ∨
      ∃ keys value, turn.Assigns program past name keys value
  apart : ∀ past turn rest before other after keys value path text,
    turns = past ++ turn :: rest → turn.Assigns program past name keys value →
    turns = before ++ other :: after → other.Assigns program before name path text →
    keys = path ∨ ArrayText.Diverge keys path

/-- In these turns the value was the last one that was assigned at a path of a variable. -/
def LastAssigned (program : Program) (name : String) (turns : List Turn) (path : List String)
    (value : String) : Prop :=
  ∃ past turn rest, turns = past ++ turn :: rest ∧ turn.Assigns program past name path value ∧
    ∀ middle other more text, rest = middle ++ other :: more →
      ¬other.Assigns program (past ++ turn :: middle) name path text

/-- Turns after the last assignment at a path leave what is found there. -/
theorem OnlyAssigned.get_eq (honly : program.OnlyAssigned name turns)
    (hunderway : ∀ past turn rest, turns = past ++ turn :: rest →
      turn.thread.Underway program (program.underway past turn.thread.id))
    {store last : Store} {past rest : List Turn} {path : List String} {value : String}
    (hturns : turns = past ++ rest)
    (hnone : ∀ middle other more text, rest = middle ++ other :: more →
      ¬other.Assigns program (past ++ middle) name path text)
    (hassigned : ∃ before turn after, turns = before ++ turn :: after ∧
      turn.Assigns program before name path value)
    (hchains : program.Chains store rest last) :
    ArrayText.get (last.get name) path = ArrayText.get (store.get name) path := by
  induction rest generalizing past store with
  | nil =>
    cases hchains
    rfl
  | cons turn rest ih =>
    cases hchains with
    | cons hrest =>
      have hnext : ∀ middle other more text, rest = middle ++ other :: more →
          ¬other.Assigns program (past ++ [turn] ++ middle) name path text := by
        rintro middle other more text rfl
        simpa using hnone (turn :: middle) other more text rfl
      rw [ih (by simpa using hturns) hnext hrest]
      rcases honly.assigns past turn rest hturns with hkeeps | ⟨keys, text, hassigns⟩
      · rw [hkeeps]
      · obtain ⟨before, other, after, hother, hpath⟩ := hassigned
        have hapart := honly.apart _ _ _ _ _ _ _ _ _ _ hturns hassigns hother hpath
        have hne : keys ≠ path := by
          rintro rfl
          have hhere := hnone [] turn rest text rfl
          rw [List.append_nil] at hhere
          exact hhere hassigns
        rw [hassigns.store_eq (hunderway past turn rest hturns),
          Store.get_set_of_sameName _ _ (by simp [sameName]),
          ArrayText.get_set_of_diverge _ (hapart.resolve_left hne)]

/-- At a path of a variable that is changed only element by element, the last value is found that
was assigned there. -/
theorem LastAssigned.get_eq {path : List String} {value : String}
    (hlast : program.LastAssigned name turns path value) (honly : program.OnlyAssigned name turns)
    (hunderway : ∀ past turn rest, turns = past ++ turn :: rest →
      turn.thread.Underway program (program.underway past turn.thread.id))
    {store last : Store} (hchains : program.Chains store turns last) :
    ArrayText.get (last.get name) path = value := by
  obtain ⟨past, turn, rest, hturns, hassigns, hnone⟩ := hlast
  rw [hturns] at hchains
  obtain ⟨middle, -, hrest⟩ := hchains.exists_of_append
  cases hrest with
  | cons hrest =>
    have hafter : turns = (past ++ [turn]) ++ rest := by simpa using hturns
    have hlater : ∀ middle other more text, rest = middle ++ other :: more →
        ¬other.Assigns program (past ++ [turn] ++ middle) name path text := by
      intro middle other more text hmore
      simpa using hnone middle other more text hmore
    rw [honly.get_eq hunderway hafter hlater ⟨past, turn, rest, hturns, hassigns⟩ hrest,
      hassigns.store_eq (hunderway past turn rest hturns),
      Store.get_set_of_sameName _ _ (by simp [sameName])]
    have hfound := ArrayText.get_set_append (turn.world.store.get name) path [] value
    rwa [List.append_nil] at hfound

end Program

namespace Machine

/-- In every run of a program that parses, each turn finds its thread to have done so much in its
statement as the turns before tell. -/
theorem underway_of_turnHistory {program : Program} (hlinked : program.Linked) (library : Library)
    {moves : List Move} {past rest : List Turn} {turn : Turn}
    (hsplit : (Machine.start program library).turnHistory moves = past ++ turn :: rest) :
    turn.thread.Underway program (program.underway past turn.thread.id) := by
  obtain ⟨before, now, after, earlier, later, rfl, hturns, rfl⟩ :=
    exists_tick_of_turnHistory _ hsplit
  have hP := Thread.inductive_underway hlinked
  have hstart := program_start program library
  have hbears := (bears_start hlinked hP library).after (hstart.symm ▸ hP) before
  rw [List.nil_append] at hbears
  have hprogram := (program_after (Machine.start program library) before).trans hstart
  generalize (Machine.start program library).after before = machine at hturns hbears hprogram
  have hturn : turn ∈ machine.turns now := hturns ▸ by simp
  obtain ⟨round, hround, -⟩ := machine.exists_goesRound now (ended_of_mem_turns hturn)
  have hawake := hbears.awaken (hprogram.symm ▸ hP) now
  -- No other turn of the same tick is one of the thread.
  have hnone : turnsOf turn.thread.id earlier = [] := by
    have hnodup := (hround.sublist.map (·.id)).nodup hawake.numbered.nodup
    rw [hturns, List.map_append, List.map_append, List.nodup_append] at hnodup
    rw [turnsOf_eq_nil_iff]
    intro other hother
    exact hnodup.2.2 _ (by simpa using ⟨other, hother, rfl⟩) _ (by simp)
  have hthread := hawake.threads turn.thread (hround.thread_mem hturn)
  rwa [Program.underway, turnsOf_append, hnone, List.append_nil]

/-- In every run of a program that parses, an assignment to an element changes no variable before it
is complete, however often it has to wait. In the turn that completes it, it changes the element in
what the variable holds then, with the value and the keys that it has evaluated, and no other
variable. So an element of a variable that is changed only element by element, at paths that are
pairwise equal or diverge, always has the value that was last assigned to it. -/
theorem updates_of_parse {source : String} {program : Program}
    (hparse : Program.parse source = .ok program) (library : Library) (moves : List Move) :
    let history := (Machine.start program library).turnHistory moves
    (∀ past turn rest name indices e, history = past ++ turn :: rest →
      program.clause? turn.thread.ip = some (.assign (.variable name indices) e) → indices ≠ [] →
        (∀ block, (turn.step program).1 = .blocked block →
          (turn.step program).2.2.store = turn.world.store) ∧
        ((∀ block, (turn.step program).1 ≠ .blocked block) →
          ∃ keys value, turn.Assigns program past name keys value ∧
            (turn.step program).2.2.store =
              turn.world.store.set name (ArrayText.set (turn.world.store.get name) keys value))) ∧
      ∀ turns rest name path value, history = turns ++ rest →
        program.OnlyAssigned name turns → program.LastAssigned name turns path value →
          (∀ turn more, rest = turn :: more →
            ArrayText.get (turn.world.store.get name) path = value) ∧
          (rest = [] → ArrayText.get
            (((Machine.start program library).after moves).world.store.get name) path = value) := by
  intro history
  have hlinked := Program.linked_of_parse hparse
  have hunderway : ∀ {past turn rest}, history = past ++ turn :: rest →
      turn.thread.Underway program (program.underway past turn.thread.id) :=
    underway_of_turnHistory hlinked library
  constructor
  · intro past turn rest name indices e hsplit hclause hindices
    constructor
    · intro block hblocked
      exact Turn.store_eq_of_blocked hlinked (hunderway hsplit) hclause hindices hblocked
    · intro hends
      obtain ⟨keys, value, hassigns⟩ :=
        Turn.exists_assigns hlinked (hunderway hsplit) hclause hindices hends
      exact ⟨keys, value, hassigns, hassigns.store_eq (hunderway hsplit)⟩
  · intro turns rest name path value hsplit honly hlast
    have hchains := chains_turnHistory (Machine.start program library) moves
    rw [program_start, show (Machine.start program library).turnHistory moves = _ from hsplit]
      at hchains
    obtain ⟨middle, hturns, hrest⟩ := hchains.exists_of_append
    have hget := hlast.get_eq honly
      (fun past turn more hmore => hunderway (by rw [hsplit, hmore, List.append_assoc]; rfl)) hturns
    constructor
    · rintro turn more rfl
      cases hrest
      exact hget
    · rintro rfl
      cases hrest
      exact hget

/-- The clause assigns to one element of a variable, under a key that is written out. -/
def assignsUnder (name key : String) : Option Clause → Bool
  | some (.assign (.variable written [.literal text]) _) => written == name && text == key
  | _ => false

theorem exists_of_assignsUnder {name key : String} {clause? : Option Clause}
    (hassigns : assignsUnder name key clause? = true) :
    ∃ e, clause? = some (.assign (.variable name [.literal key]) e) := by
  unfold assignsUnder at hassigns
  split at hassigns
  · simp only [Bool.and_eq_true, beq_iff_eq] at hassigns
    obtain ⟨rfl, rfl⟩ := hassigns
    exact ⟨_, rfl⟩
  · cases hassigns

theorem keys_eq_of_assignsUnder {program : Program} {past : List Turn} {turn : Turn}
    {name key value : String} {keys : List String}
    (hclause : assignsUnder name key (program.clause? turn.thread.ip) = true)
    (hassigns : turn.Assigns program past name keys value) : keys = [key] := by
  obtain ⟨e, hclause⟩ := exists_of_assignsUnder hclause
  obtain ⟨-, clause, hfound, hvalue⟩ := hassigns
  obtain rfl := Option.some.inj (hclause.symm.trans hfound)
  generalize exchanges _ = log at hvalue
  cases hvalue with
  | element _ _ _ _ _ hkeys =>
    cases hkeys with
    | cons hhead htail =>
      cases hhead
      cases htail
      rfl

/-- A variable is only assigned to element by element if all turns are at assignments to it under
keys that are written out. -/
theorem onlyAssigned_of_assignsUnder {program : Program} (hlinked : program.Linked)
    (library : Library) (moves : List Move) {name : String}
    (hclauses : ∀ turn ∈ (Machine.start program library).turnHistory moves,
      ∃ key, assignsUnder name key (program.clause? turn.thread.ip) = true) :
    program.OnlyAssigned name ((Machine.start program library).turnHistory moves) := by
  constructor
  case assigns =>
    intro past turn rest hsplit
    obtain ⟨key, hkey⟩ := hclauses turn (by simp [hsplit])
    obtain ⟨e, hclause⟩ := exists_of_assignsUnder hkey
    have hunderway := underway_of_turnHistory hlinked library hsplit
    by_cases hblocked : ∃ block, (turn.step program).1 = .blocked block
    · obtain ⟨block, hblocked⟩ := hblocked
      exact .inl (by
        rw [Turn.store_eq_of_blocked hlinked hunderway hclause (by simp) hblocked])
    · obtain ⟨keys, value, hassigns⟩ :=
        Turn.exists_assigns hlinked hunderway hclause (by simp) (not_exists.1 hblocked)
      exact .inr ⟨keys, value, hassigns⟩
  case apart =>
    intro past turn rest before other after keys value path text hsplit hkeys hother hpath
    obtain ⟨key, hkey⟩ := hclauses turn (by simp [hsplit])
    obtain ⟨last, hlast⟩ := hclauses other (by simp [hother])
    rw [keys_eq_of_assignsUnder hkey hkeys, keys_eq_of_assignsUnder hlast hpath]
    by_cases hsame : key = last
    · exact .inl (by rw [hsame])
    · exact .inr ⟨0, key, last, rfl, rfl, hsame⟩

/-- A thread that waits for the value of one element, while another thread assigns to another
element of the same variable. -/
theorem updates_of_parse_meanwhile : ∃ program,
    Program.parse "x[1] = TextWindow.Read()\nx[2] = 7" = .ok program ∧
      let moves := [.spawn 1, .tick 0, .push "a", .tick 0]
      let first := Machine.start program {}
      (first.turnHistory moves).map (fun turn => (turn.thread.ip, (turn.step program).1)) =
          [(0, .blocked .input), (1, .finished), (0, .ran)] ∧
        program.OnlyAssigned "x" (first.turnHistory moves) ∧
        program.LastAssigned "x" (first.turnHistory moves) ["2"] "7" ∧
        ArrayText.get ((first.after moves).world.store.get "x") ["2"] = "7" := by
  obtain ⟨program, hparse, hcheck⟩ := Program.exists_of_any "x[1] = TextWindow.Read()\nx[2] = 7"
    (fun program =>
      let moves := [.spawn 1, .tick 0, .push "a", .tick 0]
      let first := Machine.start program {}
      assignsUnder "x" "1" (program.clause? 0) && assignsUnder "x" "2" (program.clause? 1) &&
        (first.turnHistory moves).map (fun turn => (turn.thread.ip, (turn.step program).1)) ==
          [(0, .blocked .input), (1, .finished), (0, .ran)] &&
        ArrayText.get ((first.after moves).world.store.get "x") ["2"] == "7")
    (by decide +kernel)
  simp only [Bool.and_eq_true, beq_iff_eq] at hcheck
  obtain ⟨⟨⟨hone, htwo⟩, hturns⟩, hseven⟩ := hcheck
  obtain ⟨hassigns, hfound⟩ :=
    updates_of_parse hparse {} [.spawn 1, .tick 0, .push "a", .tick 0]
  have honly := @onlyAssigned_of_assignsUnder program (Program.linked_of_parse hparse) {}
    [.spawn 1, .tick 0, .push "a", .tick 0] "x"
  refine ⟨program, hparse, hturns, ?_⟩
  generalize (Machine.start program {}).turnHistory _ = history at hturns hassigns hfound honly ⊢
  obtain ⟨first, rest, hhistory, hfirst, hrest⟩ := List.map_eq_cons_iff.1 hturns
  obtain ⟨second, rest, rfl, hsecond, hrest⟩ := List.map_eq_cons_iff.1 hrest
  obtain ⟨third, rest, rfl, hthird, hrest⟩ := List.map_eq_cons_iff.1 hrest
  obtain rfl := List.map_eq_nil_iff.1 hrest
  obtain ⟨hfirstIp, -⟩ := Prod.mk.inj hfirst
  obtain ⟨hsecondIp, hends⟩ := Prod.mk.inj hsecond
  obtain ⟨hthirdIp, -⟩ := Prod.mk.inj hthird
  rw [← hsecondIp] at htwo
  have honly : program.OnlyAssigned "x" history := by
    apply honly
    intro turn hturn
    simp only [hhistory, List.mem_cons, List.not_mem_nil, or_false] at hturn
    rcases hturn with rfl | rfl | rfl
    · exact ⟨"1", hfirstIp ▸ hone⟩
    · exact ⟨"2", htwo⟩
    · exact ⟨"1", hthirdIp ▸ hone⟩
  obtain ⟨e, hclause⟩ := exists_of_assignsUnder htwo
  obtain ⟨keys, value, hvalue, -⟩ :=
    (hassigns [first] second [third] _ _ _ hhistory hclause (by simp)).2 (by simp [hends])
  obtain rfl := keys_eq_of_assignsUnder htwo hvalue
  have hlast : program.LastAssigned "x" history ["2"] value := by
    refine ⟨[first], second, [third], hhistory, hvalue, ?_⟩
    intro middle other more text hmore hagain
    obtain rfl : third = other := by
      cases middle with
      | nil => exact (List.cons.inj hmore).1
      | cons => simp at hmore
    have hkeys := keys_eq_of_assignsUnder (hthirdIp ▸ hone) hagain
    simp at hkeys
  have hget := (hfound history [] "x" ["2"] value (by simp) honly hlast).2 rfl
  obtain rfl := hget.symm.trans hseven
  exact ⟨honly, hlast, hget⟩

end Machine

end SmallBasic
