import SmallBasic.Proofs.Failures
import SmallBasic.Proofs.Integers
import SmallBasic.Proofs.Updates

/-!
# Counting loops

A counting loop with integer bounds counts exactly. Its counter is a text that is read, increased
and stored at the end of every pass, and the bound is evaluated again each time. As long as each
pass reaches its end and leaves the counter alone, there are as many passes as there are integers
from one bound to the other, in their order.

## Main definitions

* `CountingLoop` — a header in a program and the end that belongs to it.
* `Program.Executes` — the main thread executes a statement in some turns.
* `CountingLoop.Pass`, `CountingLoop.Rounds` — passes through a loop, one after the other.

## Main statements

* `CountingLoop.Pass.counts` — what one pass does to the counter, and where it leads.
* `CountingLoop.Rounds.counts` — what a number of passes does.
* `CountingLoop.counts_exactly` — the loop counts exactly.
-/

namespace SmallBasic

/-! ## Turns in a row -/

/-- Whether a request writes a variable. -/
def Request.writes (name : String) : Request → Bool
  | .writeVariable written _ => sameName written name
  | _ => false

theorem Request.writes_of_not_isWrite {request : Request} (hnone : request.isWrite = false)
    (name : String) : request.writes name = false := by
  cases request with
  | writeVariable => cases hnone
  | _ => rfl

namespace Store

theorem get_record {exchange : Exchange} {name : String}
    (hkeeps : exchange.1.writes name = false) (store : Store) :
    (store.record exchange).get name = store.get name := by
  obtain ⟨request, answer⟩ := exchange
  cases request with
  | writeVariable written value =>
    have hname : foldCase name ≠ foldCase written := by
      intro hsame
      simp [Request.writes, sameName, hsame] at hkeeps
    simp [record, get, set, Table.get?_insert, hname]
  | _ => rfl

/-- Exchanges that do not write a variable leave it as it is. -/
theorem get_foldl_record {log : List Exchange} {name : String}
    (hkeeps : ∀ exchange ∈ log, exchange.1.writes name = false) (store : Store) :
    (log.foldl record store).get name = store.get name := by
  induction log generalizing store with
  | nil => rfl
  | cons exchange log ih =>
    obtain ⟨hfirst, hrest⟩ := List.forall_mem_cons.1 hkeeps
    rw [List.foldl_cons, ih hrest, get_record hfirst]

end Store

/-- In its turn the thread does not write the variable. -/
def Turn.Keeps (turn : Turn) (program : Program) (name : String) : Prop :=
  ∀ attempt ∈ turn.attempts program, attempt.request.writes name = false

namespace Program

variable {program : Program} {store last : Store} {turns more : List Turn} {name held : String}

/-- The attempts of some turns. -/
def attemptsOf (program : Program) (turns : List Turn) : List Attempt :=
  turns.flatMap (·.attempts program)

theorem attemptsOf_cons (program : Program) (turn : Turn) (turns : List Turn) :
    program.attemptsOf (turn :: turns) = turn.attempts program ++ program.attemptsOf turns :=
  List.flatMap_cons

theorem attemptsOf_append (program : Program) (turns more : List Turn) :
    program.attemptsOf (turns ++ more) = program.attemptsOf turns ++ program.attemptsOf more :=
  List.flatMap_append

theorem writes_of_keeps (hkeeps : ∀ turn ∈ turns, turn.Keeps program name) :
    ∀ exchange ∈ exchanges (program.attemptsOf turns), exchange.1.writes name = false := by
  intro exchange hexchange
  obtain ⟨⟨request, resumed, outcome⟩, hattempt, heq⟩ := List.mem_filterMap.1 hexchange
  obtain ⟨turn, hturn, hmem⟩ := List.mem_flatMap.1 hattempt
  cases outcome with
  | blocked => cases heq
  | ready answer =>
    cases heq
    exact hkeeps turn hturn _ hmem

/-- Turns that follow one another do to the variables what their exchanges do. -/
theorem Chains.store_eq (hchains : program.Chains store turns last) :
    last = (exchanges (program.attemptsOf turns)).foldl Store.record store := by
  induction hchains with
  | nil => rfl
  | @cons turn turns last _ ih =>
    rw [ih, (turn.makes_attempts program).store_eq, attemptsOf_cons, exchanges_append,
      List.foldl_append]

/-- In turns that follow one another a variable is read as it is at that moment. -/
theorem Chains.read_eq (hchains : program.Chains store turns last) {before after : List Exchange}
    (hlog : exchanges (program.attemptsOf turns) = before ++ (.readVariable name, held) :: after) :
    held = (before.foldl Store.record store).get name := by
  induction hchains generalizing before with
  | nil => simp [attemptsOf, exchanges] at hlog
  | @cons turn turns last _ ih =>
    have hmakes := turn.makes_attempts program
    rw [attemptsOf_cons, exchanges_append] at hlog
    rcases List.append_eq_append_iff.1 hlog with ⟨middle, rfl, hrest⟩ | ⟨middle, hfirst, hrest⟩
    · -- It is read in a later turn.
      rw [ih hrest, hmakes.store_eq, List.foldl_append]
    · cases middle with
      | nil =>
        rw [@ih [] hrest.symm, hmakes.store_eq, hfirst, List.append_nil, List.foldl_nil]
      | cons exchange middle =>
        obtain ⟨rfl, -⟩ := List.cons.inj hrest
        exact hmakes.read_eq hfirst

/-- Turns that do not write a variable all find it as it was before them. -/
theorem Chains.get_world_eq (hchains : program.Chains store turns last)
    (hkeeps : ∀ turn ∈ turns, turn.Keeps program name) :
    ∀ turn ∈ turns, turn.world.store.get name = store.get name := by
  induction hchains with
  | nil => simp
  | @cons turn turns last _ ih =>
    obtain ⟨hfirst, hrest⟩ := List.forall_mem_cons.1 hkeeps
    have hstays : (turn.step program).2.2.store.get name = turn.world.store.get name := by
      have hnone := writes_of_keeps (List.forall_mem_singleton.2 hfirst)
      rw [attemptsOf_cons, attemptsOf, List.flatMap_nil, List.append_nil] at hnone
      rw [(turn.makes_attempts program).store_eq, Store.get_foldl_record hnone]
    refine List.forall_mem_cons.2 ⟨rfl, fun other hother => ?_⟩
    rw [ih hrest other hother, hstays]

end Program

namespace Thread

variable {program : Program} {thread next : Thread} {turns more : List Turn} {log : List Attempt}
  {report : Report}

theorem goesThrough_append_iff :
    thread.GoesThrough program (turns ++ more) ↔ thread.GoesThrough program turns ∧
      (thread.afterTurns program turns).GoesThrough program more := by
  induction turns generalizing thread with
  | nil => exact (and_iff_right trivial).symm
  | cons turn turns ih =>
    simp only [List.cons_append, GoesThrough, ih, and_assoc]
    refine and_congr_right ?_
    rintro rfl
    rfl

/-- Turns within one statement, as turns of a run. -/
theorem Turns.eq_afterTurns {worlds : List World}
    (hturns : thread.Turns program worlds log report next) (hworlds : worlds = turns.map (·.world))
    (hthrough : thread.GoesThrough program turns) :
    log = program.attemptsOf turns ∧ next = thread.afterTurns program turns := by
  induction hturns generalizing turns with
  | last thread world =>
    obtain ⟨turn, rest, rfl, rfl, hrest⟩ := List.map_eq_cons_iff.1 hworlds.symm
    obtain rfl := List.map_eq_nil_iff.1 hrest
    obtain ⟨rfl, -⟩ := hthrough
    exact ⟨by simp [Program.attemptsOf, Turn.attempts], rfl⟩
  | wait world hwait _ ih =>
    obtain ⟨turn, rest, rfl, rfl, hrest⟩ := List.map_eq_cons_iff.1 hworlds.symm
    obtain ⟨rfl, hthrough⟩ := hthrough
    obtain ⟨rfl, rfl⟩ := ih hrest.symm hthrough
    exact ⟨by simp [Program.attemptsOf, Turn.attempts], rfl⟩

theorem ip_goto (thread : Thread) (program : Program) (index : Nat) :
    (thread.goto program index).2.ip = index := by
  unfold goto
  split <;> rfl

/-- The thread stands before a statement. -/
def isReady (thread : Thread) : Bool :=
  match thread.phase with
  | .ready => true
  | _ => false

theorem phase_eq_of_isReady (hready : thread.isReady = true) :
    thread.phase = .ready := by
  unfold isReady at hready
  split at hready
  · assumption
  · cases hready

end Thread

/-! ## The main thread -/

namespace Program

variable {program : Program} {past turns more : List Turn} {index : Nat} {log : List Exchange}
  {name : String}

/-- Where the main thread stands after some turns of its own. -/
def mainAfter (program : Program) (turns : List Turn) : Thread :=
  (Thread.start program 0 0).afterTurns program turns

/-- What a variable holds after some turns. -/
def valueAfter (program : Program) (turns : List Turn) (name : String) : String :=
  (Machine.worldAfter program {} turns).store.get name

/-- The turns are the first ones of a run in which only the main thread has turns. -/
structure Alone (program : Program) (turns : List Turn) : Prop where
  goesThrough : (Thread.start program 0 0).GoesThrough program turns
  chains : program.Chains {} turns (Machine.worldAfter program {} turns).store

theorem Chains.eq_worldAfter (world : World) {last : Store}
    (hchains : program.Chains world.store turns last) :
    last = (Machine.worldAfter program world turns).store := by
  generalize hstore : world.store = store at hchains
  induction hchains generalizing world with
  | nil => exact hstore.symm
  | cons _ ih => exact ih _ rfl

theorem mainAfter_append (program : Program) (past turns : List Turn) :
    program.mainAfter (past ++ turns) = (program.mainAfter past).afterTurns program turns :=
  Thread.afterTurns_append ..

theorem Alone.of_append (halone : program.Alone (past ++ turns)) :
    program.Alone past ∧ (program.mainAfter past).GoesThrough program turns ∧
      program.Chains (Machine.worldAfter program {} past).store turns
        (Machine.worldAfter program {} (past ++ turns)).store := by
  obtain ⟨hthrough, hchains⟩ := halone
  obtain ⟨hpast, hturns⟩ := Thread.goesThrough_append_iff.1 hthrough
  obtain ⟨middle, hfirst, hrest⟩ := hchains.exists_of_append
  obtain rfl := Chains.eq_worldAfter {} hfirst
  exact ⟨⟨hpast, hfirst⟩, hturns, hrest⟩

/-- After `past`, the main thread stands before the statement at an index, and executes it in these
turns, with these exchanges. -/
structure Executes (program : Program) (past : List Turn) (index : Nat) (turns : List Turn)
    (log : List Exchange) : Prop where
  ip_eq : (program.mainAfter past).ip = index
  ready : (program.mainAfter past).phase = .ready
  completes : ∃ attempts report next,
    (program.mainAfter past).Turns program (turns.map (·.world)) attempts report next ∧
      (∀ block, report ≠ .blocked block) ∧ exchanges attempts = log

/-- A statement in which the thread does not wait is executed in one turn. -/
theorem Executes.of_turn {turn : Turn} (halone : program.Alone (past ++ [turn]))
    (hready : turn.thread.phase = .ready)
    (hreport : ∀ block, (turn.step program).1 ≠ .blocked block) :
    program.Executes past turn.thread.ip [turn] (exchanges (turn.attempts program)) := by
  obtain ⟨-, ⟨hthread, -⟩, -⟩ := halone.of_append
  refine ⟨by rw [hthread], by rw [← hthread, hready], _, _, (turn.step program).2.1, ?_, hreport,
    rfl⟩
  rw [← hthread]
  exact .last _ turn.world

/-- A statement is executed as its action says, and the thread goes where it leads. -/
theorem Executes.exists_flow {statement : Statement}
    (hexecutes : program.Executes past index turns log) (hlinked : program.Linked)
    (hstatement : program.get? index = some statement)
    (hthrough : (program.mainAfter past).GoesThrough program turns) :
    exchanges (program.attemptsOf turns) = log ∧
      ∃ flow, (program.execute index statement).Completes log flow ∧
        program.mainAfter (past ++ turns) = ((program.mainAfter past).follow program flow).2 := by
  obtain ⟨rfl, hready, attempts, report, next, hturns, hreport, rfl⟩ := hexecutes
  obtain ⟨rfl, rfl⟩ := hturns.eq_afterTurns rfl hthrough
  obtain ⟨flow, hfollow, hperforms, -⟩ :=
    (Thread.transparent_of_ready hready hlinked hstatement hturns).completes hreport
  refine ⟨rfl, flow, (hlinked.completes_execute_iff hstatement).2 hperforms, ?_⟩
  rw [mainAfter_append, ← hfollow]

end Program

/-! ## Loops -/

/-- A counting loop of a program: its header, and the end that belongs to it. -/
structure CountingLoop (program : Program) where
  first : Nat
  last : Nat
  counter : String
  lower : Expr
  upper : Expr
  header_eq : program.clause? first = some (.for counter lower upper)
  link_eq : program.link? first = some last

namespace CountingLoop

variable {program : Program} (loop : CountingLoop program)

/-- What the header says. -/
def header : Clause := .for loop.counter loop.lower loop.upper

/-- One pass through the loop after `past`: the body, in which the counter is not written, leads to
the end of the loop, and there the bound is evaluated to `bound`. -/
structure Pass (bound : String) (past body closing : List Turn) : Prop where
  keeps : ∀ turn ∈ body, turn.Keeps program loop.counter
  closes : ∃ value log, program.Executes (past ++ body) loop.last closing log ∧
    loop.header.Closes value bound log

/-- So many passes through the loop after `past`, one after the other. Each of them begins at the
statement after the header. -/
inductive Rounds (bound : String) (past : List Turn) : Nat → List Turn → Prop
  | none : Rounds bound past 0 []
  | pass {count : Nat} {turns body closing : List Turn} (hrounds : Rounds bound past count turns)
      (hbegins : (program.mainAfter (past ++ turns)).ip = loop.first + 1)
      (hpass : loop.Pass bound (past ++ turns) body closing) :
      Rounds bound past (count + 1) (turns ++ (body ++ closing))

/-- Every pass that begins in these turns is brought to its end: wherever the thread stands at the
statement after the header, after any number of passes, the turns go on with a pass. -/
def EveryPassEnds (bound : String) (past rest : List Turn) : Prop :=
  ∀ count turns more, rest = turns ++ more → loop.Rounds bound past count turns →
    (program.mainAfter (past ++ turns)).ip = loop.first + 1 →
      ∃ body closing later, more = body ++ closing ++ later ∧
        loop.Pass bound (past ++ turns) body closing

variable {loop} {past opening body closing turns : List Turn} {a b y : Int} {log : List Exchange}
  {count : Nat}

/-- The end of the loop leads back to its header. -/
theorem exists_closer (hlinked : program.Linked) : ∃ header closer : Statement,
    program.get? loop.first = some header ∧ header.clause = loop.header ∧
      program.target header = loop.last ∧ program.get? loop.last = some closer ∧
      closer.clause = .endFor ∧ program.target closer = loop.first := by
  obtain ⟨header, hheader, hclause⟩ := Option.map_eq_some_iff.1 loop.header_eq
  obtain ⟨hend, hback⟩ := (hlinked.wellLinked.for_iff loop.first loop.last).1
    ⟨⟨_, _, _, loop.header_eq⟩, loop.link_eq⟩
  obtain ⟨closer, hcloser, hendFor⟩ := Option.map_eq_some_iff.1 hend
  exact ⟨header, closer, hheader, hclause, Program.target_eq hheader loop.link_eq, hcloser,
    hendFor, Program.target_eq hcloser hback⟩

/-- A pass that the thread brings to its end in one turn, without a wait. -/
theorem Pass.of_turn {bound value : String} {last : Turn}
    (halone : program.Alone (past ++ body ++ [last])) (hready : last.thread.phase = .ready)
    (hreport : ∀ block, (last.step program).1 ≠ .blocked block)
    (hkeeps : ∀ turn ∈ body, turn.Keeps program loop.counter) (hip : last.thread.ip = loop.last)
    (hcloses : loop.header.Closes value bound (exchanges (last.attempts program))) :
    loop.Pass bound past body [last] :=
  ⟨hkeeps, value, _, hip ▸ Program.Executes.of_turn halone hready hreport, hcloses⟩

theorem ip_follow_ite (thread : Thread) {holds : Prop} [Decidable holds] {target : Nat} :
    (thread.follow program (if holds then .jump target else .next)).2.ip =
      if holds then target else thread.ip + 1 := by
  split <;> exact Thread.ip_goto ..

/-- The loop is entered with the lower bound in its counter, and only if this is not above the upper
one. -/
theorem opens (hlinked : program.Linked) (halone : program.Alone (past ++ opening))
    (hexecutes : program.Executes past loop.first opening log)
    (hopens : loop.header.Opens a.repr b.repr log) (ha : a.natAbs < Number.wholeLimit)
    (hb : b.natAbs < Number.wholeLimit) :
    program.valueAfter (past ++ opening) loop.counter = a.repr ∧
      (program.mainAfter (past ++ opening)).ip =
        if a ≤ b then loop.first + 1 else loop.last + 1 := by
  obtain ⟨header, -, hheader, hclause, htarget, -⟩ := loop.exists_closer hlinked
  obtain ⟨-, hthrough, hchains⟩ := halone.of_append
  obtain ⟨hlog, flow, hcompletes, hafter⟩ := hexecutes.exists_flow hlinked hheader hthrough
  constructor
  · rw [Program.valueAfter, hchains.store_eq, hlog]
    cases hopens with
    | «for» answer hlower hupper =>
      rw [List.foldl_append, List.foldl_cons, Store.get_foldl_record fun exchange hexchange =>
        Request.writes_of_not_isWrite (hupper.not_isWrite exchange hexchange) _]
      exact Store.get_set_of_sameName _ _ (by simp [sameName])
  · rw [← hclause] at hopens
    rw [Program.completes_iff_of_opens hopens] at hcompletes
    rw [hafter, hcompletes, ip_follow_ite, hexecutes.ip_eq, htarget, greater_eq_not_lessEqual,
      isTrue_truthText, Operator.isTrue_lessEqual_repr ha hb]
    by_cases hle : a ≤ b <;> simp [hle]

/-- At the end of a pass the counter goes up by one, and another pass follows as long as it is not
above the bound. -/
theorem Pass.counts (hpass : loop.Pass b.repr past body closing) (hlinked : program.Linked)
    (halone : program.Alone (past ++ (body ++ closing)))
    (hvalue : program.valueAfter past loop.counter = y.repr) (hy : y.natAbs < Number.wholeLimit)
    (hnext : (y + 1).natAbs < Number.wholeLimit) (hb : b.natAbs < Number.wholeLimit) :
    program.valueAfter (past ++ (body ++ closing)) loop.counter = (y + 1).repr ∧
      (program.mainAfter (past ++ (body ++ closing))).ip =
        if y + 1 ≤ b then loop.first + 1 else loop.last + 1 := by
  obtain ⟨hkeeps, value, log, hexecutes, hcloses⟩ := hpass
  obtain ⟨header, closer, hheader, hclause, -, hcloser, hendFor, htarget⟩ :=
    loop.exists_closer hlinked
  obtain ⟨-, -, hchains⟩ := halone.of_append
  rw [← List.append_assoc] at halone ⊢
  obtain ⟨-, hthrough, -⟩ := halone.of_append
  obtain ⟨hlog, flow, hcompletes, hafter⟩ := hexecutes.exists_flow hlinked hcloser hthrough
  have hexchanges : exchanges (program.attemptsOf (body ++ closing)) =
      exchanges (program.attemptsOf body) ++ log := by
    rw [Program.attemptsOf_append, exchanges_append, hlog]
  have hbody := Store.get_foldl_record (Program.writes_of_keeps hkeeps)
    (Machine.worldAfter program {} past).store
  have htest := hcloses
  cases hcloses with
  | @«for» _ held _ _ after answer hsum hupper =>
    -- The counter is read as it was at the beginning of the pass.
    have hheld : held = y.repr := by
      rw [hchains.read_eq hexchanges, hbody]
      exact hvalue
    have hone : "1" = (1 : Int).repr := rfl
    rw [hheld, hone, Operator.addition_repr hy (by decide) hnext] at hsum
    subst hsum
    constructor
    · rw [Program.valueAfter, List.append_assoc, hchains.store_eq, hexchanges, List.foldl_append,
        List.foldl_cons, List.foldl_cons, Store.get_foldl_record fun exchange hexchange =>
          Request.writes_of_not_isWrite (hupper.not_isWrite exchange hexchange) _]
      exact Store.get_set_of_sameName _ _ (by simp [sameName])
    · rw [← hclause] at htest
      rw [Program.completes_iff_of_closes hendFor (htarget ▸ hheader) htest] at hcompletes
      rw [hafter, hcompletes, ip_follow_ite, hexecutes.ip_eq, htarget,
        Operator.isTrue_lessEqual_repr hnext hb]
      by_cases hle : y + 1 ≤ b <;> simp [hle]

/-! ## Runs -/

/-- What holds after so many passes through a loop from `a` to `b`: there are not more of them than
integers from `a` to `b`, the counter has gone up by one in each of them, and another pass follows
unless there are as many. -/
structure Counted (loop : CountingLoop program) (a b : Int) (turns : List Turn) (count : Nat) :
    Prop where
  count_le : count ≤ (b - a + 1).toNat
  value_eq : program.valueAfter turns loop.counter = (a + count).repr
  ip_eq : (program.mainAfter turns).ip =
    if count < (b - a + 1).toNat then loop.first + 1 else loop.last + 1

theorem first_lt_last (hlinked : program.Linked) : loop.first < loop.last :=
  (hlinked.wellLinked.ends _ _ loop.header_eq rfl _ loop.link_eq).1

/-- Passes count from the lower bound on. -/
theorem Rounds.counts (hrounds : loop.Rounds b.repr past count turns) (hlinked : program.Linked)
    (halone : program.Alone (past ++ turns)) (hstart : loop.Counted a b past 0)
    (ha : a.natAbs + 1 < Number.wholeLimit) (hb : b.natAbs + 1 < Number.wholeLimit) :
    loop.Counted a b (past ++ turns) count := by
  induction hrounds with
  | none => rwa [List.append_nil]
  | @pass count turns body closing hrounds hbegins hpass ih =>
    rw [← List.append_assoc] at halone ⊢
    obtain ⟨-, hvalue, hip⟩ := ih halone.of_append.1
    -- A pass begins at the statement after the header only if the loop has not been left.
    have hmore : count < (b - a + 1).toNat := by
      by_contra hnone
      rw [hbegins, if_neg hnone] at hip
      have hlt := loop.first_lt_last hlinked
      omega
    obtain ⟨hnext, hleads⟩ := hpass.counts hlinked halone hvalue (by omega) (by omega) (by omega)
    refine ⟨hmore, ?_, ?_⟩
    · rw [hnext]
      congr 1
      omega
    · rw [hleads]
      exact if_congr (by omega) rfl rfl

/-- If all passes that begin reach their end, there are any number of them up to the last. -/
theorem exists_rounds (hlinked : program.Linked) {rest : List Turn}
    (halone : program.Alone (past ++ rest)) (hstart : loop.Counted a b past 0)
    (ha : a.natAbs + 1 < Number.wholeLimit) (hb : b.natAbs + 1 < Number.wholeLimit)
    (hpasses : loop.EveryPassEnds b.repr past rest) (hcount : count ≤ (b - a + 1).toNat) :
    ∃ turns more, rest = turns ++ more ∧ loop.Rounds b.repr past count turns := by
  induction count with
  | zero => exact ⟨[], rest, rfl, .none⟩
  | succ count ih =>
    obtain ⟨turns, more, rfl, hrounds⟩ := ih (Nat.le_of_succ_le hcount)
    rw [← List.append_assoc] at halone
    have hcounted := hrounds.counts hlinked halone.of_append.1 hstart ha hb
    have hbegins := hcounted.ip_eq
    rw [if_pos (Nat.lt_of_succ_le hcount)] at hbegins
    obtain ⟨body, closing, later, rfl, hpass⟩ := hpasses count turns more rfl hrounds hbegins
    exact ⟨turns ++ (body ++ closing), later, by simp, .pass hrounds hbegins hpass⟩

end CountingLoop

namespace Machine

/-- A run in which only the main thread has turns. -/
theorem alone_of_forall_id {program : Program} (hsize : 0 < program.size) (library : Library)
    (moves : List Move)
    (hsingle : ∀ turn ∈ (Machine.start program library).turnHistory moves, turn.thread.id = 0) :
    program.Alone ((Machine.start program library).turnHistory moves) := by
  have hprogram := program_start program library
  have hthread : Thread.start program 0 0 ∈ (Machine.start program library).threads := by
    simp [Machine.start, hsize, spawn]
  have hworld : (Machine.start program library).world.store = {} := by
    simp [Machine.start, hsize, spawn]
  have hthrough := ((inOrder_start program library).goesOn hthread moves).goesThrough
  have hchains := (Machine.start program library).chains_turnHistory moves
  rw [hprogram] at hthrough hchains
  rw [hworld] at hchains
  constructor
  case goesThrough =>
    have hall : turnsOf 0 ((Machine.start program library).turnHistory moves) =
        (Machine.start program library).turnHistory moves :=
      List.filter_eq_self.2 fun turn hturn => beq_iff_eq.2 (hsingle turn hturn)
    rwa [← hall]
  case chains => exact Program.Chains.eq_worldAfter {} hchains ▸ hchains

end Machine

namespace CountingLoop

/-- A counting loop counts exactly. If only the main thread has turns, the loop is entered through
its header with the integers `a` and `b` as its bounds, and every pass that begins is brought to its
end, then there are as many passes as there are integers from `a` to `b`. The counter holds these
integers one after the other, each of them in all turns of the body of its pass. Afterwards it holds
the first one past `b`, or `a` if there are none, and the thread stands after the loop. -/
theorem counts_exactly {source : String} {program : Program}
    (hparse : Program.parse source = .ok program) (library : Library) (moves : List Machine.Move)
    (hsingle : ∀ turn ∈ (Machine.start program library).turnHistory moves, turn.thread.id = 0)
    (loop : CountingLoop program) {past opening rest : List Turn}
    (hsplit : (Machine.start program library).turnHistory moves = past ++ opening ++ rest)
    {log : List Exchange} (hexecutes : program.Executes past loop.first opening log) {a b : Int}
    (hopens : loop.header.Opens a.repr b.repr log) (ha : a.natAbs < tenTo 15 - 1)
    (hb : b.natAbs < tenTo 15 - 1) (hpasses : loop.EveryPassEnds b.repr (past ++ opening) rest) :
    (∃ turns more, rest = turns ++ more ∧
        loop.Rounds b.repr (past ++ opening) (b - a + 1).toNat turns ∧
        program.valueAfter (past ++ opening ++ turns) loop.counter = (max a (b + 1)).repr ∧
        (program.mainAfter (past ++ opening ++ turns)).ip = loop.last + 1) ∧
      (∀ count turns more, rest = turns ++ more → loop.Rounds b.repr (past ++ opening) count turns →
        loop.Counted a b (past ++ opening ++ turns) count) ∧
      ∀ count turns body closing more, rest = turns ++ (body ++ closing ++ more) →
        loop.Rounds b.repr (past ++ opening) count turns →
        loop.Pass b.repr (past ++ opening ++ turns) body closing →
          ∀ turn ∈ body, turn.world.store.get loop.counter = (a + count).repr := by
  have hlinked := Program.linked_of_parse hparse
  have hlimit : tenTo 15 = Number.wholeLimit := rfl
  have hsize : 0 < program.size :=
    Nat.lt_of_le_of_lt (Nat.zero_le _) (Program.lt_size_of_clause? loop.header_eq)
  have halone := Machine.alone_of_forall_id hsize library moves hsingle
  rw [hsplit] at halone
  obtain ⟨hvalue, hip⟩ :=
    loop.opens hlinked halone.of_append.1 hexecutes hopens (by omega) (by omega)
  have hstart : loop.Counted a b (past ++ opening) 0 := by
    refine ⟨Nat.zero_le _, ?_, ?_⟩
    · rw [hvalue]
      simp
    · rw [hip]
      exact if_congr (by omega) rfl rfl
  have hcounts : ∀ count turns more, rest = turns ++ more →
      loop.Rounds b.repr (past ++ opening) count turns →
        loop.Counted a b (past ++ opening ++ turns) count := by
    intro count turns more hrest hrounds
    rw [hrest, ← List.append_assoc] at halone
    exact hrounds.counts hlinked halone.of_append.1 hstart (by omega) (by omega)
  refine ⟨?_, hcounts, ?_⟩
  · obtain ⟨turns, more, hrest, hrounds⟩ :=
      loop.exists_rounds hlinked halone hstart (by omega) (by omega) hpasses (Nat.le_refl _)
    obtain ⟨-, hvalue, hip⟩ := hcounts _ turns more hrest hrounds
    rw [if_neg (Nat.lt_irrefl _)] at hip
    refine ⟨turns, more, hrest, hrounds, ?_, hip⟩
    rw [hvalue]
    congr 1
    omega
  · intro count turns body closing more hrest hrounds hpass turn hturn
    have hcounted := hcounts count turns _ hrest hrounds
    rw [hrest, ← List.append_assoc, List.append_assoc body, ← List.append_assoc] at halone
    obtain ⟨-, -, hchains⟩ := halone.of_append.1.of_append
    exact (hchains.get_world_eq hpass.keeps turn hturn).trans hcounted.value_eq

/-- A loop with two passes, each of which copies the counter. -/
theorem counts_exactly_nine_ten : ∃ program,
    Program.parse "For i = 9 To 10\nx = i\nEndFor" = .ok program ∧
      ∃ (loop : CountingLoop program) (opening rest : List Turn) (log : List Exchange),
        (Machine.start program {}).turnHistory (List.replicate 5 (.tick 0)) = opening ++ rest ∧
        program.Executes [] loop.first opening log ∧ loop.header.Opens "9" "10" log ∧
        loop.EveryPassEnds "10" opening rest ∧
        ∃ turns more, rest = turns ++ more ∧ loop.Rounds "10" opening 2 turns ∧
          program.valueAfter (opening ++ turns) "i" = "11" ∧
          (program.mainAfter (opening ++ turns)).ip = 3 := by
  obtain ⟨program, hparse, hcheck⟩ := Program.exists_of_any "For i = 9 To 10\nx = i\nEndFor"
    (fun program =>
      let history := (Machine.start program {}).turnHistory (List.replicate 5 (.tick 0))
      loopsFrom "i" "9" "10" (program.clause? 0) &&
      program.link? 0 == some 2 &&
      (history.all fun turn => turn.thread.id == 0 && turn.thread.isReady) &&
      history.map (fun turn => (turn.thread.ip, turn.attempts program, (turn.step program).1,
          (turn.step program).2.1.ip)) ==
        [(0, [⟨.writeVariable "i" "9", false, .done⟩], .ran, 1),
          (1, [⟨.readVariable "i", false, .ready "9"⟩,
            ⟨.writeVariable "x" "9", false, .done⟩], .ran, 2),
          (2, [⟨.readVariable "i", false, .ready "9"⟩,
            ⟨.writeVariable "i" "10", false, .done⟩], .ran, 1),
          (1, [⟨.readVariable "i", false, .ready "10"⟩,
            ⟨.writeVariable "x" "10", false, .done⟩], .ran, 2),
          (2, [⟨.readVariable "i", false, .ready "10"⟩,
            ⟨.writeVariable "i" "11", false, .done⟩], .finished, 3)])
    (by decide +kernel)
  simp only [Bool.and_eq_true, beq_iff_eq, List.all_eq_true] at hcheck
  obtain ⟨⟨⟨hfor, hlink⟩, hall⟩, hturns⟩ := hcheck
  have hheader := eq_of_loopsFrom hfor
  have hready := fun turn hturn => Thread.phase_eq_of_isReady (hall turn hturn).2
  let loop : CountingLoop program := ⟨0, 2, "i", .literal "9", .literal "10", hheader, hlink⟩
  have hsingle := fun turn hturn => (hall turn hturn).1
  have halone := Machine.alone_of_forall_id
    (Nat.lt_of_le_of_lt (Nat.zero_le _) (Program.lt_size_of_clause? hheader)) {} _ hsingle
  obtain ⟨t₀, rest, hhistory, h₀, hrest⟩ := List.map_eq_cons_iff.1 hturns
  obtain ⟨t₁, rest, rfl, h₁, hrest⟩ := List.map_eq_cons_iff.1 hrest
  obtain ⟨t₂, rest, rfl, h₂, hrest⟩ := List.map_eq_cons_iff.1 hrest
  obtain ⟨t₃, rest, rfl, h₃, hrest⟩ := List.map_eq_cons_iff.1 hrest
  obtain ⟨t₄, rest, rfl, h₄, hrest⟩ := List.map_eq_cons_iff.1 hrest
  obtain rfl := List.map_eq_nil_iff.1 hrest
  simp only [Prod.mk.injEq] at h₀ h₁ h₂ h₃ h₄
  rw [hhistory] at halone hready
  have hstart : program.Alone [t₀] := (@Program.Alone.of_append _ [t₀] _ halone).1
  have hfirst : program.Alone [t₀, t₁, t₂] := (@Program.Alone.of_append _ [t₀, t₁, t₂] _ halone).1
  have hexecutes : program.Executes [] loop.first [t₀] [(.writeVariable "i" "9", "")] := by
    have hwhole := @Program.Executes.of_turn program [] t₀ hstart
      (hready t₀ (by simp)) (by simp [h₀])
    rw [h₀.1, h₀.2.1] at hwhole
    exact hwhole
  have hopens : loop.header.Opens "9" "10" [(.writeVariable "i" "9", "")] :=
    .for "" (.literal _) (.literal _)
  have hpass : ∀ past copy last held value, program.Alone (past ++ [copy] ++ [last]) →
      copy.attempts program = [⟨.readVariable "i", false, .ready held⟩,
        ⟨.writeVariable "x" held, false, .done⟩] →
      last.thread.ip = 2 → last.thread.phase = .ready →
      last.attempts program = [⟨.readVariable "i", false, .ready held⟩,
        ⟨.writeVariable "i" value, false, .done⟩] →
      (∀ block, (last.step program).1 ≠ .blocked block) → Operator.addition held "1" = value →
        loop.Pass "10" past [copy] [last] := by
    intro past copy last held value halone hcopy hip hphase hlast hreport hsum
    have hcloses : loop.header.Closes value "10" (exchanges (last.attempts program)) := by
      rw [hlast]
      exact .for "" hsum (.literal _)
    refine Pass.of_turn halone hphase hreport ?_ hip hcloses
    rintro turn hturn attempt hattempt
    rw [List.mem_singleton.1 hturn, hcopy] at hattempt
    have hother : sameName "x" "i" = false := by decide +kernel
    rcases List.mem_pair.1 hattempt with rfl | rfl
    · rfl
    · exact hother
  have hpasses : loop.EveryPassEnds "10" [t₀] [t₁, t₂, t₃, t₄] := by
    intro count turns more hrest hrounds hbegins
    rcases turns with _ | ⟨u, _ | ⟨v, _ | ⟨w, _ | ⟨x, turns⟩⟩⟩⟩
    · refine ⟨[t₁], [t₂], [t₃, t₄], hrest.symm, ?_⟩
      exact hpass [t₀] t₁ t₂ "9" "10" hfirst h₁.2.1 h₂.1 (hready t₂ (by simp)) h₂.2.1
        (by simp [h₂]) (by decide +kernel)
    · obtain ⟨rfl, -⟩ := List.cons.inj hrest
      cases h₁.2.2.2.symm.trans hbegins
    · simp only [List.cons_append, List.nil_append, List.cons.injEq] at hrest
      obtain ⟨rfl, rfl, rfl⟩ := hrest
      refine ⟨[t₃], [t₄], [], rfl, ?_⟩
      exact hpass [t₀, t₁, t₂] t₃ t₄ "10" "11" halone h₃.2.1 h₄.1 (hready t₄ (by simp)) h₄.2.1
        (by simp [h₄]) (by decide +kernel)
    · simp only [List.cons_append, List.cons.injEq] at hrest
      obtain ⟨rfl, rfl, rfl, -⟩ := hrest
      cases h₃.2.2.2.symm.trans hbegins
    · simp only [List.cons_append, List.cons.injEq, List.nil_eq, List.append_eq_nil_iff] at hrest
      obtain ⟨rfl, rfl, rfl, rfl, rfl, -⟩ := hrest
      cases h₄.2.2.2.symm.trans hbegins
  obtain ⟨⟨turns, more, hrest, hrounds, hvalue, hip⟩, -⟩ := counts_exactly hparse {} _ hsingle loop
    hhistory hexecutes (a := 9) (b := 10) hopens (by decide) (by decide) hpasses
  exact ⟨program, hparse, loop, [t₀], [t₁, t₂, t₃, t₄], _, hhistory, hexecutes, hopens, hpasses,
    turns, more, hrest, hrounds, hvalue, hip⟩

end CountingLoop

end SmallBasic
