import SmallBasic.Proofs.Waiting

/-!
# Branches

An `If` chain is told here by the nesting of blocks alone: every header stands where the branch
before it ends. A walk along the links of a chain goes through these headers in the order of the
source, and no others, so it comes to its end after as many steps as there are headers, however long
the chain is and whatever is nested in it.

A thread at `If` evaluates the conditions of the chain one after the other, up to the first true
one, and goes on in that branch, or behind `Else`, or behind the chain. It may have to wait inside
any of the conditions. A thread that comes to another header, from the branch before it or by a
jump, evaluates nothing and goes on behind the chain.

## Main definitions

* `Program.IfChain` — the headers after one of a chain, and its end.
* `Tries` — evaluating conditions up to the first true one.
* `Program.Branching` — what becomes of the threads at a header.

## Main statements

* `Program.WellLinked.exists_ifChain`, `Program.IfChain.unique` — every header has one chain.
* `Program.IfChain.selectBranch_eq`, `Program.IfChain.skipBranches_eq` — walks go along the chain.
* `Program.branching_of_parse` — chains choose one branch, from anywhere.
-/

namespace SmallBasic

/-! ## Chains -/

namespace Clause

/-- Whether a branch of an `If` chain starts behind the clause. -/
def isHeader : Clause → Bool
  | .if _ | .elseIf _ | .else => true
  | _ => false

theorem isHeader_iff {clause : Clause} :
    clause.isHeader = true ↔ (∃ condition, clause = .if condition) ∨
      (∃ condition, clause = .elseIf condition) ∨ clause = .else := by
  cases clause <;> simp [isHeader]

end Clause

namespace Program

/-- The rest of an `If` chain behind one of its headers, found by the nesting of blocks: the places
and the conditions of the `ElseIf` headers that follow, in the order of the source, the place of
`Else`, and the place of `EndIf`. -/
inductive IfChain (program : Program) : Nat → List (Nat × Expr) → Option Nat → Nat → Prop
  | endIf {first last : Nat} (hlt : first < last) (hends : program.Ends first last)
      (hclause : program.clause? last = some .endIf) : IfChain program first [] none last
  | else {first middle last : Nat} (hlt : first < middle) (hends : program.Ends first middle)
      (hclause : program.clause? middle = some .else)
      (hrest : IfChain program middle [] none last) : IfChain program first [] (some middle) last
  | elseIf {first next last : Nat} {condition : Expr} {branches : List (Nat × Expr)}
      {else? : Option Nat} (hlt : first < next) (hends : program.Ends first next)
      (hclause : program.clause? next = some (.elseIf condition))
      (hrest : IfChain program next branches else? last) :
      IfChain program first ((next, condition) :: branches) else? last

variable {program : Program} {first last limit target : Nat} {branches : List (Nat × Expr)}
  {else? : Option Nat}

/-- A branch or block has one end. -/
theorem Ends.unique {other : Nat} (hends : program.Ends first last) (hlt : first < last)
    (hother : program.Ends first other) (hotherLt : first < other) : last = other := by
  -- The earlier of the two would stand in a block of its own, seen from the later one.
  have hle : ∀ {a b : Nat}, program.Ends first a → first < a → program.Ends first b → b ≤ a := by
    intro a b ha hlt hb
    obtain ⟨⟨clause, hclause, hend⟩, hdepth, -⟩ := ha
    obtain ⟨-, -, hinside⟩ := hb
    refine Nat.le_of_not_lt fun hab => ?_
    have hdeeper := hinside a clause hlt hab hclause hend
    omega
  exact Nat.le_antisymm (hle hother hotherLt hends) (hle hends hlt hother)

/-- A header belongs to one chain. -/
theorem IfChain.unique {others : List (Nat × Expr)} {other? : Option Nat} {other : Nat}
    (hchain : program.IfChain first branches else? last)
    (hother : program.IfChain first others other? other) :
    others = branches ∧ other? = else? ∧ other = last := by
  induction hchain generalizing others other? other with
  | endIf hlt hends hclause =>
    cases hother with
    | endIf hlt' hends' => exact ⟨rfl, rfl, hends'.unique hlt' hends hlt⟩
    | «else» hlt' hends' hclause' | elseIf hlt' hends' hclause' =>
      obtain rfl := hends'.unique hlt' hends hlt
      cases hclause.symm.trans hclause'
  | «else» hlt hends hclause _ ih =>
    cases hother with
    | «else» hlt' hends' _ hrest =>
      obtain rfl := hends'.unique hlt' hends hlt
      exact ⟨rfl, rfl, (ih hrest).2.2⟩
    | endIf hlt' hends' hclause' | elseIf hlt' hends' hclause' =>
      obtain rfl := hends'.unique hlt' hends hlt
      cases hclause.symm.trans hclause'
  | elseIf hlt hends hclause _ ih =>
    cases hother with
    | elseIf hlt' hends' hclause' hrest =>
      obtain rfl := hends'.unique hlt' hends hlt
      cases hclause.symm.trans hclause'
      obtain ⟨rfl, rfl, rfl⟩ := ih hrest
      exact ⟨rfl, rfl, rfl⟩
    | endIf hlt' hends' hclause' | «else» hlt' hends' hclause' =>
      obtain rfl := hends'.unique hlt' hends hlt
      cases hclause.symm.trans hclause'

/-- The headers of a chain stand one behind the other. -/
theorem IfChain.length_lt (hchain : program.IfChain first branches else? last) :
    branches.length + else?.toList.length < last := by
  have hlt : first + branches.length + else?.toList.length < last := by
    induction hchain with
    | endIf hlt => exact hlt
    | «else» hlt _ _ _ ih | elseIf hlt _ _ _ ih =>
      simp only [List.length_cons, List.length_nil, Option.toList_some, Option.toList_none] at ih ⊢
      omega
  omega

theorem IfChain.last_lt_size (hchain : program.IfChain first branches else? last) :
    last < program.size := by
  induction hchain with
  | endIf _ _ hclause => exact lt_size_of_clause? hclause
  | «else» _ _ _ _ ih | elseIf _ _ _ _ ih => exact ih

/-- The link of a header leads to the end of its branch. -/
theorem WellLinked.exists_link (hlinks : program.WellLinked) {clause : Clause}
    (hclause : program.clause? first = some clause) (hheader : clause.isHeader = true) :
    ∃ target next, program.link? first = some target ∧ first < target ∧
      program.Ends first target ∧ program.clause? target = some next ∧
      next.continuesIf = true := by
  obtain ⟨target, next, hlink, hlt, hnext, hcontinues⟩ :=
    hlinks.exists_next hclause (Clause.isHeader_iff.1 hheader)
  have hopener : clause.opener?.isSome = true := by
    obtain ⟨condition, rfl⟩ | ⟨condition, rfl⟩ | rfl := Clause.isHeader_iff.1 hheader <;> rfl
  have hends := (hlinks.ends first clause hclause hopener target hlink).2
  exact ⟨target, next, hlink, hlt, hends, hnext, hcontinues⟩

/-- Every header has a chain: its links go forward, up to an `EndIf`. -/
theorem WellLinked.exists_ifChain (hlinks : program.WellLinked) {clause : Clause}
    (hclause : program.clause? first = some clause) (hheader : clause.isHeader = true) :
    ∃ branches else? last, program.IfChain first branches else? last := by
  induction hn : program.size - first using Nat.strongRecOn generalizing first clause with
  | ind n ih =>
    have hsize := lt_size_of_clause? hclause
    obtain ⟨target, next, hlink, hlt, hends, hnext, hcontinues⟩ :=
      hlinks.exists_link hclause hheader
    cases next with
    | endIf => exact ⟨_, _, _, .endIf hlt hends hnext⟩
    | elseIf condition =>
      obtain ⟨branches, else?, last, hrest⟩ := ih _ (by omega) hnext rfl rfl
      exact ⟨_, _, _, .elseIf hlt hends hnext hrest⟩
    | «else» =>
      obtain ⟨last, hlast, hend⟩ := hlinks.lastBranch target hnext
      obtain ⟨hafter, hendsAfter⟩ := hlinks.ends target .else hnext rfl last hlast
      exact ⟨_, _, _, .else hlt hends hnext (.endIf hafter hendsAfter hend)⟩
    | _ => cases hcontinues

/-! ## Walks along a chain -/

/-- Evaluates conditions in order, up to the first true one. The result is the statement behind its
header, or the one behind `fallback`. -/
def firstTrue (fallback : Nat) : List (Nat × Expr) → Action Nat
  | [] => return fallback + 1
  | (place, condition) :: rest => do
    if isTrue (← condition.eval) then return place + 1 else firstTrue fallback rest

/-- Where a header leads is where the branch ends behind which it stands. -/
theorem WellLinked.eq_of_ends (hlinks : program.WellLinked) {clause : Clause}
    (hclause : program.clause? first = some clause) (hheader : clause.isHeader = true)
    (hlink : program.link? first = some target) (hlt : first < last)
    (hends : program.Ends first last) : target = last := by
  obtain ⟨other, -, hother, hforward, hotherEnds, -⟩ := hlinks.exists_link hclause hheader
  obtain rfl := Option.some.inj (hother.symm.trans hlink)
  exact hotherEnds.unique hforward hends hlt

theorem exists_statement {clause : Clause} (hclause : program.clause? first = some clause) :
    ∃ statement, program.get? first = some statement ∧ statement.clause = clause :=
  Option.map_eq_some_iff.1 hclause

/-- Where a statement of a chain leads. -/
theorem WellLinked.exists_target (hlinks : program.WellLinked) {clause : Clause}
    (hclause : program.clause? first = some clause) (hheader : clause.isHeader = true) :
    ∃ statement target, program.get? first = some statement ∧ statement.clause = clause ∧
      program.link? first = some target ∧ program.target statement = target := by
  obtain ⟨statement, hstatement, hsame⟩ := exists_statement hclause
  obtain ⟨target, -, hlink, -⟩ := hlinks.exists_link hclause hheader
  exact ⟨statement, target, hstatement, hsame, hlink, target_eq hstatement hlink⟩

/-- A walk in search of a branch tries the conditions of the chain. One step for each header is
enough. -/
theorem IfChain.selectBranch_eq (hchain : program.IfChain first branches else? last)
    (hlinks : program.WellLinked) {clause : Clause} (hclause : program.clause? first = some clause)
    (hheader : clause.isHeader = true) (hlink : program.link? first = some target)
    (hlimit : branches.length < limit) :
    program.selectBranch limit target = firstTrue (else?.getD last) branches := by
  induction hchain generalizing target clause limit with
  | endIf hlt hends hlast | «else» hlt hends hlast =>
    obtain rfl := hlinks.eq_of_ends hclause hheader hlink hlt hends
    obtain ⟨statement, hstatement, hkind⟩ := exists_statement hlast
    obtain ⟨limit, rfl⟩ := Nat.exists_eq_add_one.2 hlimit
    simp only [selectBranch, hstatement, hkind]
    rfl
  | elseIf hlt hends hnext hrest ih =>
    obtain rfl := hlinks.eq_of_ends hclause hheader hlink hlt hends
    obtain ⟨statement, after, hstatement, hkind, hafter, htarget⟩ := hlinks.exists_target hnext rfl
    obtain ⟨limit, rfl⟩ := Nat.exists_eq_add_one.2 (Nat.zero_lt_of_lt hlimit)
    have hmore := ih hnext rfl hafter (Nat.lt_of_succ_lt_succ hlimit)
    simp only [selectBranch, hstatement, hkind, htarget, hmore]
    rfl

/-- A walk to the end of the chain evaluates nothing. One step for each header is enough. -/
theorem IfChain.skipBranches_eq (hchain : program.IfChain first branches else? last)
    (hlinks : program.WellLinked) {clause : Clause} (hclause : program.clause? first = some clause)
    (hheader : clause.isHeader = true) (hlink : program.link? first = some target)
    (hlimit : branches.length + else?.toList.length < limit) :
    program.skipBranches limit target = pure (last + 1) := by
  induction hchain generalizing target clause limit with
  | endIf hlt hends hlast =>
    obtain rfl := hlinks.eq_of_ends hclause hheader hlink hlt hends
    obtain ⟨statement, hstatement, hkind⟩ := exists_statement hlast
    obtain ⟨limit, rfl⟩ := Nat.exists_eq_add_one.2 hlimit
    simp only [skipBranches, hstatement, hkind]
  | «else» hlt hends hnext hrest ih | elseIf hlt hends hnext hrest ih =>
    obtain rfl := hlinks.eq_of_ends hclause hheader hlink hlt hends
    obtain ⟨statement, after, hstatement, hkind, hafter, htarget⟩ := hlinks.exists_target hnext rfl
    obtain ⟨limit, rfl⟩ := Nat.exists_eq_add_one.2 (Nat.zero_lt_of_lt hlimit)
    simp only [skipBranches, hstatement, hkind, htarget]
    refine ih hnext rfl hafter ?_
    simp only [List.length_cons, Option.toList_some, Option.toList_none, List.length_nil]
      at hlimit ⊢
    omega

end Program

/-! ## Conditions -/

/-- Conditions are evaluated in order, up to and including the first true one. This makes some
exchanges, and gives the place of the true condition, or nothing if all are false. -/
inductive Tries : List (Nat × Expr) → List Exchange → Option Nat → Prop
  | exhausted : Tries [] [] none
  | hit {place : Nat} {condition : Expr} {log : List Exchange} {value : String}
      (rest : List (Nat × Expr)) (hcondition : condition.Yields log value)
      (htrue : isTrue value = true) : Tries ((place, condition) :: rest) log (some place)
  | miss {condition : Expr} {rest : List (Nat × Expr)} {log more : List Exchange} {value : String}
      {chosen? : Option Nat} (place : Nat) (hcondition : condition.Yields log value)
      (hfalse : isTrue value = false) (hrest : Tries rest more chosen?) :
      Tries ((place, condition) :: rest) (log ++ more) chosen?

open SmallBasic.Action in
theorem Program.completes_firstTrue_iff {fallback landing : Nat} {branches : List (Nat × Expr)}
    {log : List Exchange} :
    (Program.firstTrue fallback branches).Completes log landing ↔
      ∃ chosen?, Tries branches log chosen? ∧ landing = chosen?.getD fallback + 1 := by
  induction branches generalizing log with
  | nil =>
    rw [firstTrue, completes_pure_iff]
    constructor
    · rintro ⟨rfl, rfl⟩
      exact ⟨none, .exhausted, rfl⟩
    · rintro ⟨chosen?, htries, hlanding⟩
      cases htries
      exact ⟨rfl, hlanding⟩
  | cons branch rest ih =>
    obtain ⟨place, condition⟩ := branch
    simp only [firstTrue, completes_bind_iff, Expr.completes_eval_iff]
    constructor
    · rintro ⟨before, value, after, hcondition, hrest, rfl⟩
      split at hrest
      · rename_i htrue
        obtain ⟨rfl, rfl⟩ := completes_pure_iff.1 hrest
        rw [List.append_nil]
        exact ⟨some place, .hit rest hcondition htrue, rfl⟩
      · rename_i hfalse
        obtain ⟨chosen?, htries, hlanding⟩ := ih.1 hrest
        exact ⟨chosen?, .miss place hcondition (by simpa using hfalse) htries, hlanding⟩
    · rintro ⟨chosen?, htries, hlanding⟩
      cases htries with
      | hit _ hcondition htrue =>
        refine ⟨log, _, [], hcondition, ?_, (List.append_nil _).symm⟩
        rw [if_pos htrue, completes_pure_iff]
        exact ⟨rfl, hlanding⟩
      | miss _ hcondition hfalse hrest =>
        refine ⟨_, _, _, hcondition, ?_, rfl⟩
        rw [if_neg (by simp [hfalse])]
        exact ih.2 ⟨chosen?, hrest, hlanding⟩

/-! ## Threads at a header -/

/-- What comes of an `If` after some turns of the thread that stood before it. -/
structure Thread.Chooses (program : Program) (thread : Thread) (conditions : List (Nat × Expr))
    (fallback : Nat) (log : List Attempt) (report : Thread.Report) (next : Thread) : Prop where
  /-- As long as it waits, it waits inside one of the conditions that it has to evaluate. -/
  waits : ∀ block, report = .blocked block →
    (∃ rest, next = { thread with phase := .waiting block rest }) ∧
      ∃ more chosen?, Tries conditions (exchanges log ++ more) chosen?
  /-- Once it is done, it has evaluated the conditions up to the first true one, and the thread goes
  on behind the header of this one, or behind `fallback`. -/
  completes : (∀ block, report ≠ .blocked block) →
    ∃ chosen?, Tries conditions (exchanges log) chosen? ∧
      (report, next) = thread.goto program (chosen?.getD fallback + 1)

/-- What becomes of the threads at a header of an `If` chain. -/
structure Program.Branching (program : Program) (first : Nat) (clause : Clause)
    (branches : List (Nat × Expr)) (else? : Option Nat) (last : Nat) : Prop where
  /-- The header belongs to this chain and to no other. -/
  chain : program.IfChain first branches else? last
  unique : ∀ others other? other, program.IfChain first others other? other →
    others = branches ∧ other? = else? ∧ other = last
  /-- Both walks along the chain come to their end, after one step for each header. -/
  walks : ∃ target, program.link? first = some target ∧ ∀ limit,
    branches.length + else?.toList.length < limit →
      program.selectBranch limit target = firstTrue (else?.getD last) branches ∧
        program.skipBranches limit target = pure (last + 1)
  /-- A thread at `If` evaluates its own condition and then those of the chain. -/
  chooses : ∀ condition, clause = .if condition →
    ∀ (thread next : Thread) (worlds : List World) (log : List Attempt) (report : Thread.Report),
      thread.ip = first → thread.phase = .ready →
        Thread.Turns program thread worlds log report next →
          Thread.Chooses program thread ((first, condition) :: branches) (else?.getD last) log
            report next
  /-- A thread at another header goes on behind the chain, in one step that makes no request. -/
  passes : (∀ condition, clause ≠ .if condition) →
    ∀ (thread : Thread) (world : World), thread.ip = first → thread.phase = .ready →
      thread.attempts program world = [] ∧
        thread.step program world =
          ((thread.goto program (last + 1)).1, (thread.goto program (last + 1)).2, world)

namespace Program

variable {program : Program} {first last : Nat} {branches : List (Nat × Expr)} {else? : Option Nat}

section Execute

variable {statement : Statement} (hlinks : program.WellLinked)
  (hchain : program.IfChain first branches else? last)
  (hstatement : program.get? first = some statement)

include hlinks hchain hstatement

/-- What `If` does: it tries the conditions, its own one first. -/
theorem execute_if {condition : Expr} (hclause : statement.clause = .if condition) :
    program.execute first statement = (do
      if isTrue (← condition.eval) then return .next
      else return .jump (← firstTrue (else?.getD last) branches)) := by
  have hif : program.clause? first = some (.if condition) := by simp [clause?, hstatement, hclause]
  obtain ⟨target, -, hlink, -⟩ := hlinks.exists_link hif rfl
  have hlimit : branches.length < program.walkLimit := by
    have hlt := hchain.length_lt
    have hsize := hchain.last_lt_size
    simp only [walkLimit]
    omega
  simp only [execute, hclause, target_eq hstatement hlink,
    hchain.selectBranch_eq hlinks hif rfl hlink hlimit]

/-- What another header does: it leads behind the chain. -/
theorem execute_header (hheader : statement.clause.isHeader = true)
    (hother : ∀ condition, statement.clause ≠ .if condition) :
    program.execute first statement = pure (.jump (last + 1)) := by
  have hclause : program.clause? first = some statement.clause := by simp [clause?, hstatement]
  obtain ⟨target, -, hlink, -⟩ := hlinks.exists_link hclause hheader
  have hlimit : branches.length + else?.toList.length < program.walkLimit := by
    have hlt := hchain.length_lt
    have hsize := hchain.last_lt_size
    simp only [walkLimit]
    omega
  have hskip := hchain.skipBranches_eq hlinks hclause hheader hlink hlimit
  obtain ⟨condition, hkind⟩ | ⟨condition, hkind⟩ | hkind := Clause.isHeader_iff.1 hheader
  · exact absurd hkind (hother condition)
  all_goals
    simp only [execute, hkind, target_eq hstatement hlink, hskip]
    rfl

end Execute

open SmallBasic.Action in
/-- The exchanges of an `If`, and where they lead. -/
theorem exists_tries_of_completes {condition : Expr} {fallback : Nat} {log : List Exchange}
    {flow : Flow} (hcompletes : (do
      if isTrue (← condition.eval) then return .next
      else return .jump (← firstTrue fallback branches) : Action Flow).Completes log flow) :
    ∃ chosen?, Tries ((first, condition) :: branches) log chosen? ∧
      ∀ thread : Thread, thread.ip = first →
        thread.follow program flow = thread.goto program (chosen?.getD fallback + 1) := by
  simp only [completes_bind_iff, Expr.completes_eval_iff] at hcompletes
  obtain ⟨before, value, after, hcondition, hrest, rfl⟩ := hcompletes
  split at hrest
  · rename_i htrue
    obtain ⟨rfl, rfl⟩ := completes_pure_iff.1 hrest
    rw [List.append_nil]
    refine ⟨some first, .hit branches hcondition htrue, ?_⟩
    rintro thread rfl
    rfl
  · rename_i hfalse
    simp only [completes_bind_iff, completes_pure_iff, completes_firstTrue_iff] at hrest
    obtain ⟨more, landing, _, ⟨chosen?, htries, rfl⟩, ⟨rfl, rfl⟩, rfl⟩ := hrest
    rw [List.append_nil]
    exact ⟨chosen?, .miss first hcondition (by simpa using hfalse) htries, fun _ _ => rfl⟩

/-- The turns of a thread at `If`. -/
theorem Linked.chooses (hlinked : program.Linked)
    (hchain : program.IfChain first branches else? last) {condition : Expr}
    (hclause : program.clause? first = some (.if condition)) {thread next : Thread}
    {worlds : List World} {log : List Attempt} {report : Thread.Report} (hip : thread.ip = first)
    (hready : thread.phase = .ready) (hturns : Thread.Turns program thread worlds log report next) :
    Thread.Chooses program thread ((first, condition) :: branches) (else?.getD last) log report
      next := by
  obtain ⟨statement, hstatement, hkind⟩ := exists_statement hclause
  have htransparent :=
    Thread.transparent_of_ready hready hlinked (hip ▸ hstatement) hturns
  have htries : ∀ {log : List Exchange} {flow : Flow}, program.Performs statement log flow →
      ∃ chosen?, Tries ((first, condition) :: branches) log chosen? ∧
        thread.follow program flow =
          thread.goto program (chosen?.getD (else?.getD last) + 1) := by
    intro log flow hperforms
    have hcompletes := (hlinked.completes_execute_iff hstatement).2 hperforms
    rw [execute_if hlinked.wellLinked hchain hstatement hkind] at hcompletes
    obtain ⟨chosen?, htries, hlanding⟩ := exists_tries_of_completes hcompletes
    exact ⟨chosen?, htries, hlanding thread hip⟩
  constructor
  case waits =>
    intro block hreport
    obtain ⟨hnext, more, flow, hperforms⟩ := htransparent.waits block hreport
    obtain ⟨chosen?, hmore, -⟩ := htries hperforms
    exact ⟨hnext, more, chosen?, hmore⟩
  case completes =>
    intro hreport
    obtain ⟨flow, hfollow, hperforms, -⟩ := htransparent.completes hreport
    obtain ⟨chosen?, hlog, hlanding⟩ := htries hperforms
    exact ⟨chosen?, hlog, hfollow.trans hlanding⟩

/-- Chains choose one branch, from anywhere. In a program that parses, every header has one chain,
which is found by the nesting of blocks. Whatever state its thread and the world are in, and however
control has come there, `If` evaluates the conditions of its own chain up to the first true one, and
the other headers end their branch. -/
theorem branching_of_parse {source : String} {clause : Clause}
    (hparse : parse source = .ok program) (hclause : program.clause? first = some clause)
    (hheader : clause.isHeader = true) :
    ∃ branches else? last, program.Branching first clause branches else? last := by
  have hlinked := linked_of_parse hparse
  have hlinks := hlinked.wellLinked
  obtain ⟨branches, else?, last, hchain⟩ := hlinks.exists_ifChain hclause hheader
  refine ⟨branches, else?, last, ?_⟩
  constructor
  case chain => exact hchain
  case unique => exact fun others other? other hother => hchain.unique hother
  case walks =>
    obtain ⟨target, -, hlink, -⟩ := hlinks.exists_link hclause hheader
    refine ⟨target, hlink, fun limit hlimit => ⟨?_, ?_⟩⟩
    · exact hchain.selectBranch_eq hlinks hclause hheader hlink (by omega)
    · exact hchain.skipBranches_eq hlinks hclause hheader hlink hlimit
  case chooses =>
    rintro condition rfl thread next worlds log report hip hready hturns
    exact hlinked.chooses hchain hclause hip hready hturns
  case passes =>
    rintro hother thread world rfl hready
    obtain ⟨statement, hstatement, rfl⟩ := exists_statement hclause
    have hexecute := execute_header hlinks hchain hstatement hheader hother
    constructor
    · rw [Thread.attempts_of_ready hready hstatement, hexecute]
      rfl
    · rw [Thread.step_of_ready hready hstatement, hexecute]
      rfl

/-- A chain inside a chain, with a call in a condition that has to wait. -/
theorem branching_of_parse_nested : ∃ program clause,
    parse ("If x Then\nIf TextWindow.Read() = 1 Then\nElse\nEndIf\n" ++
        "ElseIf y Then\nGoto a\nElse\na:\nEndIf") = .ok program ∧
      program.clause? 1 = some clause ∧ clause.isHeader = true ∧
      ∃ branches else? last, program.Branching 1 clause branches else? last := by
  obtain ⟨program, hparse, hcheck⟩ := exists_of_any
    ("If x Then\nIf TextWindow.Read() = 1 Then\nElse\nEndIf\n" ++
      "ElseIf y Then\nGoto a\nElse\na:\nEndIf")
    (fun program => (program.clause? 1).any Clause.isHeader) (by decide +kernel)
  obtain ⟨clause, hclause, hheader⟩ := (Option.any_eq_true _ _).1 hcheck
  exact ⟨program, clause, hparse, hclause, hheader, branching_of_parse hparse hclause hheader⟩

end Program

end SmallBasic
