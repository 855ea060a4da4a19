import SmallBasic.Program.Parse

/-!
# Names and their places

Labels and subroutines are collected into tables. A source in which no name is declared twice has
tables that say exactly which statement declares which name, and every reference in it is linked by
them.

## Main definitions

* `Clause.labelName?`, `Clause.subName?`, `Clause.calledName?` — what a clause declares or calls,
  with its case folded.
* `Names.Covers` — tables that hold just the names of some statements.

## Main statements

* `Table.get?_insert` — what a table holds after storing a value.
* `Names.Covers.collect` — collecting names without a duplicate covers the statements.
* `Names.resolveAll_eq_ok` — statements without unresolved references are all linked.
-/

namespace SmallBasic

namespace Table

variable {α : Type}

theorem contains_eq_isSome (table : Table α) (key : String) :
    table.contains key = (table.get? key).isSome := by
  induction table with
  | nil => rfl
  | cons entry table ih =>
    obtain ⟨k, v⟩ := entry
    simp only [contains, get?, List.any_cons, List.lookup_cons] at ih ⊢
    grind

theorem get?_eq_none_iff {table : Table α} {key : String} :
    table.get? key = none ↔ key ∉ table.keys := by
  rw [← Option.isNone_iff_eq_none, ← Option.isSome_eq_false_iff, ← contains_eq_isSome]
  simp only [contains, keys, List.any_eq_false, List.mem_map, beq_iff_eq, not_exists, not_and]

theorem mem_keys_of_get? {table : Table α} {key : String} {value : α}
    (hget : table.get? key = some value) : key ∈ table.keys := by
  refine Decidable.byContradiction fun hnot => ?_
  cases (get?_eq_none_iff.2 hnot).symm.trans hget

theorem get?_replace (table : Table α) (key other : String) (value : α) :
    (table.replace key value).get? other =
      if other = key then (table.get? other).map fun _ => value else table.get? other := by
  induction table with
  | nil => simp [replace, get?]
  | cons entry table ih =>
    obtain ⟨k, v⟩ := entry
    simp only [replace, get?, List.map_cons] at ih ⊢
    by_cases hother : other = key
    · subst hother
      rw [if_pos rfl] at ih ⊢
      by_cases hkey : k = other
      · simp [hkey]
      · simp [hkey, List.lookup_cons, ih, beq_eq_false_iff_ne.2 (Ne.symm hkey)]
    · rw [if_neg hother] at ih ⊢
      by_cases hkey : k = key
      · simp [hkey, List.lookup_cons, ih, beq_eq_false_iff_ne.2 hother]
      · simp [hkey, List.lookup_cons, ih]

/-- Storing a value changes what is under its key and nothing else. -/
theorem get?_insert (table : Table α) (key other : String) (value : α) :
    (table.insert key value).get? other =
      if other = key then some value else table.get? other := by
  have hcontains := table.contains_eq_isSome key
  unfold insert
  split
  · rename_i hpresent
    rw [get?_replace]
    split
    · rename_i heq
      subst heq
      obtain ⟨old, hold⟩ := Option.isSome_iff_exists.1 (hcontains.symm.trans hpresent)
      simp [hold]
    · rfl
  · rename_i habsent
    have hnone : table.get? key = none := by
      rw [← Option.not_isSome_iff_eq_none, ← hcontains]
      exact habsent
    simp only [get?, List.lookup_append, List.lookup_cons, List.lookup_nil] at hnone ⊢
    grind

end Table

namespace Clause

/-- The label that a clause declares. -/
def labelName? : Clause → Option String
  | .label name => some (foldCase name)
  | _ => none

/-- The subroutine that a clause declares. -/
def subName? : Clause → Option String
  | .sub name => some (foldCase name)
  | _ => none

/-- The subroutine that a clause calls or binds. -/
def calledName? : Clause → Option String
  | .callSub name | .bind _ name => some (foldCase name)
  | _ => none

end Clause

/-- A table that says which of some clauses declares a name, or what stands `offset` after it. -/
def Table.Lists (table : Table Nat) (declared : Clause → Option String) (offset : Nat)
    (clauses : List Clause) : Prop :=
  ∀ name place, table.get? name = some place ↔
    ∃ index clause, clauses[index]? = some clause ∧ declared clause = some name ∧
      place = index + offset

namespace Table.Lists

variable {table : Table Nat} {declared : Clause → Option String} {offset : Nat}
  {clauses : List Clause} {clause : Clause}

theorem nil : Table.Lists [] declared offset [] := by
  intro name place
  simp [Table.get?]

/-- A clause that declares nothing changes nothing. -/
theorem skip (hlists : table.Lists declared offset clauses)
    (hdeclared : declared clause = none) :
    table.Lists declared offset (clauses ++ [clause]) := by
  intro name place
  rw [hlists name place]
  constructor
  · rintro ⟨index, found, hfound, hname, hplace⟩
    exact ⟨index, found, by grind, hname, hplace⟩
  · rintro ⟨index, found, hfound, hname, hplace⟩
    refine ⟨index, found, ?_, hname, hplace⟩
    grind

/-- A name that is new stands for the place of its clause. -/
theorem insert (hlists : table.Lists declared offset clauses) {name : String}
    (hdeclared : declared clause = some name) (hnew : table.contains name = false) :
    (Table.insert table name (clauses.length + offset)).Lists declared offset
      (clauses ++ [clause]) := by
  intro other place
  rw [Table.get?_insert]
  have hnone : table.get? name = none := by
    rw [← Option.not_isSome_iff_eq_none, ← Table.contains_eq_isSome, hnew]
    exact Bool.false_ne_true
  have hold := hlists other place
  constructor
  · intro hget
    split at hget
    · rename_i heq
      exact ⟨clauses.length, clause, by simp, heq ▸ hdeclared, by grind⟩
    · obtain ⟨index, found, hfound, hname, hplace⟩ := hold.1 hget
      exact ⟨index, found, by grind, hname, hplace⟩
  · rintro ⟨index, found, hfound, hname, hplace⟩
    by_cases hindex : index < clauses.length
    · have hfound : clauses[index]? = some found := by grind
      have hget := hold.2 ⟨index, found, hfound, hname, hplace⟩
      grind
    · have hlast : index = clauses.length ∧ found = clause := by grind
      obtain ⟨rfl, rfl⟩ := hlast
      rw [hdeclared] at hname
      simp [Option.some.inj hname, hplace]

end Table.Lists

namespace Names

/-- The tables hold just the names that the statements declare. -/
structure Covers (names : Names) (statements : List Statement) : Prop where
  labels : names.labels.Lists Clause.labelName? 0 (statements.map (·.clause))
  subs : names.subs.Lists Clause.subName? 1 (statements.map (·.clause))

variable {names next last : Names} {statements : List Statement}

theorem Covers.declare {statement : Statement} (hcovers : names.Covers statements)
    (hdeclare : names.declare statements.length statement = (next, [])) :
    next.Covers (statements ++ [statement]) := by
  have hlabels := hcovers.labels
  have hsubs := hcovers.subs
  have hlength : statements.length = (statements.map (·.clause)).length := by simp
  have happend : (statements ++ [statement]).map (·.clause) =
      statements.map (·.clause) ++ [statement.clause] := by simp
  unfold Names.declare at hdeclare
  split at hdeclare
  · rename_i name hclause
    simp only [Prod.mk.injEq, ite_eq_right_iff, List.cons_ne_nil, imp_false,
      Bool.not_eq_true] at hdeclare
    obtain ⟨rfl, hnew⟩ := hdeclare
    constructor <;> rw [happend]
    · rw [hlength]
      exact hlabels.insert (by simp [hclause, Clause.labelName?]) hnew
    · exact hsubs.skip (by simp [hclause, Clause.subName?])
  · rename_i name hclause
    simp only [Prod.mk.injEq, ite_eq_right_iff, List.cons_ne_nil, imp_false,
      Bool.not_eq_true] at hdeclare
    obtain ⟨rfl, hnew⟩ := hdeclare
    constructor <;> rw [happend]
    · exact hlabels.skip (by simp [hclause, Clause.labelName?])
    · rw [hlength]
      exact hsubs.insert (by simp [hclause, Clause.subName?]) hnew
  · rename_i hlabel hsub
    cases hdeclare
    constructor <;> rw [happend]
    · apply hlabels.skip
      cases hclause : statement.clause <;> first | rfl | exact absurd hclause (hlabel _)
    · apply hsubs.skip
      cases hclause : statement.clause <;> first | rfl | exact absurd hclause (hsub _)

/-- Collecting names without a duplicate covers all statements. -/
theorem Covers.collect {rest : List Statement} (hcovers : names.Covers statements)
    (hcollect : names.collect statements.length rest = (last, [])) :
    last.Covers (statements ++ rest) := by
  induction rest generalizing names statements with
  | nil =>
    cases hcollect
    simpa using hcovers
  | cons statement rest ih =>
    simp only [Names.collect, Prod.mk.injEq, List.append_eq_nil_iff] at hcollect
    obtain ⟨hlast, hnone, hmore⟩ := hcollect
    have hnext := hcovers.declare (Prod.ext rfl hnone)
    have hlength : (statements ++ [statement]).length = statements.length + 1 := by simp
    have hcovered := ih hnext (hlength ▸ Prod.ext hlast hmore)
    simpa using hcovered

/-- Without an unresolved reference, every statement is linked. -/
theorem resolveAll_eq_ok {linked : List Statement}
    (hresolve : names.resolveAll statements = (linked, [])) :
    statements.map names.resolve = linked.map .ok := by
  induction statements generalizing linked with
  | nil =>
    cases hresolve
    rfl
  | cons statement statements ih =>
    simp only [resolveAll] at hresolve
    split at hresolve
    · rename_i resolved hstatement
      simp only [Prod.mk.injEq] at hresolve
      obtain ⟨rfl, hnone⟩ := hresolve
      simp [hstatement, ih (Prod.ext rfl hnone)]
    · cases hresolve

/-- Linking changes the link of a clause that refers to a name, and nothing else. -/
theorem resolve_eq_ok {statement resolved : Statement}
    (hresolve : names.resolve statement = .ok resolved) :
    resolved.clause = statement.clause ∧
      (statement.clause.role ≠ .simple → resolved = statement) ∧
      (∀ label, statement.clause = .goto label →
        ∃ place, names.labels.get? (foldCase label) = some place ∧ resolved.link = some place) ∧
      (∀ name, statement.clause.calledName? = some name →
        ∃ place, names.subs.get? name = some place ∧ resolved.link = some place) := by
  unfold resolve at hresolve
  split at hresolve
  · rename_i label hclause
    split at hresolve
    · rename_i place hplace
      cases hresolve
      simp_all [Clause.role, Clause.calledName?]
    · cases hresolve
  · rename_i name hclause
    split at hresolve
    · cases hresolve
      simp_all [Clause.role, Clause.calledName?]
    · cases hresolve
  · rename_i name hclause
    split at hresolve
    · cases hresolve
      simp_all [Clause.role, Clause.calledName?]
    · cases hresolve
  · rename_i hclause
    split at hresolve
    · cases hresolve
    · cases hresolve
      simp_all [Clause.calledName?]
  · rename_i hgoto hcall hbind _
    cases hresolve
    refine ⟨rfl, fun _ => rfl, fun label hclause => absurd hclause (hgoto label), ?_⟩
    intro name hname
    cases hclause : statement.clause with
    | callSub => exact absurd hclause (hcall _)
    | bind => exact absurd hclause (hbind _ _)
    | _ => simp [hclause, Clause.calledName?] at hname

end Names

end SmallBasic
