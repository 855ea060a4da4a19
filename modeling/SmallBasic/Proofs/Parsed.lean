import SmallBasic.Proofs.Drafting
import SmallBasic.Proofs.Naming

/-!
# Programs that parse

What a source text without errors comes to, in one place: its clauses use the library as it is, they
have an outline whose layout the program holds, and the names in it lead where they are declared.

## Main definitions

* `Program.Linked` — what every program that parses has.

## Main statements

* `Program.linked_of_parse` — a program that parses is linked.
-/

namespace SmallBasic

/-- A shape without the link that belongs to a name. -/
def Shape.masked (shape : Shape) : Shape :=
  (shape.1, if shape.1.role = .simple then none else shape.2)

theorem Bracket.role_opener (bracket : Bracket) : bracket.opener.role ≠ .simple := by
  cases bracket <;> simp [Bracket.opener, Clause.role]

theorem Bracket.role_closer (bracket : Bracket) : bracket.closer.role ≠ .simple := by
  cases bracket <;> simp [Bracket.closer, Clause.role]

mutual

/-- The layout of a body gives no link to a simple clause. -/
theorem Body.map_masked_layout (start : Nat) :
    (body : Body) → (body.layout start).map Shape.masked = body.layout start
  | .nil => rfl
  | .step clause simple rest => by
    simp [Body.layout, Shape.masked, rest.map_masked_layout]
  | .block bracket inner rest => by
    simp [Body.layout, Shape.masked, bracket.role_opener, bracket.role_closer,
      inner.map_masked_layout, rest.map_masked_layout]
  | .chain condition inner branches rest => by
    simp [Body.layout, Shape.masked, Clause.role, inner.map_masked_layout,
      branches.map_masked_layout, rest.map_masked_layout]

theorem Branches.map_masked_layout (start : Nat) :
    (branches : Branches) → (branches.layout start).map Shape.masked = branches.layout start
  | .endIf => rfl
  | .else inner => by
    simp [Branches.layout, Shape.masked, Clause.role, inner.map_masked_layout]
  | .elseIf condition inner branches => by
    simp [Branches.layout, Shape.masked, Clause.role, inner.map_masked_layout,
      branches.map_masked_layout]

end

namespace Program

variable {program : Program} {source : String}

/-- The clause at an index. -/
def clause? (program : Program) (index : Nat) : Option Clause :=
  (program.get? index).map (·.clause)

theorem getElem?_clauses (program : Program) (index : Nat) :
    program.clauses[index]? = program.clause? index := by
  simp [clauses, clause?, get?]

/-- What a source without errors went through. -/
theorem parse_eq_ok (hparse : parse source = .ok program) :
    ∃ (draft : Draft) (names : Names),
      ({} : Draft).readLines 0 (lines source) = (draft, []) ∧ draft.unclosed = [] ∧
        ({} : Names).collect 0 draft.statements.toList = (names, []) ∧
        names.resolveAll draft.statements.toList = (program.statements.toList, []) ∧
        program.labels = names.labels ∧ program.subs = names.subs := by
  unfold parse at hparse
  simp only at hparse
  split at hparse
  · rename_i herrors
    simp only [List.append_eq_nil_iff] at herrors
    obtain ⟨⟨⟨hlines, hunclosed⟩, hduplicates⟩, hunresolved⟩ := herrors
    cases hparse
    exact ⟨_, _, Prod.ext rfl hlines, hunclosed, Prod.ext rfl hduplicates,
      Prod.ext (by simp) hunresolved, rfl, rfl⟩
  · cases hparse

/-- What every program that parses has. -/
structure Linked (program : Program) : Prop where
  fits : ∀ clause ∈ program.clauses, clause.Fits
  outline : ∃ body : Body, body.clauses = program.clauses
  holds : ∀ body : Body, body.clauses = program.clauses → program.Holds 0 (body.layout 0)
  labels : program.labels.Lists Clause.labelName? 0 program.clauses
  subs : program.subs.Lists Clause.subName? 1 program.clauses
  goto : ∀ {index : Nat} {statement : Statement} {label : String},
    program.get? index = some statement → statement.clause = .goto label →
      ∃ place, program.label? label = some place ∧ statement.link = some place
  called : ∀ {index : Nat} {statement : Statement} {name : String},
    program.get? index = some statement → statement.clause.calledName? = some name →
      ∃ place, program.subs.get? name = some place ∧ statement.link = some place

section Resolved

variable {names : Names} {statements : List Statement}

theorem map_clause_of_resolve {linked : List Statement}
    (hresolve : statements.map names.resolve = linked.map .ok) :
    linked.map (·.clause) = statements.map (·.clause) := by
  apply List.ext_getElem?
  intro index
  have hindex := congrArg (·[index]?) hresolve
  simp only [List.getElem?_map] at hindex ⊢
  cases hold : statements[index]? <;> cases hnew : linked[index]? <;> simp_all
  exact (Names.resolve_eq_ok hindex).1

theorem map_shape_of_resolve {linked : List Statement}
    (hresolve : statements.map names.resolve = linked.map .ok) :
    linked.map Statement.shape =
      (statements.map fun statement => (statement.clause, statement.link)).map Shape.masked := by
  apply List.ext_getElem?
  intro index
  have hindex := congrArg (·[index]?) hresolve
  simp only [List.getElem?_map] at hindex ⊢
  cases hold : statements[index]? <;> cases hnew : linked[index]? <;> simp_all
  obtain ⟨hclause, hsame, -, -⟩ := Names.resolve_eq_ok hindex
  simp only [Statement.shape, Shape.masked, hclause]
  split
  · rfl
  · rename_i hrole
    rw [hsame hrole]

theorem exists_resolve {linked : List Statement} {index : Nat} {statement : Statement}
    (hresolve : statements.map names.resolve = linked.map .ok)
    (hstatement : linked[index]? = some statement) : ∃ old, names.resolve old = .ok statement := by
  have hindex := congrArg (·[index]?) hresolve
  simp only [List.getElem?_map, hstatement, Option.map_some] at hindex
  obtain ⟨old, -, hold⟩ := Option.map_eq_some_iff.1 hindex
  exact ⟨old, hold⟩

end Resolved

/-- The statements drafted from the clauses of a body are linked as its layout says. -/
theorem shapes_eq_layout {entries : List (Nat × Clause)} {body : Body}
    (hentries : entries.map Prod.snd = body.clauses) :
    (({} : Draft).addAll entries).shapes = body.layout 0 := by
  simpa [Draft.shapes] using (Draft.addAll_body body {} entries hentries).1

/-- A program that parses is linked. -/
theorem linked_of_parse (hparse : parse source = .ok program) : program.Linked := by
  obtain ⟨draft, names, hlines, hunclosed, hcollect, hresolve, hlabels, hsubs⟩ :=
    parse_eq_ok hparse
  obtain ⟨entries, body, rfl, hbody, hfits⟩ := Draft.readLines_outline hlines hunclosed
  have hlinked := Names.resolveAll_eq_ok hresolve
  have hdrafted : (({} : Draft).addAll entries).statements.toList.map (·.clause) =
      entries.map Prod.snd := by
    rw [hbody, ← body.map_fst_layout 0, ← shapes_eq_layout hbody, Draft.shapes, List.map_map]
    rfl
  have hclauses : program.clauses = entries.map Prod.snd :=
    (map_clause_of_resolve hlinked).trans hdrafted
  have hnothing : ({} : Names).Covers [] := ⟨.nil, .nil⟩
  have hcovers := hnothing.collect hcollect
  constructor
  case fits =>
    intro clause hclause
    rw [hclauses] at hclause
    obtain ⟨entry, hentry, rfl⟩ := List.mem_map.1 hclause
    exact hfits entry hentry
  case outline => exact ⟨body, (hclauses.trans hbody).symm⟩
  case holds =>
    intro other hother
    have hshapes : program.statements.toList.map Statement.shape = other.layout 0 := by
      have hentries := hclauses.symm.trans hother.symm
      rw [map_shape_of_resolve hlinked, ← other.map_masked_layout, ← shapes_eq_layout hentries]
      rfl
    simpa [hshapes] using program.holds_drop 0
  case labels =>
    rw [hlabels, hclauses, ← hdrafted]
    exact hcovers.labels
  case subs =>
    rw [hsubs, hclauses, ← hdrafted]
    exact hcovers.subs
  case goto =>
    intro index statement label hget hclause
    obtain ⟨old, hold⟩ := exists_resolve hlinked (Array.getElem?_toList.trans hget)
    obtain ⟨hsame, -, hgoto, -⟩ := Names.resolve_eq_ok hold
    rw [label?, hlabels]
    exact hgoto label (hsame.symm.trans hclause)
  case called =>
    intro index statement name hget hname
    obtain ⟨old, hold⟩ := exists_resolve hlinked (Array.getElem?_toList.trans hget)
    obtain ⟨hsame, -, -, hcalled⟩ := Names.resolve_eq_ok hold
    rw [hsubs]
    exact hcalled name (hsame ▸ hname)

theorem exists_of_any (source : String) (test : Program → Bool)
    (hany : (parse source).toOption.any test = true) :
    ∃ program, parse source = .ok program ∧ test program = true := by
  cases hparse : parse source with
  | ok program => exact ⟨program, rfl, by simpa [hparse, Except.toOption] using hany⟩
  | error errors => simp [hparse, Except.toOption] at hany

theorem exists_of_isOk (source : String) (hok : (parse source).isOk = true) :
    ∃ program, parse source = .ok program := by
  cases hparse : parse source with
  | ok program => exact ⟨program, rfl⟩
  | error errors => simp [hparse, Except.isOk, Except.toBool] at hok

end Program

end SmallBasic
