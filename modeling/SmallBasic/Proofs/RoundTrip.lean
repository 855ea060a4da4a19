import SmallBasic.Proofs.Acceptance
import SmallBasic.Proofs.Rereading

/-!
# Printing, then parsing

A program that is printed and parsed comes back as it was: its statements in order, each on the line
with its number, with the links that its blocks and its names ask for.

## Main definitions

* `Clause.linkIn` — where a clause leads that refers to a name.
* `Printable` — statements that a source text can say.
* `numbered` — the statements on the lines they are printed on.

## Main statements

* `Draft.readLines_print` — printed clauses are drafted line by line.
* `Names.resolve_eq_linkIn` — a reference is linked to the one place that declares its name.
* `parse_printAll` — parsing undoes printing.
-/

namespace SmallBasic

/-- Where a clause leads that refers to a name: to the label, or to the first statement of the
subroutine's body. -/
def Clause.linkIn (clauses : List Clause) : Clause → Option Nat
  | .goto name => clauses.findIdx? fun clause => clause.labelName? == some (foldCase name)
  | .callSub name | .bind _ name =>
    (clauses.findIdx? fun clause => clause.subName? == some (foldCase name)).map (· + 1)
  | _ => none

/-- Statements that a source text can say. -/
structure Printable (statements : List Statement) : Prop where
  /-- Names are names, members are used as the catalogue says, and comparators stand only in
  conditions. -/
  plain : ∀ clause ∈ statements.map (·.clause), clause.plain = true
  /-- Blocks are nested, no subroutine stands inside another one, and the blocks are linked. -/
  outline : ∃ body : Body, body.apart false = true ∧
    body.layout 0 = statements.map Statement.shape
  labels : (labelsOf (statements.map (·.clause))).Nodup
  subs : (subsOf (statements.map (·.clause))).Nodup
  /-- What is referred to is declared, and no variable is assigned a subroutine. -/
  refers : ∀ clause ∈ statements.map (·.clause),
    clause.Refers (labelsOf (statements.map (·.clause))) (subsOf (statements.map (·.clause)))
  /-- References are linked, and nothing else that belongs to no block is. -/
  links : ∀ statement ∈ statements, statement.clause.role = .simple →
    statement.link = statement.clause.linkIn (statements.map (·.clause))

/-- The statements on the lines they are printed on. -/
def numbered (statements : List Statement) : List Statement :=
  statements.mapIdx fun index statement => { statement with line := index }

/-! ## Lines -/

theorem Line.alone_print {clause : Clause} (hplain : clause.plain = true) (number : Nat) :
    Line.alone number clause.print = .ok (some clause) := by
  have hspells := Clause.spells_print hplain number
  rw [alone]
  generalize tokenize number clause.print = tokens at hspells
  cases tokens with
  | nil =>
    have hlength := hspells.length_eq
    have hpos : 0 < clause.lexemes.length := by
      cases clause with
      | assign place => cases place <;> simp [Clause.lexemes]
      | _ => simp [Clause.lexemes]
    simp only [List.length_nil] at hlength
    omega
  | cons first rest => exact Except.map_eq_ok_iff.2 ⟨_, readClause_lexemes _ hplain hspells, rfl⟩

namespace Draft

variable {draft : Draft}

theorem lines_addAll (draft : Draft) (entries : List (Nat × Clause)) :
    (draft.addAll entries).statements.toList.map (·.line) =
      draft.statements.toList.map (·.line) ++ entries.map Prod.fst := by
  induction entries generalizing draft with
  | nil => simp
  | cons entry entries ih =>
    rw [addAll_cons, ih, map_add fun _ _ _ => rfl]
    simp

/-- Printed clauses are drafted line by line where they may stand. -/
theorem readLines_print {clauses : List Clause} (hplain : ∀ clause ∈ clauses, clause.plain = true)
    {words left : List Keyword} (htracks : draft.Tracks words)
    (hnest : nestApartAll words clauses = some left) (number : Nat) :
    draft.readLines number (clauses.map Clause.print) =
        (draft.addAll ((clauses.zipIdx number).map Prod.swap), []) ∧
      (draft.addAll ((clauses.zipIdx number).map Prod.swap)).Tracks left := by
  induction clauses generalizing draft words number with
  | nil =>
    cases hnest
    exact ⟨rfl, htracks⟩
  | cons clause clauses ih =>
    obtain ⟨hfirst, hrest⟩ := List.forall_mem_cons.1 hplain
    obtain ⟨next, hnext, hnest⟩ := Option.bind_eq_some_iff.1 hnest
    obtain ⟨hnone, -⟩ | ⟨other, first, rest, hother, hclause, hline⟩ :=
      draft.readLine_of_alone (Line.alone_print hfirst number)
    · cases hnone
    · obtain rfl := Option.some.inj hother
      have hread := (readTokens_eq_ok_iff htracks hclause).2 ⟨rfl, next, hnext⟩
      have hafter := htracks.add (nest_of_nestApart hnext) number
      rw [List.map_cons, readLines, hline, hread, List.zipIdx_cons, List.map_cons, addAll_cons]
      exact ih hrest hafter hnest (number + 1)

end Draft

/-! ## Links -/

namespace Names

/-- A name stands for the first clause that declares it. -/
theorem map_findIdx?_of_lists {table : Table Nat} {declared : Clause → Option String}
    {offset : Nat} {clauses : List Clause} (hlists : table.Lists declared offset clauses)
    {name : String} {place : Nat} (hget : table.get? name = some place) :
    (clauses.findIdx? fun clause => declared clause == some name).map (· + offset) =
      some place := by
  obtain ⟨index, clause, hclause, hname, -⟩ := (hlists name place).1 hget
  cases hfound : clauses.findIdx? fun clause => declared clause == some name with
  | none =>
    have hnone := List.findIdx?_eq_none_iff.1 hfound clause (List.mem_of_getElem? hclause)
    simp [hname] at hnone
  | some first =>
    obtain ⟨hlt, hfirst, -⟩ := List.findIdx?_eq_some_iff_getElem.1 hfound
    have hplace := (hlists name (first + offset)).2
      ⟨first, clauses[first], List.getElem?_eq_getElem hlt, by simpa using hfirst, rfl⟩
    rw [Option.map_some, ← hplace, hget]

variable {names : Names} {clauses : List Clause}

/-- Linking a statement that has no link of its own leads it where its name is declared. -/
theorem resolve_eq_linkIn (hlabels : names.labels.Lists Clause.labelName? 0 clauses)
    (hsubs : names.subs.Lists Clause.subName? 1 clauses) {statement resolved : Statement}
    (hlink : statement.clause.role = .simple → statement.link = none)
    (hresolve : names.resolve statement = .ok resolved) :
    resolved = { statement with
      link := if statement.clause.role = .simple then statement.clause.linkIn clauses
        else statement.link } := by
  obtain ⟨line, clause, link⟩ := statement
  have hsame : ∀ {resolved : Statement}, clause.linkIn clauses = none →
      (.ok ⟨line, clause, link⟩ : Except SyntaxError.Cause Statement) = .ok resolved →
      resolved = ⟨line, clause, if clause.role = .simple then clause.linkIn clauses else link⟩ := by
    rintro _ hnone ⟨⟩
    split
    · rw [hnone, show link = none from hlink ‹_›]
    · rfl
  cases clause with
  | goto name =>
    simp only [resolve] at hresolve
    split at hresolve
    · rename_i place hplace
      have hfound := map_findIdx?_of_lists hlabels hplace
      simp only [Nat.add_zero, Option.map_id'] at hfound
      cases hresolve
      simp [Clause.role, Clause.linkIn, hfound]
    · cases hresolve
  | callSub name | bind event name =>
    simp only [resolve] at hresolve
    split at hresolve
    · rename_i place hplace
      cases hresolve
      simp [Clause.role, Clause.linkIn, map_findIdx?_of_lists hsubs hplace]
    · cases hresolve
  | assign place value =>
    refine hsame rfl ?_
    cases place with
    | field => exact hresolve
    | «variable» target indices =>
      cases value with
      | «variable» name keys =>
        cases keys with
        | cons => exact hresolve
        | nil =>
          simp only [resolve] at hresolve
          split at hresolve
          · cases hresolve
          · exact hresolve
      | _ => exact hresolve
  | _ => exact hsame rfl hresolve

end Names

/-- Statements are determined by their lines and their shapes. -/
theorem eq_of_lines_of_shapes {statements others : List Statement}
    (hlines : statements.map (·.line) = others.map (·.line))
    (hshapes : statements.map (fun statement => (statement.clause, statement.link)) =
      others.map fun statement => (statement.clause, statement.link)) : statements = others := by
  apply List.ext_getElem?
  intro index
  have hline := congrArg (·[index]?) hlines
  have hshape := congrArg (·[index]?) hshapes
  simp only [List.getElem?_map] at hline hshape
  cases hfirst : statements[index]? with
  | none =>
    rw [hfirst] at hline
    exact (Option.map_eq_none_iff.1 hline.symm).symm
  | some statement =>
    rw [hfirst] at hline hshape
    obtain ⟨other, hother, hsame⟩ := Option.map_eq_some_iff.1 hline.symm
    rw [hother] at hshape ⊢
    obtain ⟨hclause, hlink⟩ := Prod.mk.inj (Option.some.inj hshape)
    obtain ⟨line, clause, link⟩ := statement
    obtain ⟨otherLine, otherClause, otherLink⟩ := other
    simp_all

/-- The statements on the lines they are printed on, with the links of their blocks only. -/
def drafted (statements : List Statement) : List Statement :=
  statements.mapIdx fun index statement => ⟨index, statement.shape.1, statement.shape.2⟩

theorem map_clause_drafted (statements : List Statement) :
    (drafted statements).map (·.clause) = statements.map (·.clause) := by
  apply List.ext_getElem?
  intro index
  simp only [drafted, List.getElem?_map, List.getElem?_mapIdx, Option.map_map]
  rfl

/-- Printed statements are drafted on their lines. -/
theorem Draft.toList_addAll_print {statements : List Statement} {body : Body}
    (hlayout : body.layout 0 = statements.map Statement.shape) {entries : List (Nat × Clause)}
    (hentries : entries = (statements.map (·.clause)).zipIdx.map Prod.swap) :
    (({} : Draft).addAll entries).statements.toList = drafted statements := by
  have hsnd : entries.map Prod.snd = body.clauses := by
    rw [← body.map_fst_layout 0, hlayout, hentries]
    simp [Function.comp_def, Statement.shape]
  have hfst : entries.map Prod.fst = List.range statements.length := by
    rw [hentries]
    simp [Function.comp_def, List.range_eq_range']
  apply eq_of_lines_of_shapes
  · rw [lines_addAll, hfst]
    apply List.ext_getElem
    · simp [drafted]
    · simp [drafted]
  · rw [← Draft.shapes, Program.shapes_eq_layout hsnd, hlayout]
    apply List.ext_getElem?
    intro index
    simp only [drafted, List.getElem?_map, List.getElem?_mapIdx, Option.map_map]
    rfl

/-- Linking the drafted statements gives back their links. -/
theorem eq_numbered_of_resolve {statements linked : List Statement} {names : Names}
    (hcovers : names.Covers (drafted statements))
    (hlinks : ∀ statement ∈ statements, statement.clause.role = .simple →
      statement.link = statement.clause.linkIn (statements.map (·.clause)))
    (hresolve : (drafted statements).map names.resolve = linked.map .ok) :
    linked = numbered statements := by
  have hlabels := hcovers.labels
  have hsubs := hcovers.subs
  rw [map_clause_drafted] at hlabels hsubs
  apply List.ext_getElem?
  intro index
  have hindex := congrArg (·[index]?) hresolve
  simp only [drafted, numbered, List.getElem?_map, List.getElem?_mapIdx, Option.map_map] at hindex ⊢
  cases hstatement : statements[index]? with
  | none =>
    rw [hstatement] at hindex
    exact Option.map_eq_none_iff.1 hindex.symm
  | some statement =>
    rw [hstatement] at hindex
    obtain ⟨resolved, hresolved, hsame⟩ := Option.map_eq_some_iff.1 hindex.symm
    have hlink : statement.clause.role = .simple → statement.shape.2 = none :=
      fun hrole => if_pos hrole
    rw [hresolved, Names.resolve_eq_linkIn hlabels hsubs hlink hsame.symm]
    by_cases hrole : statement.clause.role = .simple
    · have hown := hlinks statement (List.mem_of_getElem? hstatement) hrole
      simp [Statement.shape, hrole, ← hown]
    · simp [Statement.shape, hrole]

/-- Parsing undoes printing. -/
theorem parse_printAll {statements : List Statement} (hprintable : Printable statements) :
    ∃ program, Program.parse (printAll (statements.map (·.clause))) = .ok program ∧
      program.statements.toList = numbered statements := by
  obtain ⟨hplain, ⟨body, hapart, hlayout⟩, hlabels, hsubs, hrefers, hlinks⟩ := hprintable
  have hclauses : body.clauses = statements.map (·.clause) := by
    rw [← body.map_fst_layout 0, hlayout, List.map_map]
    rfl
  have hnest := nestApartAll_eq_some_iff.2 ⟨body, hclauses, hapart⟩
  have htracks : ({} : Draft).Tracks [] := rfl
  obtain ⟨hread, hleft⟩ := Draft.readLines_print hplain htracks hnest 0
  have hdraft := Draft.toList_addAll_print hlayout rfl
  rw [← lines_printAll hplain] at hread
  generalize ({} : Draft).addAll _ = draft at hread hleft hdraft
  have hsame : draft.clauses = statements.map (·.clause) := by
    rw [Draft.clauses, hdraft, map_clause_drafted]
  obtain ⟨program, hparse⟩ := Program.exists_parse_iff.2 ⟨draft, hread,
    hleft.unclosed_eq_nil_iff.2 rfl, (Program.names_iff draft).2 (by
      rw [hsame]
      exact ⟨hlabels, hsubs, hrefers⟩)⟩
  refine ⟨program, hparse, ?_⟩
  obtain ⟨other, names, hother, -, hcollect, hresolve, -⟩ := Program.parse_eq_ok hparse
  obtain rfl : draft = other := congrArg Prod.fst (hread.symm.trans hother)
  have hnothing : ({} : Names).Covers [] := ⟨.nil, .nil⟩
  have hcovers := hnothing.collect hcollect
  rw [List.nil_append, hdraft] at hcovers
  rw [hdraft] at hresolve
  exact eq_numbered_of_resolve hcovers hlinks (Names.resolveAll_eq_ok hresolve)

/-- A chain, a label, and a subroutine that is called and bound to an event before and inside its
body. -/
def greeting : List Statement :=
  [⟨0, .if (.binary .and (.binary .equal (.variable "x" [.literal "1"]) (.literal "a, b"))
      (.binary .less (.call (.math .abs) [.literal "-2"]) (.field .pi))), some 2⟩,
    ⟨1, .goto "Done", some 5⟩,
    ⟨2, .else, some 4⟩,
    ⟨3, .callSub "greet", some 7⟩,
    ⟨4, .endIf, none⟩,
    ⟨5, .label "done", none⟩,
    ⟨6, .sub "Greet", some 9⟩,
    ⟨7, .invoke (.window .writeLine) [.binary .add (.variable "x" []) (.literal "!")], none⟩,
    ⟨8, .bind .tick "GREET", some 7⟩,
    ⟨9, .endSub, none⟩]

theorem parse_printAll_greeting :
    printAll (greeting.map (·.clause)) =
        "If (x[\"1\"] = \"a, b\") And (Math.Abs(\"-2\") < Math.Pi) Then\nGoto Done\nElse\n" ++
          "greet()\nEndIf\ndone:\nSub Greet\nTextWindow.WriteLine(x + \"!\")\n" ++
          "Timer.Tick = GREET\nEndSub\n" ∧
      Printable greeting ∧
      ∃ program, Program.parse (printAll (greeting.map (·.clause))) = .ok program ∧
        program.statements.toList = numbered greeting := by
  have hprintable : Printable greeting := by
    constructor
    case plain => decide +kernel
    case outline =>
      refine ⟨.chain _ (.step (.goto "Done") rfl .nil) (.else (.step (.callSub "greet") rfl .nil))
        (.step (.label "done") rfl (.block (.sub "Greet") (.step _ rfl
          (.step (.bind .tick "GREET") rfl .nil)) .nil)), rfl, rfl⟩
    case labels => decide +kernel
    case subs => decide +kernel
    case refers =>
      intro clause hclause
      constructor
      case goto =>
        rintro label rfl
        obtain rfl : label = "Done" := by simpa [greeting] using hclause
        decide +kernel
      case called =>
        have hcalled : ∀ clause ∈ greeting.map (·.clause), ∀ name ∈ clause.calledName?,
            name ∈ greeting.filterMap (·.clause.subName?) := by decide +kernel
        exact hcalled clause hclause
      case value =>
        rintro target indices name rfl
        simp [greeting] at hclause
    case links => decide +kernel
  exact ⟨by decide +kernel, hprintable, parse_printAll hprintable⟩

end SmallBasic
