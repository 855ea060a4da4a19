import Mathlib.Order.Monotone.Basic
import SmallBasic.Program.Parse
import SmallBasic.Proofs.Translation

/-!
# Parsing a translated source

A translation goes on through the whole parser. The draft that is made of the translated lines is
the translation of the draft, the tables of names are the same, and errors come in the same order,
since lines do.

## Main definitions

* `Translation.draft`, `Translation.program` — drafts and programs on other lines.
* `Draft.finish` — what becomes of a draft once all lines are read.

## Main statements

* `Translation.carries_readTokens` — reading a line into a draft goes along with a translation.
* `Translation.carries_finish` — linking names and sorting errors does.
-/

namespace SmallBasic

namespace Translation

variable {T : Translation}

/-! ## Drafts -/

section Drafts

variable (T)

/-- The statement on its new line, with its names spelled anew. Its link stays. -/
def statement (statement : Statement) : Statement :=
  { statement with line := T.line statement.line, clause := T.clause statement.clause }

def draft (draft : Draft) : Draft := ⟨draft.statements.map T.statement, draft.openBlocks⟩

def program (program : Program) : Program :=
  { program with statements := program.statements.map T.statement }

end Drafts

@[simp] theorem role_clause (clause : Clause) : (T.clause clause).role = clause.role := by
  cases clause <;> rfl

@[simp] theorem opener?_clause (clause : Clause) : (T.clause clause).opener? = clause.opener? := by
  cases clause <;> rfl

@[simp] theorem openerAt?_draft (draft : Draft) (index : Nat) :
    (T.draft draft).openerAt? index = draft.openerAt? index := by
  simp only [Draft.openerAt?, Translation.draft, Array.getElem?_map]
  cases draft.statements[index]? <;> simp [statement]

@[simp] theorem innermost?_draft (draft : Draft) :
    (T.draft draft).innermost? = draft.innermost? := by
  rw [Draft.innermost?, Draft.innermost?, funext (openerAt?_draft draft)]
  rfl

@[simp] theorem inSub_draft (draft : Draft) : (T.draft draft).inSub = draft.inSub := by
  rw [Draft.inSub, Draft.inSub, funext (openerAt?_draft draft)]
  rfl

theorem link_statement (statements : Array Statement) (index target : Nat) :
    Draft.link (statements.map T.statement) index target =
      (Draft.link statements index target).map T.statement := by
  apply Array.ext_getElem?
  intro i
  simp only [Draft.link, Array.getElem?_modify, Array.getElem?_map]
  split <;> cases statements[i]? <;> rfl

theorem add_draft (draft : Draft) (line : Nat) (clause : Clause) :
    (T.draft draft).add (T.line line) (T.clause clause) = T.draft (draft.add line clause) := by
  obtain ⟨statements, blocks⟩ := draft
  simp only [Draft.add, Translation.draft, role_clause, Array.size_map, link_statement]
  split <;> simp only [Array.map_push] <;> rfl

theorem refusal?_draft (draft : Draft) (first : Token) (word : Keyword) :
    (draft.refusal? first word).map T.carried =
      ((T.draft draft).refusal? (T.token first) word).map T.plain := by
  simp only [Draft.refusal?, innermost?_draft]
  split
  · rfl
  · split
    · split
      · exact congrArg some (carried_unexpected first)
      · rfl
    · exact congrArg some (carried_error first _)

/-- A line adds to a draft what its translation adds to the translated draft. -/
theorem carries_readTokens (draft : Draft) (number : Nat) (first : Token) (rest : List Token) :
    T.Agree T.draft (draft.readTokens number first rest)
      ((T.draft draft).readTokens (T.line number) (T.token first) (rest.map T.token)) := by
  have hclause : T.Agree T.draft
      (do
        let clause ← (Line.ofTokens number (first :: rest)).readClause first rest
        if clause.opener? = some .sub ∧ draft.inSub then throw (first.error .nestedSub)
        return draft.add number clause)
      (do
        let clause ← (Line.ofTokens (T.line number) (T.token first :: rest.map T.token)).readClause
          (T.token first) (rest.map T.token)
        if clause.opener? = some .sub ∧ (T.draft draft).inSub then
          throw ((T.token first).error .nestedSub)
        return (T.draft draft).add (T.line number) clause) := by
    rw [← List.map_cons, ← lineOf_ofTokens]
    refine (carries_readClause _ first rest).bind fun clause _ => ?_
    rw [opener?_clause, inSub_draft, add_draft]
    split
    · exact .error (carried_error first _)
    · exact .ok (draft.add number clause)
  unfold Draft.readTokens
  rw [kind_token]
  cases first.kind with
  | keyword word =>
    dsimp only
    have hrefusal := refusal?_draft (T := T) draft first word
    generalize draft.refusal? first word = refusal? at hrefusal ⊢
    cases refusal? with
    | none =>
      rw [Option.map_none, eq_comm, Option.map_eq_none_iff] at hrefusal
      rw [hrefusal]
      exact hclause
    | some error =>
      rw [Option.map_some, eq_comm, Option.map_eq_some_iff] at hrefusal
      obtain ⟨other, hother, hsame⟩ := hrefusal
      rw [hother]
      exact .error hsame.symm
  | _ => exact hclause

theorem unclosed_draft (draft : Draft) :
    draft.unclosed.map T.carried = (T.draft draft).unclosed.map T.plain := by
  unfold Draft.unclosed
  rw [List.map_filterMap, List.map_filterMap]
  refine congrArg (draft.openBlocks.reverse.filterMap ·) (funext fun index => ?_)
  simp only [Translation.draft, Array.getElem?_map]
  cases draft.statements[index]? with
  | none => rfl
  | some found =>
    simp only [Option.map_some, Option.bind_eq_bind, Option.bind_some, statement, opener?_clause]
    cases found.clause.opener? <;> rfl

/-! ## Names -/

theorem declare_statement (names : Names) (index : Nat) (statement : Statement) :
    (names.declare index (T.statement statement)).1 = (names.declare index statement).1 ∧
      (names.declare index statement).2.map T.carried =
        (names.declare index (T.statement statement)).2.map T.plain := by
  obtain ⟨line, clause, link⟩ := statement
  cases clause with
  | label name =>
    have hcause := T.cause_renamed (.duplicateLabel name)
    simp only [Names.declare, Translation.statement, Translation.clause, T.foldCase_name, true_and]
    split <;> simp [carried, plain, hcause, SyntaxError.Cause.renamed]
  | sub name =>
    have hcause := T.cause_renamed (.duplicateSub name)
    simp only [Names.declare, Translation.statement, Translation.clause, T.foldCase_name, true_and]
    split <;> simp [carried, plain, hcause, SyntaxError.Cause.renamed]
  | _ => exact ⟨rfl, rfl⟩

theorem collect_statements (names : Names) (index : Nat) (statements : List Statement) :
    (names.collect index (statements.map T.statement)).1 = (names.collect index statements).1 ∧
      (names.collect index statements).2.map T.carried =
        (names.collect index (statements.map T.statement)).2.map T.plain := by
  induction statements generalizing names index with
  | nil => exact ⟨rfl, rfl⟩
  | cons statement statements ih =>
    obtain ⟨hnext, herrors⟩ := declare_statement (T := T) names index statement
    obtain ⟨hlast, hmore⟩ := ih (names.declare index statement).1 (index + 1)
    simp only [List.map_cons, Names.collect, hnext, List.map_append, herrors]
    exact ⟨hlast, by rw [hmore]⟩

theorem carries_resolve (names : Names) (statement : Statement) :
    Carries T.cause T.cause T.statement (names.resolve statement)
      (names.resolve (T.statement statement)) := by
  obtain ⟨line, clause, link⟩ := statement
  cases clause with
  | goto name =>
    simp only [Names.resolve, Translation.statement, Translation.clause, T.foldCase_name]
    split
    · exact .ok _
    · exact .error (T.cause_renamed (.undefinedLabel name))
  | callSub name | bind event name =>
    simp only [Names.resolve, Translation.statement, Translation.clause, T.foldCase_name]
    split
    · exact .ok _
    · exact .error (T.cause_renamed (.undefinedSub name))
  | assign place value =>
    cases place with
    | field f => exact .ok _
    | «variable» target indices =>
      -- Only a bare name as the value can be wrong.
      cases value with
      | «variable» name keys =>
        cases keys with
        | nil =>
          simp only [Names.resolve, Translation.statement, Translation.clause, Translation.place,
            T.expr_variable, T.foldCase_name, List.map_nil]
          split
          · exact .error (T.cause_renamed (.subAssignedToVariable name))
          · exact .of_eq (by simp [Translation.statement, Translation.clause, Translation.place,
              T.expr_variable])
        | cons key keys =>
          simp only [Names.resolve, Translation.statement, Translation.clause, Translation.place,
            T.expr_variable, List.map_cons]
          exact .of_eq (by simp [Translation.statement, Translation.clause, Translation.place,
            T.expr_variable])
      | literal | field | binary | call =>
        simp only [Names.resolve, Translation.statement, Translation.clause, Translation.place,
          T.expr_literal, T.expr_field, T.expr_binary, T.expr_call]
        exact .of_eq (by simp [Translation.statement, Translation.clause, Translation.place,
          T.expr_literal, T.expr_field, T.expr_binary, T.expr_call])
  | _ => exact .ok _

theorem resolveAll_statements (names : Names) (statements : List Statement) :
    (names.resolveAll (statements.map T.statement)).1 =
        (names.resolveAll statements).1.map T.statement ∧
      (names.resolveAll statements).2.map T.carried =
        (names.resolveAll (statements.map T.statement)).2.map T.plain := by
  induction statements with
  | nil => exact ⟨rfl, rfl⟩
  | cons statement statements ih =>
    obtain ⟨hlinked, herrors⟩ := ih
    have hcarries := carries_resolve (T := T) names statement
    rw [List.map_cons, Names.resolveAll, Names.resolveAll]
    generalize names.resolve statement = result at hcarries
    generalize names.resolve (T.statement statement) = other at hcarries
    cases hcarries with
    | ok resolved => exact ⟨by simp [hlinked], herrors⟩
    | error hsame =>
      refine ⟨by simp [hlinked], ?_⟩
      simp [herrors, carried, plain, hsame, Translation.statement]

/-! ## Sources -/

theorem le_carried (error other : SyntaxError) :
    error.le other = (T.carried error).le (T.carried other) := by
  have hline : (T.line error.line == T.line other.line) = (error.line == other.line) := by
    rw [Bool.eq_iff_iff, beq_iff_eq, beq_iff_eq, T.strictMono_line.injective.eq_iff]
  have hlt : decide (T.line error.line < T.line other.line) =
      decide (error.line < other.line) := decide_eq_decide.2 T.strictMono_line.lt_iff_lt
  change error.le other = (decide (T.line error.line < T.line other.line) ||
    (T.line error.line == T.line other.line && decide (error.column ≤ other.column)))
  rw [hline, hlt]
  rfl

theorem le_plain (error other : SyntaxError) :
    error.le other = (T.plain error).le (T.plain other) := rfl

end Translation

/-- What becomes of a draft once all lines are read: its names are linked, or all errors are
reported, those of the lines included. -/
def Draft.finish (draft : Draft) (lineErrors : List SyntaxError) :
    Except (List SyntaxError) Program :=
  let (names, duplicates) := ({} : Names).collect 0 draft.statements.toList
  let (statements, unresolved) := names.resolveAll draft.statements.toList
  match lineErrors ++ draft.unclosed ++ duplicates ++ unresolved with
  | [] => .ok ⟨statements.toArray, names.labels, names.subs⟩
  | errors => .error (errors.mergeSort SyntaxError.le)

theorem Program.parse_eq_finish (source : String) :
    Program.parse source =
      (({} : Draft).readLines 0 (lines source)).1.finish
        (({} : Draft).readLines 0 (lines source)).2 := rfl

namespace Translation

variable {T : Translation}

/-- What becomes of a draft goes along with the translation. -/
theorem carries_finish (draft : Draft) {lineErrors others : List SyntaxError}
    (hlines : lineErrors.map T.carried = others.map T.plain) :
    Carries (List.map T.carried) (List.map T.plain) T.program (draft.finish lineErrors)
      ((T.draft draft).finish others) := by
  have hstatements : (T.draft draft).statements.toList =
      draft.statements.toList.map T.statement := by simp [Translation.draft]
  have hunclosed := unclosed_draft (T := T) draft
  unfold Draft.finish
  rw [hstatements]
  generalize draft.statements.toList = statements
  obtain ⟨hnames, hduplicates⟩ := collect_statements (T := T) {} 0 statements
  dsimp only
  rw [hnames]
  generalize (({} : Names).collect 0 statements).1 = names
  obtain ⟨hlinked, hunresolved⟩ := resolveAll_statements (T := T) names statements
  have herrors := congrArg₂ (· ++ ·) (congrArg₂ (· ++ ·)
    (congrArg₂ (· ++ ·) hlines hunclosed) hduplicates) hunresolved
  simp only [← List.map_append] at herrors
  generalize _ ++ (names.resolveAll statements).2 = errors at herrors ⊢
  generalize _ ++ (names.resolveAll (statements.map T.statement)).2 = others at herrors ⊢
  cases errors with
  | nil =>
    rw [List.map_eq_nil_iff.1 herrors.symm]
    exact .of_eq (by simp only [program, List.map_toArray, hlinked])
  | cons error errors =>
    obtain ⟨other, rest, rfl, -, -⟩ := List.map_eq_cons_iff.1 herrors.symm
    refine .error ?_
    rw [List.map_mergeSort fun a _ b _ => le_carried a b,
      List.map_mergeSort fun a _ b _ => le_plain a b, herrors]

end Translation

end SmallBasic
