import SmallBasic.Proofs.Spelling
import SmallBasic.Proofs.TranslatedParsing

/-!
# Parsing without case

Two spellings of a source have the same program, up to the case of the names in its statements, or
the same errors, up to the case of the texts in their messages. What is open around a line, what a
name stands for and in which order errors are reported depends on no case.

Taking the case away is a translation of the tokens, which leaves every token on its line.

## Main definitions

* `Expr.caseless`, `Clause.caseless`, `SyntaxError.caseless` — without the case of names.
* `Draft.caseless`, `Program.caseless` — without the case of names. Lines, links and tables stay.
* `Translation.caseless` — the translation that takes the case away.
* `Alike` — two results that are equal without case.

## Main statements

* `Draft.alike_readLine` — a line adds the same to drafts that are equal without case.
* `Respells.alike_parse` — two spellings have the same program or the same errors.
-/

namespace SmallBasic

/-! ## Without case -/

mutual

/-- The expression without the case of its names. -/
def Expr.caseless : Expr → Expr
  | .literal text => .literal text
  | .variable name indices => .variable (foldCase name) (Expr.caselessAll indices)
  | .field f => .field f
  | .binary op left right => .binary op left.caseless right.caseless
  | .call method args => .call method (Expr.caselessAll args)

/-- The expressions without the case of their names. -/
def Expr.caselessAll : List Expr → List Expr
  | [] => []
  | e :: es => e.caseless :: Expr.caselessAll es

end

theorem Expr.caselessAll_eq_map (es : List Expr) : Expr.caselessAll es = es.map Expr.caseless := by
  induction es with
  | nil => rfl
  | cons e es ih => rw [Expr.caselessAll, ih, List.map_cons]

def Place.caseless : Place → Place
  | .variable name indices => .variable (foldCase name) (indices.map Expr.caseless)
  | .field f => .field f

/-- The clause without the case of its names. -/
def Clause.caseless : Clause → Clause
  | .assign place value => .assign place.caseless value.caseless
  | .bind event handler => .bind event (foldCase handler)
  | .invoke method args => .invoke method (args.map Expr.caseless)
  | .label name => .label (foldCase name)
  | .goto name => .goto (foldCase name)
  | .callSub name => .callSub (foldCase name)
  | .if condition => .if condition.caseless
  | .elseIf condition => .elseIf condition.caseless
  | .else => .else
  | .endIf => .endIf
  | .while condition => .while condition.caseless
  | .endWhile => .endWhile
  | .for counter lower upper => .for (foldCase counter) lower.caseless upper.caseless
  | .endFor => .endFor
  | .sub name => .sub (foldCase name)
  | .endSub => .endSub

def MemberError.caseless : MemberError → MemberError
  | .unknownObject object => .unknownObject (foldCase object)
  | .unknownMember object member => .unknownMember (foldCase object) (foldCase member)
  | .wrongKind object member wanted => .wrongKind (foldCase object) (foldCase member) wanted
  | .wrongArity object member expected given =>
    .wrongArity (foldCase object) (foldCase member) expected given

def SyntaxError.Cause.caseless : SyntaxError.Cause → SyntaxError.Cause
  | .unexpectedToken text => .unexpectedToken (foldCase text)
  | .duplicateLabel name => .duplicateLabel (foldCase name)
  | .duplicateSub name => .duplicateSub (foldCase name)
  | .undefinedLabel name => .undefinedLabel (foldCase name)
  | .undefinedSub name => .undefinedSub (foldCase name)
  | .member error => .member error.caseless
  | .subAssignedToVariable name => .subAssignedToVariable (foldCase name)
  | cause => cause

/-- The error without the case of the texts in its message. Place and cause stay. -/
def SyntaxError.caseless (error : SyntaxError) : SyntaxError :=
  { error with cause := error.cause.caseless }

/-- The statement without the case of its names. Its line and its link stay. -/
def Statement.caseless (statement : Statement) : Statement :=
  { statement with clause := statement.clause.caseless }

/-- The draft without the case of its names. -/
def Draft.caseless (draft : Draft) : Draft :=
  ⟨draft.statements.map Statement.caseless, draft.openBlocks⟩

/-- The program without the case of the names in its statements. Lines, links and tables stay. -/
def Program.caseless (program : Program) : Program :=
  { program with statements := program.statements.map Statement.caseless }

/-! ## The translation -/

namespace Token

variable {token : Token}

theorem text_caseless (hsymbol : token.kind = .symbol) :
    token.caseless.text = foldCase token.text := by
  rw [caseless, if_neg (by simp [hsymbol]), lower]

theorem caseless_of_literal (hliteral : token.kind = .string ∨ token.kind = .number) :
    token.caseless = token := if_pos hliteral

@[simp] theorem foldCase_text_caseless (token : Token) :
    foldCase token.caseless.text = foldCase token.text := by
  unfold caseless
  split
  · rfl
  · exact foldCase_foldCase token.text

@[simp] theorem length_text_caseless (token : Token) :
    token.caseless.text.length = token.text.length := by
  unfold caseless
  split
  · rfl
  · exact length_foldCase token.text

end Token

/-- Takes the case away. Lines stay. -/
def Translation.caseless : Translation where
  line := id
  name := foldCase
  text token := token.caseless.text
  expr := Expr.caseless
  cause := SyntaxError.Cause.caseless
  strictMono_line := strictMono_id
  foldCase_name := foldCase_foldCase
  text_symbol := Token.text_caseless
  text_literal hkind := congrArg Token.text (Token.caseless_of_literal hkind.symm)
  length_text := Token.length_text_caseless
  expr_literal _ := by rw [Expr.caseless]
  expr_variable _ _ := by rw [Expr.caseless, Expr.caselessAll_eq_map]
  expr_field _ := by rw [Expr.caseless]
  expr_binary _ _ _ := by rw [Expr.caseless]
  expr_call _ _ := by rw [Expr.caseless, Expr.caselessAll_eq_map]
  cause_unexpected token := by simp [SyntaxError.Cause.caseless]
  cause_renamed cause := by
    cases cause with
    | member error =>
      cases error <;>
        simp [SyntaxError.Cause.renamed, MemberError.renamed, SyntaxError.Cause.caseless,
          MemberError.caseless]
    | _ => simp [SyntaxError.Cause.renamed, SyntaxError.Cause.caseless]

namespace Translation

theorem token_caseless (token : Token) : caseless.token token = token.caseless := by
  have hcaseless : { token with text := token.caseless.text } = token.caseless := by
    unfold Token.caseless
    split <;> rfl
  exact hcaseless

theorem statement_caseless : caseless.statement = Statement.caseless := by
  funext statement
  obtain ⟨line, clause, link⟩ := statement
  cases clause with
  | assign place value => cases place <;> rfl
  | _ => rfl

theorem draft_caseless : caseless.draft = Draft.caseless := by
  funext draft
  rw [Translation.draft, statement_caseless, Draft.caseless]

theorem program_caseless : caseless.program = Program.caseless := by
  funext program
  rw [Translation.program, statement_caseless, Program.caseless]

end Translation

/-! ## Results -/

/-- Both results are values, or both are errors, and they are equal without case: `f` takes the case
from values, and `g` from errors. -/
inductive Alike {ε α β : Type} (g : ε → ε) (f : α → β) : Except ε α → Except ε α → Prop
  | ok {value other : α} (hsame : f value = f other) : Alike g f (.ok value) (.ok other)
  | error {error other : ε} (hsame : g error = g other) : Alike g f (.error error) (.error other)

/-- Results that are carried into the same one are alike. -/
theorem Carries.alike {ε α β : Type} {g : ε → ε} {f : α → β} {x y : Except ε α} {z : Except ε β}
    (hx : Carries g g f x z) (hy : Carries g g f y z) : Alike g f x y := by
  cases x with
  | ok value =>
    have hz := hx.eq_ok rfl
    cases y with
    | ok other => exact .ok (Except.ok.inj (hz.symm.trans (hy.eq_ok rfl)))
    | error error =>
      subst hz
      cases hy
  | error error =>
    cases hx with
    | error hsame =>
      cases hy with
      | error hother => exact .error (hsame.trans hother.symm)

namespace Draft

theorem carries_readTokens (draft : Draft) (number : Nat) (first : Token) (rest : List Token) :
    Carries SyntaxError.caseless SyntaxError.caseless caseless (draft.readTokens number first rest)
      (draft.caseless.readTokens number first.caseless (rest.map Token.caseless)) := by
  have hcarries := Translation.carries_readTokens (T := .caseless) draft number first rest
  rwa [Translation.draft_caseless, Translation.token_caseless,
    funext Translation.token_caseless] at hcarries

/-- A line adds the same to drafts that are equal without case. -/
theorem alike_readLine {draft other : Draft} (hdraft : draft.caseless = other.caseless)
    {text spelling : String} (htokens : SameTokens text spelling) (number : Nat) :
    Alike SyntaxError.caseless caseless (draft.readLine number text)
      (other.readLine number spelling) := by
  have hsame := htokens number
  rw [readLine, readLine]
  generalize tokenize number text = tokens at hsame
  generalize tokenize number spelling = others at hsame
  cases tokens with
  | nil =>
    rw [List.map_eq_nil_iff.1 hsame.symm]
    exact .ok hdraft
  | cons first rest =>
    obtain ⟨firstOther, restOther, rfl, hfirst, hrest⟩ := List.map_eq_cons_iff.1 hsame.symm
    have hother := other.carries_readTokens number firstOther restOther
    rw [hfirst, hrest, ← hdraft] at hother
    exact (draft.carries_readTokens number first rest).alike hother

/-- Lines with the same tokens, up to case, give the same draft and the same errors. -/
theorem readLines_caseless {draft other : Draft} (hdraft : draft.caseless = other.caseless)
    {texts spellings : List String} (htokens : List.Forall₂ SameTokens texts spellings)
    (number : Nat) :
    (draft.readLines number texts).1.caseless = (other.readLines number spellings).1.caseless ∧
      (draft.readLines number texts).2.map SyntaxError.caseless =
        (other.readLines number spellings).2.map SyntaxError.caseless := by
  induction htokens generalizing draft other number with
  | nil => exact ⟨hdraft, rfl⟩
  | cons hline _ ih =>
    rw [readLines, readLines]
    have halike := alike_readLine hdraft hline number
    generalize draft.readLine number _ = read at halike
    generalize other.readLine number _ = reread at halike
    cases halike with
    | ok hnext => exact ih hnext (number + 1)
    | error herror =>
      obtain ⟨hlast, herrors⟩ := ih hdraft (number + 1)
      exact ⟨hlast, by simp only [List.map_cons, herror, herrors]⟩

theorem carries_finish (draft : Draft) {lineErrors others : List SyntaxError}
    (hlines : lineErrors.map SyntaxError.caseless = others.map SyntaxError.caseless) :
    Carries (List.map SyntaxError.caseless) (List.map SyntaxError.caseless) Program.caseless
      (draft.finish lineErrors) (draft.caseless.finish others) := by
  have hcarries := Translation.carries_finish (T := .caseless) draft hlines
  rwa [Translation.draft_caseless, Translation.program_caseless] at hcarries

end Draft

/-- Two spellings of a source have the same program or the same errors, up to case. -/
theorem Respells.alike_parse {source other : String} (hrespells : Respells source other) :
    Alike (List.map SyntaxError.caseless) Program.caseless (Program.parse source)
      (Program.parse other) := by
  have hempty : ({} : Draft).caseless = ({} : Draft).caseless := rfl
  obtain ⟨hdraft, hlines⟩ := Draft.readLines_caseless hempty hrespells.sameTokens 0
  have hother := Draft.carries_finish (({} : Draft).readLines 0 (lines other)).1
    (rfl : (({} : Draft).readLines 0 (lines other)).2.map SyntaxError.caseless = _)
  rw [← hdraft] at hother
  exact (Draft.carries_finish _ hlines).alike hother

end SmallBasic
