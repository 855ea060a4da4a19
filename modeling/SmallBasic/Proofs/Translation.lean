import Mathlib.Order.Monotone.Basic
import SmallBasic.Proofs.Reading
import SmallBasic.Text.Case

/-!
# Translations of a source

What is read from tokens depends on their kinds, on the texts of names up to case, and on the texts
of literals. It does not depend on the numbers of their lines, nor on anything else. So a
translation, which gives tokens other lines and other texts within these limits, takes what is read
from some tokens into what is read from their translations, and errors into errors at the
corresponding places.

## Main definitions

* `Translation` — other lines, and other spellings of names.
* `Carries` — two results that are translations of each other.
* `Translation.ReadsWith` — the readers of expressions go along with a translation.

## Main statements

* `Translation.readsWith` — reading an expression goes along with a translation.
* `Translation.carries_readClause` — reading a clause does.
-/

namespace SmallBasic

/-! ## Results -/

/-- Both results are values, and `f` takes the first into the second; or both are errors, which `g`
and `h` take into the same. -/
inductive Carries {ε α β : Type} (g h : ε → ε) (f : α → β) : Except ε α → Except ε β → Prop
  | ok (value : α) : Carries g h f (.ok value) (.ok (f value))
  | error {error other : ε} (hsame : g error = h other) :
      Carries g h f (.error error) (.error other)

namespace Carries

variable {ε α β γ δ : Type} {g h : ε → ε} {f : α → β} {f' : γ → δ} {x : Except ε α} {y : Except ε β}

theorem bind {k : α → Except ε γ} {l : β → Except ε δ} (hx : Carries g h f x y)
    (hk : ∀ value, x = .ok value → Carries g h f' (k value) (l (f value))) :
    Carries g h f' (x >>= k) (y >>= l) := by
  cases hx with
  | ok value => exact hk value rfl
  | error hsame => exact .error hsame

theorem map {k : α → γ} {l : β → δ} (hx : Carries g h f x y)
    (hk : ∀ value, f' (k value) = l (f value)) : Carries g h f' (k <$> x) (l <$> y) := by
  cases hx with
  | ok value =>
    show Carries g h f' (.ok (k value)) (.ok (l (f value)))
    rw [← hk]
    exact .ok _
  | error hsame => exact .error hsame

theorem eq_ok {value : α} (hx : Carries g h f x y) (hvalue : x = .ok value) :
    y = .ok (f value) := by
  subst hvalue
  cases hx
  rfl

theorem of_eq {value : α} {other : β} (hsame : f value = other) :
    Carries g h f (.ok value) (.ok other) := hsame ▸ .ok value

end Carries

/-! ## Translations -/

/-- The error with other names in it. Objects and members that were found keep their own. -/
def MemberError.renamed (f : String → String) : MemberError → MemberError
  | .unknownObject object => .unknownObject (f object)
  | .unknownMember object member => .unknownMember object (f member)
  | error => error

def SyntaxError.Cause.renamed (f : String → String) : SyntaxError.Cause → SyntaxError.Cause
  | .duplicateLabel name => .duplicateLabel (f name)
  | .duplicateSub name => .duplicateSub (f name)
  | .undefinedLabel name => .undefinedLabel (f name)
  | .undefinedSub name => .undefinedSub (f name)
  | .subAssignedToVariable name => .subAssignedToVariable (f name)
  | .member error => .member (error.renamed f)
  | cause => cause

/-- Other lines for tokens, in the same order, other texts, and other spellings of names, up to
case. `expr` is what this does to expressions. Errors are compared after `cause`, which does not see
the spelling of a text. -/
structure Translation where
  line : Nat → Nat
  name : String → String
  text : Token → String
  expr : Expr → Expr
  cause : SyntaxError.Cause → SyntaxError.Cause
  strictMono_line : StrictMono line
  foldCase_name (name' : String) : foldCase (name name') = foldCase name'
  text_symbol {token : Token} (hkind : token.kind = .symbol) : text token = name token.text
  text_literal {token : Token} (hkind : token.kind = .number ∨ token.kind = .string) :
    text token = token.text
  length_text (token : Token) : (text token).length = token.text.length
  expr_literal (text : String) : expr (.literal text) = .literal text
  expr_variable (name' : String) (indices : List Expr) :
    expr (.variable name' indices) = .variable (name name') (indices.map expr)
  expr_field (field : Field) : expr (.field field) = .field field
  expr_binary (op : Operator) (left right : Expr) :
    expr (.binary op left right) = .binary op (expr left) (expr right)
  expr_call (method : Method) (args : List Expr) :
    expr (.call method args) = .call method (args.map expr)
  cause_unexpected (token : Token) :
    cause (.unexpectedToken token.text) = cause (.unexpectedToken (text token))
  cause_renamed (cause' : SyntaxError.Cause) : cause cause' = cause (cause'.renamed name)

namespace Translation

variable (T : Translation)

def token (token : Token) : Token := { token with line := T.line token.line, text := T.text token }

def place : Place → Place
  | .variable name indices => .variable (T.name name) (indices.map T.expr)
  | .field field => .field field

def clause : Clause → Clause
  | .assign place value => .assign (T.place place) (T.expr value)
  | .bind event handler => .bind event (T.name handler)
  | .invoke method args => .invoke method (args.map T.expr)
  | .label name => .label (T.name name)
  | .goto name => .goto (T.name name)
  | .callSub name => .callSub (T.name name)
  | .if condition => .if (T.expr condition)
  | .elseIf condition => .elseIf (T.expr condition)
  | .else => .else
  | .endIf => .endIf
  | .while condition => .while (T.expr condition)
  | .endWhile => .endWhile
  | .for counter lower upper => .for (T.name counter) (T.expr lower) (T.expr upper)
  | .endFor => .endFor
  | .sub name => .sub (T.name name)
  | .endSub => .endSub

/-- The line of the translated tokens. -/
def lineOf (line : Line) : Line := { line with number := T.line line.number }

/-- What the translation makes of an error. -/
def carried (error : SyntaxError) : SyntaxError :=
  ⟨T.line error.line, error.column, T.cause error.cause⟩

/-- What an error of the translated source is compared as. -/
def plain (error : SyntaxError) : SyntaxError := { error with cause := T.cause error.cause }

/-- Results of which the second is the translation of the first. -/
abbrev Agree {α β : Type} (f : α → β) : Except SyntaxError α → Except SyntaxError β → Prop :=
  Carries T.carried T.plain f

/-- Results of reading: a value and the tokens that are left. -/
abbrev Reads {α : Type} (f : α → α) : Except SyntaxError (α × List Token) →
    Except SyntaxError (α × List Token) → Prop :=
  T.Agree (Prod.map f (List.map T.token))

/-- Results of reading up to a token: a value, the token, and the tokens after it. -/
abbrev ReadsUpTo {α : Type} (f : α → α) : Except SyntaxError (α × Option Token × List Token) →
    Except SyntaxError (α × Option Token × List Token) → Prop :=
  T.Agree (Prod.map f (Prod.map (Option.map T.token) (List.map T.token)))

variable {T}

@[simp] theorem kind_token (token : Token) : (T.token token).kind = token.kind := rfl

theorem text_token {token : Token} (hkind : token.kind = .symbol) :
    (T.token token).text = T.name token.text := T.text_symbol hkind

theorem content_token {token : Token} (hkind : token.kind = .number ∨ token.kind = .string) :
    (T.token token).content = token.content := by
  simp only [Token.content, Translation.token, T.text_literal hkind]

theorem carried_error (token : Token) (cause : SyntaxError.Cause) :
    T.carried (token.error cause) = T.plain ((T.token token).error cause) := rfl

theorem carried_unexpected (token : Token) :
    T.carried token.unexpected = T.plain (T.token token).unexpected := by
  simp only [Token.unexpected, Token.error, carried, plain, Translation.token,
    T.cause_unexpected token]

theorem carried_memberError (object member : Token) (error : MemberError) :
    T.carried (memberError object member error) =
      T.plain (memberError (T.token object) (T.token member) (error.renamed T.name)) := by
  have hcause := T.cause_renamed (.member error)
  cases error <;>
    simp only [memberError, Token.error, carried, plain, token, MemberError.renamed, hcause] <;> rfl

theorem lineOf_ofTokens (number : Nat) (tokens : List Token) :
    T.lineOf (Line.ofTokens number tokens) =
      Line.ofTokens (T.line number) (tokens.map T.token) := by
  simp only [Line.ofTokens, List.getLast?_map, lineOf]
  cases tokens.getLast? <;> simp [Token.endColumn, token, T.length_text]

theorem sameName_name (name other : String) :
    sameName other (T.name name) = sameName other name := by
  simp only [sameName, T.foldCase_name]

/-! ## Members -/

section Members

variable (T) (object member : String)

theorem resolve_member :
    Member.resolve (T.name object) (T.name member) =
      (Member.resolve object member).mapError (MemberError.renamed T.name) := by
  simp only [Member.resolve, Object.find?, Object.member?, sameName_name]
  cases Object.all.find? fun found => sameName found.name object with
  | none => rfl
  | some found =>
    dsimp only
    cases found.members.find? fun use => sameName use.name member <;> rfl

theorem resolve_method (given : Nat) :
    Method.resolve (T.name object) (T.name member) given =
      (Method.resolve object member given).mapError (MemberError.renamed T.name) := by
  rw [Method.resolve, Method.resolve, resolve_member]
  cases Member.resolve object member with
  | error error => rfl
  | ok value =>
    obtain ⟨found, use⟩ := value
    cases use with
    | method method =>
      dsimp only [Except.mapError, bind, Except.bind]
      split <;> rfl
    | field | event => rfl

theorem resolve_field :
    Field.resolve (T.name object) (T.name member) =
      (Field.resolve object member).mapError (MemberError.renamed T.name) := by
  rw [Field.resolve, Field.resolve, resolve_member]
  cases Member.resolve object member with
  | error error => rfl
  | ok value =>
    obtain ⟨found, use⟩ := value
    cases use <;> rfl

end Members

/-! ## Expressions -/

theorem groupFrom_expr (op : Operator) (left : Expr) (links : List (Operator × Expr)) :
    Chain.groupFrom op (T.expr left) (links.map (Prod.map id T.expr)) =
      ⟨T.expr (Chain.groupFrom op left links).first,
        (Chain.groupFrom op left links).links.map (Prod.map id T.expr)⟩ := by
  induction links generalizing left with
  | nil => rfl
  | cons link links ih =>
    obtain ⟨o, right⟩ := link
    simp only [List.map_cons, Prod.map_apply, id, Chain.groupFrom]
    split
    · rw [← ih, T.expr_binary]
    · rw [ih]
      rfl

theorem fold_expr (first : Expr) (links : List (Operator × Expr)) :
    Chain.fold ⟨T.expr first, links.map (Prod.map id T.expr)⟩ =
      T.expr (Chain.fold ⟨first, links⟩) := by
  have hgroups : ∀ (ops : List Operator) (chain : Chain),
      ops.foldl Chain.group ⟨T.expr chain.first, chain.links.map (Prod.map id T.expr)⟩ =
        ⟨T.expr (ops.foldl Chain.group chain).first,
          (ops.foldl Chain.group chain).links.map (Prod.map id T.expr)⟩ := by
    intro ops
    induction ops with
    | nil => exact fun _ => rfl
    | cons op ops ih =>
      intro chain
      rw [List.foldl_cons, List.foldl_cons, ← ih, Chain.group, Chain.group, groupFrom_expr]
  exact congrArg Chain.first (hgroups Operator.precedence ⟨first, links⟩)

variable {line : Line} {fuel : Nat}

theorem carries_expect (line : Line) (kind : Token.Kind) (tokens : List Token) :
    T.Agree (List.map T.token) (line.expect kind tokens)
      ((T.lineOf line).expect kind (tokens.map T.token)) := by
  cases tokens with
  | nil => exact .error rfl
  | cons token tokens =>
    by_cases hkind : token.kind = kind
    · simp only [List.map_cons, Line.expect, kind_token, hkind, if_true]
      exact .ok tokens
    · simp only [List.map_cons, Line.expect, kind_token, hkind, if_false]
      exact .error (carried_unexpected token)

theorem reads_expectSymbol (line : Line) (tokens : List Token) :
    T.Reads T.token (line.expectSymbol tokens)
      ((T.lineOf line).expectSymbol (tokens.map T.token)) := by
  cases tokens with
  | nil => exact .error rfl
  | cons token tokens =>
    by_cases hkind : token.kind = .symbol
    · simp only [List.map_cons, Line.expectSymbol, kind_token, hkind, if_true]
      exact .ok (token, tokens)
    · simp only [List.map_cons, Line.expectSymbol, kind_token, hkind, if_false]
      exact .error (carried_unexpected token)

theorem kind_of_expectSymbol {tokens rest : List Token} {token : Token}
    (hread : line.expectSymbol tokens = .ok (token, rest)) : token.kind = .symbol :=
  (Line.expectSymbol_eq_ok_iff.1 hread).2

/-- The text of a name that was read. -/
theorem text_of_expectSymbol {tokens rest : List Token} {token : Token}
    (hread : line.expectSymbol tokens = .ok (token, rest)) :
    (T.token token).text = T.name token.text :=
  text_token (kind_of_expectSymbol hread)

theorem carries_expectEnd (tokens : List Token) :
    T.Agree id (Line.expectEnd tokens) (Line.expectEnd (tokens.map T.token)) := by
  cases tokens with
  | nil => exact .ok _
  | cons token tokens => exact .error (carried_unexpected token)

theorem reads_readSigned (line : Line) (negative : Bool) (tokens : List Token) :
    T.Reads T.expr (line.readSigned negative tokens)
      ((T.lineOf line).readSigned negative (tokens.map T.token)) := by
  induction tokens generalizing negative with
  | nil => exact .error rfl
  | cons token tokens ih =>
    simp only [List.map_cons, Line.readSigned, kind_token]
    cases hkind : token.kind with
    | number =>
      dsimp only
      rw [show (T.token token).text = token.text from T.text_literal (.inl hkind)]
      exact .of_eq (by rw [Prod.map_apply, T.expr_literal])
    | operator op =>
      cases op with
      | sub => exact ih _
      | _ => exact .error (carried_unexpected token)
    | _ => exact .error (carried_unexpected token)

/-- With so much fuel, the readers of expressions go along with the translation. -/
structure ReadsWith (T : Translation) (line : Line) (fuel : Nat) : Prop where
  expr : ∀ ending condition tokens,
    T.ReadsUpTo T.expr (line.readExprWith .expectedExpression fuel ending condition tokens)
      ((T.lineOf line).readExprWith .expectedExpression fuel ending condition (tokens.map T.token))
  links : ∀ ending condition tokens,
    T.ReadsUpTo (List.map (Prod.map id T.expr))
      (line.readLinksWith .expectedExpression fuel ending condition tokens)
      ((T.lineOf line).readLinksWith .expectedExpression fuel ending condition (tokens.map T.token))
  operand : ∀ ending condition tokens,
    T.Reads T.expr (line.readOperandWith .expectedExpression fuel ending condition tokens)
      ((T.lineOf line).readOperandWith .expectedExpression fuel ending condition
        (tokens.map T.token))
  name : ∀ name tokens, name.kind = .symbol →
    T.Reads T.expr (line.readNameWith .expectedExpression fuel name tokens)
      ((T.lineOf line).readNameWith .expectedExpression fuel (T.token name) (tokens.map T.token))
  indices : ∀ tokens,
    T.Reads (List.map T.expr) (line.readIndicesWith .expectedExpression fuel tokens)
      ((T.lineOf line).readIndicesWith .expectedExpression fuel (tokens.map T.token))
  args : ∀ tokens,
    T.Reads (List.map T.expr) (line.readArgsWith .expectedExpression fuel tokens)
      ((T.lineOf line).readArgsWith .expectedExpression fuel (tokens.map T.token))
  moreArgs : ∀ tokens,
    T.Reads (List.map T.expr) (line.readMoreArgsWith .expectedExpression fuel tokens)
      ((T.lineOf line).readMoreArgsWith .expectedExpression fuel (tokens.map T.token))

namespace ReadsWith

theorem zero (T : Translation) (line : Line) : T.ReadsWith line 0 := by
  constructor <;> (intros; exact .error rfl)

theorem expr_succ (ih : T.ReadsWith line fuel) (ending : Ending) (condition : Bool)
    (tokens : List Token) :
    T.ReadsUpTo T.expr (line.readExprWith .expectedExpression (fuel + 1) ending condition tokens)
      ((T.lineOf line).readExprWith .expectedExpression (fuel + 1) ending condition
        (tokens.map T.token)) := by
  rw [Line.readExprWith, Line.readExprWith]
  refine (ih.operand ending condition tokens).bind ?_
  rintro ⟨first, rest⟩ -
  refine (ih.links ending condition rest).bind ?_
  rintro ⟨links, closer, rest⟩ -
  simp only [Prod.map_apply, fold_expr]
  exact .ok (_, closer, rest)

theorem links_succ (ih : T.ReadsWith line fuel) (ending : Ending) (condition : Bool)
    (tokens : List Token) :
    T.ReadsUpTo (List.map (Prod.map id T.expr))
      (line.readLinksWith .expectedExpression (fuel + 1) ending condition tokens)
      ((T.lineOf line).readLinksWith .expectedExpression (fuel + 1) ending condition
        (tokens.map T.token)) := by
  cases tokens with
  | nil =>
    rw [List.map_nil, Line.readLinksWith, Line.readLinksWith]
    split
    · exact .ok ([], none, [])
    · exact .error rfl
  | cons token tokens =>
    rw [List.map_cons, Line.readLinksWith, Line.readLinksWith, kind_token]
    split
    · exact .ok ([], some token, tokens)
    · split
      · exact .error (carried_unexpected token)
      · refine (ih.operand ending condition tokens).bind fun operand _ => ?_
        refine (ih.links ending condition operand.2).bind fun links _ => ?_
        exact .ok (_, links.2)

theorem operand_succ (ih : T.ReadsWith line fuel) (ending : Ending) (condition : Bool)
    (tokens : List Token) :
    T.Reads T.expr (line.readOperandWith .expectedExpression (fuel + 1) ending condition tokens)
      ((T.lineOf line).readOperandWith .expectedExpression (fuel + 1) ending condition
        (tokens.map T.token)) := by
  cases tokens with
  | nil => exact .error rfl
  | cons token tokens =>
    have hother (closes : Bool) : T.Reads T.expr
        (if closes then .error (token.error .expectedExpression) else .error token.unexpected)
        (if closes then .error ((T.token token).error .expectedExpression)
          else .error (T.token token).unexpected) := by
      split
      · exact .error (carried_error token _)
      · exact .error (carried_unexpected token)
    rw [List.map_cons, Line.readOperandWith, Line.readOperandWith, kind_token]
    cases hkind : token.kind with
    | number =>
      dsimp only
      rw [content_token (.inl hkind)]
      exact .of_eq (by rw [Prod.map_apply, T.expr_literal])
    | string =>
      dsimp only
      rw [content_token (.inr hkind)]
      exact .of_eq (by rw [Prod.map_apply, T.expr_literal])
    | operator op =>
      cases op with
      | sub => exact reads_readSigned line true tokens
      | _ => exact hother _
    | leftParen =>
      refine (ih.expr [.rightParen] condition tokens).bind fun inner _ => ?_
      exact .ok (inner.1, inner.2.2)
    | symbol => exact ih.name token tokens hkind
    | _ => exact hother _

/-- A field. -/
theorem reads_field {name dot member : Token} (hname : name.kind = .symbol)
    (hdot : dot.kind = .dot) {tokens after : List Token}
    (hmember : line.expectSymbol tokens = .ok (member, after))
    (hafter : ∀ token ∈ after.head?, token.kind ≠ .leftParen) :
    T.Reads T.expr (line.readNameWith .expectedExpression (fuel + 1) name (dot :: tokens))
      ((T.lineOf line).readNameWith .expectedExpression (fuel + 1) (T.token name)
        (T.token dot :: tokens.map T.token)) := by
  have hmember' := (reads_expectSymbol (T := T) line tokens).eq_ok hmember
  have hdot' : (T.token dot).kind = .dot := hdot
  have hafter' : ∀ token ∈ (after.map T.token).head?, token.kind ≠ .leftParen := by
    simpa using hafter
  rw [Line.readNameWith_field hdot hmember hafter,
    Line.readNameWith_field hdot' hmember' hafter', text_token hname,
    text_of_expectSymbol hmember, T.resolve_field]
  cases Field.resolve name.text member.text with
  | ok field => exact .of_eq (by rw [Prod.map_apply, T.expr_field])
  | error error => exact .error (carried_memberError name member error)

theorem call_succ (ih : T.ReadsWith line fuel) {name dot member paren : Token}
    (hname : name.kind = .symbol) (hdot : dot.kind = .dot) {tokens after : List Token}
    (hmember : line.expectSymbol tokens = .ok (member, paren :: after))
    (hparen : paren.kind = .leftParen) :
    T.Reads T.expr (line.readNameWith .expectedExpression (fuel + 1) name (dot :: tokens))
      ((T.lineOf line).readNameWith .expectedExpression (fuel + 1) (T.token name)
        (T.token dot :: tokens.map T.token)) := by
  have hmember' := (reads_expectSymbol (T := T) line tokens).eq_ok hmember
  have hdot' : (T.token dot).kind = .dot := hdot
  rw [Line.readNameWith_call hdot hmember hparen,
    Line.readNameWith_call hdot' hmember' hparen, text_token hname, text_of_expectSymbol hmember]
  refine (ih.args after).bind ?_
  rintro ⟨args, rest⟩ -
  simp only [Prod.map_apply, List.length_map, T.resolve_method]
  cases Method.resolve name.text member.text args.length with
  | ok method => exact .of_eq (by rw [Prod.map_apply, T.expr_call])
  | error error => exact .error (carried_memberError name member error)

theorem member_succ (ih : T.ReadsWith line fuel) {name dot : Token}
    (hname : name.kind = .symbol) (hdot : dot.kind = .dot) (tokens : List Token) :
    T.Reads T.expr (line.readNameWith .expectedExpression (fuel + 1) name (dot :: tokens))
      ((T.lineOf line).readNameWith .expectedExpression (fuel + 1) (T.token name)
        (T.token dot :: tokens.map T.token)) := by
  cases hmember : line.expectSymbol tokens with
  | error error =>
    have hreads := reads_expectSymbol (T := T) line tokens
    rw [hmember] at hreads
    rw [Line.readNameWith, Line.readNameWith, kind_token, hdot, hmember]
    exact hreads.bind (by rintro _ ⟨⟩)
  | ok read =>
    obtain ⟨member, after⟩ := read
    by_cases hafter : ∀ token ∈ after.head?, token.kind ≠ .leftParen
    · exact reads_field hname hdot hmember hafter
    · obtain ⟨paren, after, rfl, hparen⟩ := exists_cons_of_kind hafter
      exact ih.call_succ hname hdot hmember hparen

theorem name_succ (ih : T.ReadsWith line fuel) (name : Token) (tokens : List Token)
    (hname : name.kind = .symbol) :
    T.Reads T.expr (line.readNameWith .expectedExpression (fuel + 1) name tokens)
      ((T.lineOf line).readNameWith .expectedExpression (fuel + 1) (T.token name)
        (tokens.map T.token)) := by
  have htext : (T.token name).text = T.name name.text := text_token hname
  cases tokens with
  | nil =>
    rw [List.map_nil, Line.readNameWith, Line.readNameWith, htext]
    exact .of_eq (by rw [Prod.map_apply, T.expr_variable]; rfl)
  | cons token tokens =>
    by_cases hdot : token.kind = .dot
    · exact ih.member_succ hname hdot tokens
    · rw [List.map_cons, Line.readNameWith, Line.readNameWith, kind_token, htext]
      cases hkind : token.kind with
      | leftBracket =>
        refine (ih.indices (token :: tokens)).bind ?_
        rintro ⟨indices, rest⟩ -
        exact .of_eq (by rw [Prod.map_apply, T.expr_variable])
      | dot => exact absurd hkind hdot
      | leftParen => exact .error (carried_unexpected token)
      | _ => exact .of_eq (by rw [Prod.map_apply, T.expr_variable]; rfl)

theorem indices_succ (ih : T.ReadsWith line fuel) (tokens : List Token) :
    T.Reads (List.map T.expr) (line.readIndicesWith .expectedExpression (fuel + 1) tokens)
      ((T.lineOf line).readIndicesWith .expectedExpression (fuel + 1) (tokens.map T.token)) := by
  by_cases hbracket : ∀ token ∈ tokens.head?, token.kind ≠ .leftBracket
  · have hbracket' : ∀ token ∈ (tokens.map T.token).head?, token.kind ≠ .leftBracket := by
      simpa using hbracket
    rw [Line.readIndicesWith_end hbracket, Line.readIndicesWith_end hbracket']
    exact .ok ([], tokens)
  · obtain ⟨token, tokens, rfl, hkind⟩ := exists_cons_of_kind hbracket
    have hkind' : (T.token token).kind = .leftBracket := hkind
    rw [List.map_cons, Line.readIndicesWith_bracket hkind, Line.readIndicesWith_bracket hkind']
    refine (ih.expr [.rightBracket] false tokens).bind ?_
    rintro ⟨index, closer, rest⟩ -
    refine (ih.indices rest).bind ?_
    rintro ⟨indices, rest⟩ -
    exact .ok (index :: indices, rest)

theorem args_succ (ih : T.ReadsWith line fuel) (tokens : List Token) :
    T.Reads (List.map T.expr) (line.readArgsWith .expectedExpression (fuel + 1) tokens)
      ((T.lineOf line).readArgsWith .expectedExpression (fuel + 1) (tokens.map T.token)) := by
  by_cases hparen : ∀ token ∈ tokens.head?, token.kind ≠ .rightParen
  · have hparen' : ∀ token ∈ (tokens.map T.token).head?, token.kind ≠ .rightParen := by
      simpa using hparen
    rw [Line.readArgsWith_more hparen, Line.readArgsWith_more hparen']
    exact ih.moreArgs tokens
  · obtain ⟨token, tokens, rfl, hkind⟩ := exists_cons_of_kind hparen
    have hkind' : (T.token token).kind = .rightParen := hkind
    rw [List.map_cons, Line.readArgsWith_end hkind, Line.readArgsWith_end hkind']
    exact .ok ([], tokens)

theorem moreArgs_succ (ih : T.ReadsWith line fuel) (tokens : List Token) :
    T.Reads (List.map T.expr) (line.readMoreArgsWith .expectedExpression (fuel + 1) tokens)
      ((T.lineOf line).readMoreArgsWith .expectedExpression (fuel + 1) (tokens.map T.token)) := by
  have hreads := ih.expr [.comma, .rightParen] false tokens
  cases hexpr : line.readExprWith .expectedExpression fuel [.comma, .rightParen] false tokens with
  | error error =>
    rw [hexpr] at hreads
    rw [Line.readMoreArgsWith, Line.readMoreArgsWith, hexpr]
    exact hreads.bind (by rintro _ ⟨⟩)
  | ok read =>
    obtain ⟨arg, closer, rest⟩ := read
    have hexpr' := hreads.eq_ok hexpr
    by_cases hcomma : ∀ token ∈ closer, token.kind ≠ .comma
    · have hcomma' : ∀ token ∈ closer.map T.token, token.kind ≠ .comma := by
        simpa using hcomma
      rw [Line.readMoreArgsWith_last hexpr hcomma, Line.readMoreArgsWith_last hexpr' hcomma']
      exact .ok ([arg], rest)
    · obtain ⟨token, rfl⟩ : ∃ token, closer = some token :=
        Option.ne_none_iff_exists'.1 (by rintro rfl; simp at hcomma)
      have hkind : token.kind = .comma := by simpa using hcomma
      have hkind' : (T.token token).kind = .comma := hkind
      rw [Line.readMoreArgsWith_comma hexpr hkind, Line.readMoreArgsWith_comma hexpr' hkind']
      refine (ih.moreArgs rest).bind ?_
      rintro ⟨args, rest⟩ -
      exact .ok (arg :: args, rest)

end ReadsWith

theorem readsWith (T : Translation) (line : Line) (fuel : Nat) : T.ReadsWith line fuel := by
  induction fuel with
  | zero => exact .zero T line
  | succ fuel ih =>
    exact ⟨ih.expr_succ, ih.links_succ, ih.operand_succ, ih.name_succ, ih.indices_succ,
      ih.args_succ, ih.moreArgs_succ⟩

/-! ## Clauses -/

theorem reads_readExpr (line : Line) (ending : Ending) (condition : Bool) (tokens : List Token) :
    T.ReadsUpTo T.expr (line.readExpr ending condition tokens)
      ((T.lineOf line).readExpr ending condition (tokens.map T.token)) := by
  rw [Line.readExpr, Line.readExpr, Line.fuelFor, Line.fuelFor, List.length_map]
  exact (T.readsWith line _).expr ending condition tokens

theorem reads_readIndices (line : Line) (tokens : List Token) :
    T.Reads (List.map T.expr) (line.readIndices tokens)
      ((T.lineOf line).readIndices (tokens.map T.token)) := by
  rw [Line.readIndices, Line.readIndices, Line.fuelFor, Line.fuelFor, List.length_map]
  exact (T.readsWith line _).indices tokens

theorem reads_readArgs (line : Line) (tokens : List Token) :
    T.Reads (List.map T.expr) (line.readArgs tokens)
      ((T.lineOf line).readArgs (tokens.map T.token)) := by
  rw [Line.readArgs, Line.readArgs, Line.fuelFor, Line.fuelFor, List.length_map]
  exact (T.readsWith line _).args tokens

theorem carries_readRest (line : Line) (condition : Bool) (tokens : List Token) :
    T.Agree T.expr (line.readRest condition tokens)
      ((T.lineOf line).readRest condition (tokens.map T.token)) :=
  (reads_readExpr line [.endOfLine] condition tokens).bind fun read _ => .ok read.1

theorem carries_readCondition (line : Line) (tokens : List Token) :
    T.Agree T.expr (line.readCondition tokens)
      ((T.lineOf line).readCondition (tokens.map T.token)) := by
  refine (reads_readExpr line _ true tokens).bind ?_
  rintro ⟨condition, _, rest⟩ -
  exact (carries_expectEnd rest).bind fun _ _ => .ok condition

theorem carries_readName (line : Line) (tokens : List Token) :
    T.Agree T.name (line.readName tokens) ((T.lineOf line).readName (tokens.map T.token)) := by
  refine (reads_expectSymbol line tokens).bind ?_
  rintro ⟨name, rest⟩ hname
  refine (carries_expectEnd rest).bind fun _ _ => ?_
  exact .of_eq (text_of_expectSymbol hname).symm

theorem carries_readFor (line : Line) (tokens : List Token) :
    T.Agree T.clause (line.readFor tokens) ((T.lineOf line).readFor (tokens.map T.token)) := by
  refine (reads_expectSymbol line tokens).bind ?_
  rintro ⟨counter, rest⟩ hcounter
  refine (carries_expect line (.operator .equal) rest).bind fun rest _ => ?_
  refine (reads_readExpr line _ false rest).bind ?_
  rintro ⟨lower, _, rest⟩ -
  refine (carries_readRest line false rest).bind fun upper _ => ?_
  refine .of_eq ?_
  rw [clause, ← text_of_expectSymbol hcounter]

theorem carries_readKeyword (line : Line) (first : Token) (word : Keyword) (rest : List Token) :
    T.Agree T.clause (line.readKeyword first word rest)
      ((T.lineOf line).readKeyword (T.token first) word (rest.map T.token)) := by
  cases word with
  | «if» | elseIf => exact (carries_readCondition line rest).map fun _ => rfl
  | «while» => exact (carries_readRest line true rest).map fun _ => rfl
  | «for» => exact carries_readFor line rest
  | sub | goto => exact (carries_readName line rest).map fun _ => rfl
  | «else» | endIf | endWhile | endFor | endSub => exact (carries_expectEnd rest).map fun _ => rfl
  | «then» | «to» | step => exact .error (carried_unexpected first)

/-- Only a bare name can be bound to an event. -/
theorem carries_handler (event : Event) {at? other : Token} (hat : other = T.token at?)
    (value : Expr) :
    T.Agree T.clause
      (match value with
        | .variable name [] => .ok (.bind event name)
        | _ => .error (at?.error (.eventNeedsSub event)))
      (match T.expr value with
        | .variable name [] => .ok (.bind event name)
        | _ => .error (other.error (.eventNeedsSub event))) := by
  subst hat
  cases value with
  | «variable» name indices =>
    rw [T.expr_variable]
    cases indices with
    | nil => exact .ok (Clause.bind event name)
    | cons index indices => exact .error (carried_error at? _)
  | literal text => rw [T.expr_literal]; exact .error (carried_error at? _)
  | field f => rw [T.expr_field]; exact .error (carried_error at? _)
  | binary op left right => rw [T.expr_binary]; exact .error (carried_error at? _)
  | call method args => rw [T.expr_call]; exact .error (carried_error at? _)

theorem carries_readMemberValue (line : Line) {object member : Token}
    (hobject : object.kind = .symbol) (hmember : member.kind = .symbol) (rest : List Token) :
    T.Agree T.clause (line.readMemberValue object member rest)
      ((T.lineOf line).readMemberValue (T.token object) (T.token member) (rest.map T.token)) := by
  unfold Line.readMemberValue
  rw [text_token hobject, text_token hmember, T.resolve_member]
  cases Member.resolve object.text member.text with
  | error error => exact .error (carried_memberError object member error)
  | ok value =>
    obtain ⟨found, use⟩ := value
    cases use with
    | method m => exact .error (carried_error member _)
    | field f =>
      dsimp only [Except.mapError]
      split
      · exact (carries_readRest line false rest).map fun _ => rfl
      · exact .error (carried_error member _)
    | event e =>
      refine (carries_readRest line false rest).bind fun value _ => ?_
      refine carries_handler e ?_ value
      cases rest <;> rfl

theorem carries_readMember (line : Line) {object : Token} (hobject : object.kind = .symbol)
    (tokens : List Token) :
    T.Agree T.clause (line.readMember object tokens)
      ((T.lineOf line).readMember (T.token object) (tokens.map T.token)) := by
  refine (reads_expectSymbol line tokens).bind ?_
  rintro ⟨member, rest⟩ hread
  have hmember := kind_of_expectSymbol hread
  cases rest with
  | nil => exact .error rfl
  | cons token rest =>
    simp only [Prod.map_apply, List.map_cons, kind_token]
    split
    · refine (reads_readArgs line rest).bind ?_
      rintro ⟨args, rest⟩ -
      simp only [Prod.map_apply, List.length_map, text_token hobject, text_token hmember,
        T.resolve_method]
      cases Method.resolve object.text member.text args.length with
      | ok method => exact (carries_expectEnd rest).bind fun _ _ => .ok (Clause.invoke method args)
      | error error => exact .error (carried_memberError object member error)
    · exact carries_readMemberValue line hobject hmember rest
    · exact .error (carried_unexpected token)

theorem carries_readSymbol (line : Line) {name : Token} (hname : name.kind = .symbol)
    (tokens : List Token) :
    T.Agree T.clause (line.readSymbol name tokens)
      ((T.lineOf line).readSymbol (T.token name) (tokens.map T.token)) := by
  cases tokens with
  | nil => exact .error (carried_error name _)
  | cons token rest =>
    simp only [List.map_cons, Line.readSymbol, kind_token, text_token hname]
    split
    · exact (carries_expectEnd rest).map fun _ => rfl
    · exact carries_readMember line hname rest
    · refine (reads_readIndices line (token :: rest)).bind ?_
      rintro ⟨indices, rest⟩ -
      refine (carries_expect line (.operator .equal) rest).bind fun rest _ => ?_
      exact (carries_readRest line false rest).map fun _ => rfl
    · exact (carries_readRest line false rest).map fun _ => rfl
    · refine (carries_expect line .rightParen rest).bind fun rest _ => ?_
      exact (carries_expectEnd rest).bind fun _ _ => .ok (Clause.callSub name.text)
    · exact .error (carried_unexpected token)

/-- What a line says goes along with the translation. -/
theorem carries_readClause (line : Line) (first : Token) (rest : List Token) :
    T.Agree T.clause (line.readClause first rest)
      ((T.lineOf line).readClause (T.token first) (rest.map T.token)) := by
  rw [Line.readClause, Line.readClause, kind_token]
  cases hkind : first.kind with
  | keyword word => exact carries_readKeyword line first word rest
  | symbol => exact carries_readSymbol line hkind rest
  | _ => exact .error (carried_unexpected first)

end Translation

end SmallBasic
