import SmallBasic.Proofs.Dispatch
import SmallBasic.Proofs.Reading

/-!
# The grammar of expressions

A phrase is a derivation of the grammar: it says which production was used at every point and which
tokens it covers. Which phrases obey the grammar depends on whether comparators are operators; they
are where a condition is read and in parentheses there, but neither in indices nor in arguments.

The grammar is unambiguous. No two phrases cover the same tokens, and not even tokens of which one
is the start of the other, if neither goes on with an operand or an operator.

## Main definitions

* `Phrase` — derivations, by the category of what they derive.
* `Phrase.tokens`, `Phrase.value` — the tokens that a phrase covers, and what it stands for.
* `Phrase.Obeys` — the derivations that the grammar allows.
* `Phrase.Category.Follows` — what may follow a phrase.

## Main statements

* `Method.resolve_eq_ok_iff`, `Field.resolve_eq_ok_iff` — which names stand for a member.
* `Phrase.unambiguous` — the grammar is unambiguous.
-/

namespace SmallBasic

/-! ## Members by name -/

/-- The object that a member belongs to. -/
def Member.object : Member → Object
  | .method m => m.object
  | .field f => f.object
  | .event e => e.object

theorem Member.mem_members : (member : Member) → member ∈ member.object.members
  | .method m => m.mem_members
  | .field f => f.mem_members
  | .event e => e.mem_members

/-- A member belongs to one object only. -/
theorem Member.object_eq_of_mem : ∀ object ∈ Object.all, ∀ member ∈ object.members,
    member.object = object := by
  decide

theorem Object.find?_congr {name other : String} (hsame : sameName name other = true) :
    Object.find? name = Object.find? other := by
  simp only [sameName, beq_iff_eq] at hsame
  simp only [find?, sameName, hsame]

theorem Object.member?_congr (object : Object) {name other : String}
    (hsame : sameName name other = true) : object.member? name = object.member? other := by
  simp only [sameName, beq_iff_eq] at hsame
  simp only [member?, sameName, hsame]

theorem Object.find?_eq_some_iff {object : Object} {name : String} :
    Object.find? name = some object ↔ sameName object.name name = true := by
  constructor
  · intro hfind
    rw [find?] at hfind
    have hname := List.find?_some hfind
    exact hname
  · intro hname
    rw [← find?_congr hname]
    exact (find?_name_and_member?_name object object.mem_all).1

theorem Object.member?_eq_some_iff {object : Object} {member : Member} {name : String} :
    object.member? name = some member ↔
      member ∈ object.members ∧ sameName member.name name = true := by
  constructor
  · intro hfind
    rw [member?] at hfind
    have hname := List.find?_some hfind
    exact ⟨List.mem_of_find?_eq_some hfind, hname⟩
  · rintro ⟨hmem, hname⟩
    rw [← object.member?_congr hname]
    exact (find?_name_and_member?_name object object.mem_all).2 member hmem

/-- Two names stand for a member if they are those of its object and its own. -/
def Member.IsNamed (member : Member) (object name : String) : Prop :=
  sameName member.object.name object = true ∧ sameName member.name name = true

theorem Member.resolve_eq_ok_iff {object name : String} {found : Object} {member : Member} :
    Member.resolve object name = .ok (found, member) ↔
      found = member.object ∧ member.IsNamed object name := by
  constructor
  · intro hresolve
    unfold Member.resolve at hresolve
    split at hresolve
    · cases hresolve
    · rename_i _ hobject
      split at hresolve
      · cases hresolve
      · rename_i _ hmember
        cases hresolve
        obtain ⟨hmem, hname⟩ := Object.member?_eq_some_iff.1 hmember
        obtain rfl := member.object_eq_of_mem found found.mem_all hmem
        exact ⟨rfl, Object.find?_eq_some_iff.1 hobject, hname⟩
  · rintro ⟨rfl, hobject, hname⟩
    have hmember := Object.member?_eq_some_iff.2 ⟨member.mem_members, hname⟩
    simp [Member.resolve, Object.find?_eq_some_iff.2 hobject, hmember]

theorem Member.eq_of_isNamed {member other : Member} {object name : String}
    (hmember : member.IsNamed object name) (hother : other.IsNamed object name) :
    member = other := by
  have hresolve := Member.resolve_eq_ok_iff.2 ⟨rfl, hmember⟩
  rw [Member.resolve_eq_ok_iff.2 ⟨rfl, hother⟩] at hresolve
  simp only [Except.ok.injEq, Prod.mk.injEq] at hresolve
  exact hresolve.2.symm

theorem Field.resolve_eq_ok_iff {object name : String} {field : Field} :
    Field.resolve object name = .ok field ↔ (Member.field field).IsNamed object name := by
  constructor
  · intro hresolve
    obtain ⟨⟨found, member⟩, hmember, hfield⟩ := Except.bind_eq_ok_iff.1 hresolve
    cases member with
    | field f =>
      obtain rfl := Except.pure_eq_ok_iff.1 hfield
      exact (Member.resolve_eq_ok_iff.1 hmember).2
    | method | event => cases hfield
  · intro hnamed
    exact Except.bind_eq_ok_iff.2 ⟨_, Member.resolve_eq_ok_iff.2 ⟨rfl, hnamed⟩, rfl⟩

theorem Method.resolve_eq_ok_iff {object name : String} {given : Nat} {method : Method} :
    Method.resolve object name given = .ok method ↔
      (Member.method method).IsNamed object name ∧ method.arity = given := by
  constructor
  · intro hresolve
    have harity := Method.arity_of_resolve hresolve
    obtain ⟨⟨found, member⟩, hmember, hmethod⟩ := Except.bind_eq_ok_iff.1 hresolve
    cases member with
    | method m =>
      dsimp only at hmethod
      split at hmethod
      · obtain rfl := Except.pure_eq_ok_iff.1 hmethod
        exact ⟨(Member.resolve_eq_ok_iff.1 hmember).2, harity⟩
      · cases hmethod
    | field | event => cases hmethod
  · rintro ⟨hnamed, harity⟩
    exact Except.bind_eq_ok_iff.2 ⟨_, Member.resolve_eq_ok_iff.2 ⟨rfl, hnamed⟩, if_pos harity⟩

/-! ## Derivations -/

/-- What a phrase can be: an operand, a whole expression, the operators of an expression with their
right operands, the indices of a variable, or the arguments of a call with the closing parenthesis,
of which there may have to be at least one. -/
inductive Phrase.Category where
  | operand
  | expression
  | links
  | indices
  | arguments
  | moreArguments
deriving DecidableEq, Repr

/-- A derivation of the grammar. -/
inductive Phrase : Phrase.Category → Type where
  | literal (token : Token) : Phrase .operand
  | signed (sign : Token) (more : List Token) (number : Token) : Phrase .operand
  | group (opening : Token) (inner : Phrase .expression) (closing : Token) : Phrase .operand
  | variable (name : Token) (indices : Phrase .indices) : Phrase .operand
  | field (object dot member : Token) (field : Field) : Phrase .operand
  | call (object dot member opening : Token) (args : Phrase .arguments) (method : Method) :
      Phrase .operand
  | chain (first : Phrase .operand) (links : Phrase .links) : Phrase .expression
  | noLink : Phrase .links
  | link (operator : Token) (op : Operator) (operand : Phrase .operand) (more : Phrase .links) :
      Phrase .links
  | noIndex : Phrase .indices
  | index (opening : Token) (inner : Phrase .expression) (closing : Token)
      (more : Phrase .indices) : Phrase .indices
  | noArgument (closing : Token) : Phrase .arguments
  | someArguments (args : Phrase .moreArguments) : Phrase .arguments
  | lastArgument (arg : Phrase .expression) (closing : Token) : Phrase .moreArguments
  | argument (arg : Phrase .expression) (comma : Token) (more : Phrase .moreArguments) :
      Phrase .moreArguments

namespace Phrase

/-- What phrases of a category stand for. -/
abbrev Category.Value : Category → Type
  | .operand | .expression => Expr
  | .links => List (Operator × Expr)
  | .indices | .arguments | .moreArguments => List Expr

/-- The tokens that a phrase covers. -/
@[simp] def tokens {category : Category} : Phrase category → List Token
  | .literal token => [token]
  | .signed sign more number => sign :: (more ++ [number])
  | .group opening inner closing => opening :: (inner.tokens ++ [closing])
  | .variable name indices => name :: indices.tokens
  | .field object dot member _ => [object, dot, member]
  | .call object dot member opening args _ => object :: dot :: member :: opening :: args.tokens
  | .chain first links => first.tokens ++ links.tokens
  | .noLink => []
  | .link operator _ operand more => operator :: (operand.tokens ++ more.tokens)
  | .noIndex => []
  | .index opening inner closing more => opening :: (inner.tokens ++ closing :: more.tokens)
  | .noArgument closing => [closing]
  | .someArguments args => args.tokens
  | .lastArgument arg closing => arg.tokens ++ [closing]
  | .argument arg comma more => arg.tokens ++ comma :: more.tokens

/-- What a phrase stands for. An odd number of signs makes a number negative, and the operands and
operators of an expression are folded into a tree. -/
@[simp] def value {category : Category} : Phrase category → category.Value
  | .literal token => Expr.literal token.content
  | .signed sign more number =>
    Expr.literal (if (sign :: more).length % 2 = 1 then "-" ++ number.text else number.text)
  | .group _ inner _ => inner.value
  | .variable name indices => Expr.variable name.text indices.value
  | .field _ _ _ f => Expr.field f
  | .call _ _ _ _ args method => Expr.call method args.value
  | .chain first links => Chain.fold ⟨first.value, links.value⟩
  | .noLink => []
  | .link _ op operand more => (op, operand.value) :: more.value
  | .noIndex => []
  | .index _ inner _ more => inner.value :: more.value
  | .noArgument _ => []
  | .someArguments args => args.value
  | .lastArgument arg _ => [arg.value]
  | .argument arg _ more => arg.value :: more.value

/-- The derivation is one of the grammar. -/
@[simp] def Obeys {category : Category} (condition : Bool) : Phrase category → Prop
  | .literal token => token.kind = .number ∨ token.kind = .string
  | .signed sign more number =>
    (∀ token ∈ sign :: more, token.kind = .operator .sub) ∧ number.kind = .number
  | .group opening inner closing =>
    opening.kind = .leftParen ∧ inner.Obeys condition ∧ closing.kind = .rightParen
  | .variable name indices => name.kind = .symbol ∧ indices.Obeys false
  | .field object dot member f =>
    object.kind = .symbol ∧ dot.kind = .dot ∧ member.kind = .symbol ∧
      (Member.field f).IsNamed object.text member.text
  | .call object dot member opening args method =>
    object.kind = .symbol ∧ dot.kind = .dot ∧ member.kind = .symbol ∧
      opening.kind = .leftParen ∧ args.Obeys false ∧
      (Member.method method).IsNamed object.text member.text ∧ method.arity = args.value.length
  | .chain first links => first.Obeys condition ∧ links.Obeys condition
  | .noLink => True
  | .link operator op operand more =>
    operator.kind = .operator op ∧ (op.isComparator = true → condition = true) ∧
      operand.Obeys condition ∧ more.Obeys condition
  | .noIndex => True
  | .index opening inner closing more =>
    opening.kind = .leftBracket ∧ inner.Obeys false ∧ closing.kind = .rightBracket ∧
      more.Obeys false
  | .noArgument closing => closing.kind = .rightParen
  | .someArguments args => args.Obeys false
  | .lastArgument arg closing => arg.Obeys false ∧ closing.kind = .rightParen
  | .argument arg comma more => arg.Obeys false ∧ comma.kind = .comma ∧ more.Obeys false

/-! ## What follows a phrase -/

/-- What follows an operand does not go on with it. -/
def EndsOperand (rest : List Token) : Prop :=
  ∀ token ∈ rest.head?, token.kind ≠ .leftBracket ∧ token.kind ≠ .dot ∧ token.kind ≠ .leftParen

/-- What follows an expression goes on neither with its last operand nor with an operator. -/
structure EndsExpression (rest : List Token) : Prop where
  operand : EndsOperand rest
  operator : ∀ token ∈ rest.head?, ∀ op, token.kind ≠ .operator op

/-- What may follow a phrase. Arguments end with a token of their own. -/
def Category.Follows : Category → List Token → Prop
  | .operand, rest | .indices, rest => EndsOperand rest
  | .expression, rest | .links, rest => EndsExpression rest
  | .arguments, _ | .moreArguments, _ => True

variable {category : Category} {condition : Bool} {token : Token} {rest : List Token}

theorem endsOperand_operator {op : Operator} (hkind : token.kind = .operator op) :
    EndsOperand (token :: rest) := by
  simp [EndsOperand, hkind]

/-- No expression goes on after a token that can end one. -/
theorem endsExpression_closing (hkind : token.kind = .rightParen ∨ token.kind = .rightBracket ∨
    token.kind = .comma ∨ token.kind = .keyword .then ∨ token.kind = .keyword .to) :
    EndsExpression (token :: rest) := by
  constructor <;> rcases hkind with hkind | hkind | hkind | hkind | hkind <;>
    simp [EndsOperand, hkind]

theorem endsOperand_links {links : Phrase .links} (hlinks : links.Obeys condition)
    (hrest : EndsExpression rest) : EndsOperand (links.tokens ++ rest) := by
  cases links with
  | noLink => exact hrest.operand
  | link operator op operand more => exact endsOperand_operator hlinks.1

/-- What comes after a name and its indices does not start with a dot. -/
theorem kind_ne_dot {indices : Phrase .indices} (hindices : indices.Obeys false)
    (hrest : EndsOperand rest) {more : List Token}
    (htokens : indices.tokens ++ rest = token :: more) : token.kind ≠ .dot := by
  intro hdot
  cases indices with
  | noIndex =>
    obtain rfl : rest = token :: more := htokens
    exact (hrest token rfl).2.1 hdot
  | index opening inner closing after =>
    obtain ⟨rfl, -⟩ := List.cons.inj htokens
    rw [hindices.1] at hdot
    cases hdot

/-- Operands start with a token, and it is no closing parenthesis. -/
theorem exists_operand_eq_cons {p : Phrase .operand} (hp : p.Obeys condition) :
    ∃ token more, p.tokens = token :: more ∧ token.kind ≠ .rightParen := by
  cases p <;> refine ⟨_, _, rfl, ?_⟩ <;> grind [Obeys]

theorem exists_expression_eq_cons {p : Phrase .expression} (hp : p.Obeys condition) :
    ∃ token more, p.tokens = token :: more ∧ token.kind ≠ .rightParen := by
  cases p with
  | chain first links =>
    obtain ⟨token, more, htokens, hkind⟩ := exists_operand_eq_cons hp.1
    exact ⟨token, more ++ links.tokens, by rw [tokens, htokens, List.cons_append], hkind⟩

theorem exists_moreArguments_eq_cons {p : Phrase .moreArguments} (hp : p.Obeys condition) :
    ∃ token more, p.tokens = token :: more ∧ token.kind ≠ .rightParen := by
  cases p with
  | lastArgument arg closing =>
    obtain ⟨token, more, htokens, hkind⟩ := exists_expression_eq_cons hp.1
    exact ⟨token, more ++ [closing], by rw [tokens, htokens, List.cons_append], hkind⟩
  | argument arg comma others =>
    obtain ⟨token, more, htokens, hkind⟩ := exists_expression_eq_cons hp.1
    exact ⟨token, more ++ comma :: others.tokens, by rw [tokens, htokens, List.cons_append], hkind⟩

/-! ## Unambiguity -/

/-- No other phrase covers the same tokens, nor a part of them or more than them. -/
def Unambiguous (p : Phrase category) : Prop :=
  ∀ ⦃q : Phrase category⦄ ⦃condition : Bool⦄ ⦃rest rest' : List Token⦄, p.Obeys condition →
    q.Obeys condition → p.tokens ++ rest = q.tokens ++ rest' → category.Follows rest →
    category.Follows rest' → p = q ∧ rest = rest'

theorem unambiguous_literal (token : Token) : (literal token).Unambiguous := by
  intro q condition rest rest' hp hq htokens _ _
  cases q <;> simp only [tokens, Obeys] at * <;> grind

/-- Minus signs end at the number. -/
theorem eq_of_signs_append {signs signs' : List Token} {number number' : Token}
    {rest rest' : List Token} (hsigns : ∀ sign ∈ signs, sign.kind = .operator .sub)
    (hnumber : number.kind = .number) (hsigns' : ∀ sign ∈ signs', sign.kind = .operator .sub)
    (hnumber' : number'.kind = .number)
    (htokens : signs ++ number :: rest = signs' ++ number' :: rest') :
    signs = signs' ∧ number = number' ∧ rest = rest' := by
  induction signs generalizing signs' with
  | nil => cases signs' <;> grind
  | cons sign signs ih => cases signs' <;> grind

theorem unambiguous_signed (sign : Token) (more : List Token) (number : Token) :
    (signed sign more number).Unambiguous := by
  intro q condition rest rest' hp hq htokens _ _
  cases q with
  | signed sign' more' number' =>
    simp only [tokens, List.cons_append, List.append_assoc, List.nil_append,
      List.cons.injEq] at htokens
    obtain ⟨rfl, htokens⟩ := htokens
    obtain ⟨rfl, rfl, hsame⟩ := eq_of_signs_append (List.forall_mem_cons.1 hp.1).2 hp.2
      (List.forall_mem_cons.1 hq.1).2 hq.2 htokens
    exact ⟨rfl, hsame⟩
  | _ =>
    simp only [tokens, Obeys] at *
    grind

theorem unambiguous_group {inner : Phrase .expression} (hinner : inner.Unambiguous)
    (opening closing : Token) : (group opening inner closing).Unambiguous := by
  intro q condition rest rest' hp hq htokens _ _
  cases q with
  | group opening' inner' closing' =>
    simp only [tokens, List.cons_append, List.append_assoc, List.nil_append,
      List.cons.injEq] at htokens
    obtain ⟨rfl, htokens⟩ := htokens
    obtain ⟨rfl, hclosing⟩ := hinner hp.2.1 hq.2.1 htokens
      (endsExpression_closing (.inl hp.2.2)) (endsExpression_closing (.inl hq.2.2))
    obtain ⟨rfl, hsame⟩ := List.cons.inj hclosing
    exact ⟨rfl, hsame⟩
  | _ =>
    simp only [tokens, Obeys] at *
    grind

theorem unambiguous_variable {indices : Phrase .indices} (hindices : indices.Unambiguous)
    (name : Token) : (Phrase.variable name indices).Unambiguous := by
  intro q condition rest rest' hp hq htokens hrest hrest'
  cases q with
  | «variable» name' indices' =>
    obtain ⟨rfl, hindices'⟩ := List.cons.inj htokens
    obtain ⟨rfl, hsame⟩ := hindices hp.2 hq.2 hindices' hrest hrest'
    exact ⟨rfl, hsame⟩
  | field | call =>
    obtain ⟨-, htokens⟩ := List.cons.inj htokens
    exact absurd hq.2.1 (kind_ne_dot hp.2 hrest htokens)
  | _ =>
    simp only [tokens, Obeys] at *
    grind

theorem unambiguous_field (object dot member : Token) (f : Field) :
    (Phrase.field object dot member f).Unambiguous := by
  intro q condition rest rest' hp hq htokens hrest hrest'
  cases q with
  | «variable» name' indices' =>
    obtain ⟨-, htokens⟩ := List.cons.inj htokens
    exact absurd hp.2.1 (kind_ne_dot hq.2 hrest' htokens.symm)
  | field object' dot' member' f' =>
    simp only [tokens, List.cons_append, List.cons.injEq, List.nil_append] at htokens
    obtain ⟨rfl, rfl, rfl, hsame⟩ := htokens
    cases Member.eq_of_isNamed hp.2.2.2 hq.2.2.2
    exact ⟨rfl, hsame⟩
  | call object' dot' member' opening' args' method' =>
    simp only [tokens, List.cons_append, List.cons.injEq, List.nil_append] at htokens
    obtain ⟨-, -, -, rfl⟩ := htokens
    exact absurd hq.2.2.2.1 (hrest _ rfl).2.2
  | _ =>
    simp only [tokens, Obeys] at *
    grind

theorem unambiguous_call {args : Phrase .arguments} (hargs : args.Unambiguous)
    (object dot member opening : Token) (method : Method) :
    (call object dot member opening args method).Unambiguous := by
  intro q condition rest rest' hp hq htokens hrest hrest'
  cases q with
  | «variable» name' indices' =>
    obtain ⟨-, htokens⟩ := List.cons.inj htokens
    exact absurd hp.2.1 (kind_ne_dot hq.2 hrest' htokens.symm)
  | field object' dot' member' f' =>
    simp only [tokens, List.cons_append, List.cons.injEq, List.nil_append] at htokens
    obtain ⟨-, -, -, rfl⟩ := htokens
    exact absurd hp.2.2.2.1 (hrest' _ rfl).2.2
  | call object' dot' member' opening' args' method' =>
    simp only [tokens, List.cons_append, List.cons.injEq] at htokens
    obtain ⟨rfl, rfl, rfl, rfl, htokens⟩ := htokens
    obtain ⟨rfl, hsame⟩ := hargs hp.2.2.2.2.1 hq.2.2.2.2.1 htokens trivial trivial
    cases Member.eq_of_isNamed hp.2.2.2.2.2.1 hq.2.2.2.2.2.1
    exact ⟨rfl, hsame⟩
  | _ =>
    simp only [tokens, Obeys] at *
    grind

theorem unambiguous_chain {first : Phrase .operand} {links : Phrase .links}
    (hfirst : first.Unambiguous) (hlinks : links.Unambiguous) :
    (chain first links).Unambiguous := by
  intro q condition rest rest' hp hq htokens hrest hrest'
  cases q with
  | chain first' links' =>
    simp only [tokens, List.append_assoc] at htokens
    obtain ⟨rfl, hmore⟩ := hfirst hp.1 hq.1 htokens (endsOperand_links hp.2 hrest)
      (endsOperand_links hq.2 hrest')
    obtain ⟨rfl, hsame⟩ := hlinks hp.2 hq.2 hmore hrest hrest'
    exact ⟨rfl, hsame⟩

theorem unambiguous_noLink : noLink.Unambiguous := by
  intro q condition rest rest' _ hq htokens hrest _
  cases q with
  | noLink => exact ⟨rfl, htokens⟩
  | link operator' op' operand' more' =>
    obtain rfl : rest = _ := htokens
    exact absurd hq.1 (hrest.operator _ rfl _)

theorem unambiguous_link {operand : Phrase .operand} {more : Phrase .links}
    (hoperand : operand.Unambiguous) (hmore : more.Unambiguous) (operator : Token)
    (op : Operator) : (link operator op operand more).Unambiguous := by
  intro q condition rest rest' hp hq htokens hrest hrest'
  cases q with
  | noLink =>
    obtain rfl : _ = rest' := htokens
    exact absurd hp.1 (hrest'.operator _ rfl _)
  | link operator' op' operand' more' =>
    simp only [tokens, List.cons_append, List.append_assoc, List.cons.injEq] at htokens
    obtain ⟨rfl, htokens⟩ := htokens
    obtain rfl : op = op' := by simpa [hp.1] using hq.1
    obtain ⟨rfl, hafter⟩ := hoperand hp.2.2.1 hq.2.2.1 htokens
      (endsOperand_links hp.2.2.2 hrest) (endsOperand_links hq.2.2.2 hrest')
    obtain ⟨rfl, hsame⟩ := hmore hp.2.2.2 hq.2.2.2 hafter hrest hrest'
    exact ⟨rfl, hsame⟩

theorem unambiguous_noIndex : noIndex.Unambiguous := by
  intro q condition rest rest' _ hq htokens hrest _
  cases q with
  | noIndex => exact ⟨rfl, htokens⟩
  | index opening' inner' closing' more' =>
    obtain rfl : rest = _ := htokens
    exact absurd hq.1 (hrest _ rfl).1

theorem unambiguous_index {inner : Phrase .expression} {more : Phrase .indices}
    (hinner : inner.Unambiguous) (hmore : more.Unambiguous) (opening closing : Token) :
    (index opening inner closing more).Unambiguous := by
  intro q condition rest rest' hp hq htokens hrest hrest'
  cases q with
  | noIndex =>
    obtain rfl : _ = rest' := htokens
    exact absurd hp.1 (hrest' _ rfl).1
  | index opening' inner' closing' more' =>
    simp only [tokens, List.cons_append, List.append_assoc, List.cons.injEq] at htokens
    obtain ⟨rfl, htokens⟩ := htokens
    obtain ⟨rfl, hclosing⟩ := hinner hp.2.1 hq.2.1 htokens
      (endsExpression_closing (.inr (.inl hp.2.2.1)))
      (endsExpression_closing (.inr (.inl hq.2.2.1)))
    obtain ⟨rfl, hafter⟩ := List.cons.inj hclosing
    obtain ⟨rfl, hsame⟩ := hmore hp.2.2.2 hq.2.2.2 hafter hrest hrest'
    exact ⟨rfl, hsame⟩

theorem unambiguous_noArgument (closing : Token) : (noArgument closing).Unambiguous := by
  intro q condition rest rest' hp hq htokens _ _
  cases q with
  | noArgument closing' =>
    obtain ⟨rfl, hsame⟩ := List.cons.inj htokens
    exact ⟨rfl, hsame⟩
  | someArguments args' =>
    obtain ⟨token, more, hargs, hkind⟩ := exists_moreArguments_eq_cons hq
    simp only [tokens, hargs] at htokens
    obtain ⟨rfl, -⟩ := List.cons.inj htokens
    exact absurd hp hkind

theorem unambiguous_someArguments {args : Phrase .moreArguments} (hargs : args.Unambiguous) :
    (someArguments args).Unambiguous := by
  intro q condition rest rest' hp hq htokens _ _
  cases q with
  | noArgument closing' =>
    obtain ⟨token, more, htoken, hkind⟩ := exists_moreArguments_eq_cons hp
    simp only [tokens, htoken] at htokens
    obtain ⟨rfl, -⟩ := List.cons.inj htokens
    exact absurd hq hkind
  | someArguments args' =>
    obtain ⟨rfl, hsame⟩ := hargs hp hq htokens trivial trivial
    exact ⟨rfl, hsame⟩

theorem unambiguous_lastArgument {arg : Phrase .expression} (harg : arg.Unambiguous)
    (closing : Token) : (lastArgument arg closing).Unambiguous := by
  intro q condition rest rest' hp hq htokens _ _
  cases q with
  | lastArgument arg' closing' =>
    simp only [tokens, List.append_assoc, List.cons_append, List.nil_append] at htokens
    obtain ⟨rfl, hclosing⟩ := harg hp.1 hq.1 htokens (endsExpression_closing (.inl hp.2))
      (endsExpression_closing (.inl hq.2))
    obtain ⟨rfl, hsame⟩ := List.cons.inj hclosing
    exact ⟨rfl, hsame⟩
  | argument arg' comma' more' =>
    simp only [tokens, List.append_assoc, List.cons_append, List.nil_append] at htokens
    obtain ⟨-, hclosing⟩ := harg hp.1 hq.1 htokens (endsExpression_closing (.inl hp.2))
      (endsExpression_closing (.inr (.inr (.inl hq.2.1))))
    obtain ⟨rfl, -⟩ := List.cons.inj hclosing
    grind [Obeys]

theorem unambiguous_argument {arg : Phrase .expression} {more : Phrase .moreArguments}
    (harg : arg.Unambiguous) (hmore : more.Unambiguous) (comma : Token) :
    (argument arg comma more).Unambiguous := by
  intro q condition rest rest' hp hq htokens _ _
  cases q with
  | lastArgument arg' closing' =>
    simp only [tokens, List.append_assoc, List.cons_append, List.nil_append] at htokens
    obtain ⟨-, hclosing⟩ := harg hp.1 hq.1 htokens
      (endsExpression_closing (.inr (.inr (.inl hp.2.1)))) (endsExpression_closing (.inl hq.2))
    obtain ⟨rfl, -⟩ := List.cons.inj hclosing
    grind [Obeys]
  | argument arg' comma' more' =>
    simp only [tokens, List.append_assoc, List.cons_append] at htokens
    obtain ⟨rfl, hcomma⟩ := harg hp.1 hq.1 htokens
      (endsExpression_closing (.inr (.inr (.inl hp.2.1))))
      (endsExpression_closing (.inr (.inr (.inl hq.2.1))))
    obtain ⟨rfl, hafter⟩ := List.cons.inj hcomma
    obtain ⟨rfl, hsame⟩ := hmore hp.2.2 hq.2.2 hafter trivial trivial
    exact ⟨rfl, hsame⟩

/-- The grammar is unambiguous. -/
theorem unambiguous (p : Phrase category) : p.Unambiguous := by
  induction p with
  | literal token => exact unambiguous_literal token
  | signed sign more number => exact unambiguous_signed sign more number
  | group opening inner closing ih => exact unambiguous_group ih opening closing
  | «variable» name indices ih => exact unambiguous_variable ih name
  | field object dot member f => exact unambiguous_field object dot member f
  | call object dot member opening args method ih =>
    exact unambiguous_call ih object dot member opening method
  | chain first links ihfirst ihlinks => exact unambiguous_chain ihfirst ihlinks
  | noLink => exact unambiguous_noLink
  | link operator op operand more ihoperand ihmore =>
    exact unambiguous_link ihoperand ihmore operator op
  | noIndex => exact unambiguous_noIndex
  | index opening inner closing more ihinner ihmore =>
    exact unambiguous_index ihinner ihmore opening closing
  | noArgument closing => exact unambiguous_noArgument closing
  | someArguments args ih => exact unambiguous_someArguments ih
  | lastArgument arg closing ih => exact unambiguous_lastArgument ih closing
  | argument arg comma more iharg ihmore => exact unambiguous_argument iharg ihmore comma

end Phrase

end SmallBasic
