import SmallBasic.Clause.Read

/-!
# What is read fits

The reader looks up every member of the library that a line names, so that what it returns uses each
of them as the catalogue says: a method gets as many arguments as it takes, and only a writable
field is assigned to.

## Main definitions

* `Expr.Fits`, `Clause.Fits` — expressions and clauses that use the library as it is.
* `Clause.word?` — the reserved word at the start of a clause.

## Main statements

* `Line.fits_of_readClause` — what is read fits.
* `Line.kind_of_readClause` — a clause with a reserved word was read from that word.
-/

namespace SmallBasic

section Except

variable {ε α β : Type}

theorem Except.bind_eq_ok_iff {x : Except ε α} {f : α → Except ε β} {b : β} :
    x >>= f = .ok b ↔ ∃ a, x = .ok a ∧ f a = .ok b := by
  cases x <;> simp [bind, Except.bind]

theorem Except.map_eq_ok_iff {x : Except ε α} {f : α → β} {b : β} :
    f <$> x = .ok b ↔ ∃ a, x = .ok a ∧ f a = b := by
  cases x <;> simp [Functor.map, Except.map]

theorem Except.bind_congr {x y : Except ε α} {f g : α → Except ε β} (hx : x = y)
    (hf : ∀ a, x = .ok a → f a = g a) : x >>= f = y >>= g := by
  subst hx
  cases x with
  | error => rfl
  | ok a => exact hf a rfl

theorem Except.pure_eq_ok_iff {a b : α} : (pure a : Except ε α) = .ok b ↔ a = b := by
  simp [pure, Except.pure]

end Except

mutual

/-- Every call in the expression has as many arguments as its method takes. -/
def Expr.Fits : Expr → Prop
  | .literal _ => True
  | .variable _ indices => Expr.FitAll indices
  | .field _ => True
  | .binary _ left right => left.Fits ∧ right.Fits
  | .call method args => args.length = method.arity ∧ Expr.FitAll args

/-- All of the expressions fit. -/
def Expr.FitAll : List Expr → Prop
  | [] => True
  | e :: es => e.Fits ∧ Expr.FitAll es

end

/-- A field on the left of an assignment is writable. -/
def Place.Fits : Place → Prop
  | .variable _ indices => Expr.FitAll indices
  | .field f => f.isWritable = true

/-- Everything in the clause fits. -/
def Clause.Fits : Clause → Prop
  | .assign place value => place.Fits ∧ value.Fits
  | .invoke method args => args.length = method.arity ∧ Expr.FitAll args
  | .if condition | .elseIf condition | .while condition => condition.Fits
  | .for _ lower upper => lower.Fits ∧ upper.Fits
  | .bind _ _ | .label _ | .goto _ | .callSub _ | .else | .endIf | .endWhile | .endFor | .sub _
  | .endSub => True

/-- The reserved word that a clause starts with. -/
def Clause.word? : Clause → Option Keyword
  | .assign _ _ | .bind _ _ | .invoke _ _ | .label _ | .callSub _ => none
  | .goto _ => some .goto
  | .if _ => some .if
  | .elseIf _ => some .elseIf
  | .else => some .else
  | .endIf => some .endIf
  | .while _ => some .while
  | .endWhile => some .endWhile
  | .for _ _ _ => some .for
  | .endFor => some .endFor
  | .sub _ => some .sub
  | .endSub => some .endSub

/-- What the reader promises of a clause: it fits, and it starts with the given word. -/
structure Clause.ReadsAs (clause : Clause) (word? : Option Keyword) : Prop where
  fits : clause.Fits
  word?_eq : clause.word? = word?

/-- A resolved method takes as many arguments as it was given. -/
theorem Method.arity_of_resolve {object member : String} {given : Nat} {method : Method}
    (h : Method.resolve object member given = .ok method) : method.arity = given := by
  obtain ⟨⟨found, use⟩, -, h⟩ := Except.bind_eq_ok_iff.1 h
  cases use with
  | method m =>
    dsimp only at h
    split at h
    · rename_i harity
      rwa [← Except.pure_eq_ok_iff.1 h]
    · cases h
  | field | event => cases h

/-! ## Grouping operators -/

namespace Chain

/-- All operands of the chain fit. -/
structure Fits (chain : Chain) : Prop where
  first : chain.first.Fits
  links : ∀ link ∈ chain.links, link.2.Fits

theorem fits_groupFrom (op : Operator) {left : Expr} {links : List (Operator × Expr)}
    (hleft : left.Fits) (hlinks : ∀ link ∈ links, link.2.Fits) :
    (groupFrom op left links).Fits := by
  induction links generalizing left with
  | nil => exact ⟨hleft, by simp [groupFrom]⟩
  | cons link links ih =>
    obtain ⟨o, right⟩ := link
    obtain ⟨hright, hlinks⟩ := List.forall_mem_cons.1 hlinks
    unfold groupFrom
    split
    · have hbinary : (Expr.binary op left right).Fits := ⟨hleft, hright⟩
      exact ih hbinary hlinks
    · have hrest := ih hright hlinks
      exact ⟨hleft, List.forall_mem_cons.2 ⟨hrest.first, hrest.links⟩⟩

theorem Fits.foldl_group {chain : Chain} (h : chain.Fits) (ops : List Operator) :
    (ops.foldl group chain).Fits := by
  induction ops generalizing chain with
  | nil => exact h
  | cons op ops ih => exact ih (fits_groupFrom op h.first h.links)

theorem Fits.of_fold_eq {chain : Chain} {e : Expr} (h : chain.Fits) (he : chain.fold = e) :
    e.Fits := by
  have hgrouped : (Operator.precedence.foldl group chain).Fits := h.foldl_group _
  -- The folded chain is made opaque, since unification would otherwise group it again and again.
  unfold fold at he
  generalize Operator.precedence.foldl group chain = grouped at he hgrouped
  exact he ▸ hgrouped.first

end Chain

/-! ## One token at a time -/

theorem exists_cons_of_kind {tokens : List Token} {kind : Token.Kind}
    (hkind : ¬∀ token ∈ tokens.head?, token.kind ≠ kind) :
    ∃ token rest, tokens = token :: rest ∧ token.kind = kind := by
  cases tokens with
  | nil => simp at hkind
  | cons token rest => exact ⟨token, rest, rfl, by simpa using hkind⟩

namespace Line

section Tokens

variable {line : Line} {exhausted : SyntaxError.Cause} {fuel : Nat} {name member token : Token}
  {tokens rest : List Token}

theorem expectSymbol_eq_ok_iff :
    line.expectSymbol tokens = .ok (token, rest) ↔
      tokens = token :: rest ∧ token.kind = .symbol := by
  cases tokens <;> grind [expectSymbol]

/-- A name that nothing goes on with is a variable. -/
theorem readNameWith_bare (hbracket : ∀ token ∈ tokens.head?, token.kind ≠ .leftBracket)
    (hdot : ∀ token ∈ tokens.head?, token.kind ≠ .dot)
    (hparen : ∀ token ∈ tokens.head?, token.kind ≠ .leftParen) :
    line.readNameWith exhausted (fuel + 1) name tokens = .ok (.variable name.text [], tokens) := by
  cases tokens with
  | nil => rw [readNameWith]
  | cons token tokens =>
    rw [readNameWith]
    split
    · exact absurd ‹_› (hbracket token rfl)
    · exact absurd ‹_› (hdot token rfl)
    · exact absurd ‹_› (hparen token rfl)
    · rfl

theorem readNameWith_bracket (hkind : token.kind = .leftBracket) :
    line.readNameWith exhausted (fuel + 1) name (token :: rest) = (do
      let (indices, rest) ← line.readIndicesWith exhausted fuel (token :: rest)
      return (.variable name.text indices, rest)) := by
  rw [readNameWith, hkind]

theorem readNameWith_call (hdot : token.kind = .dot) {paren : Token} {after : List Token}
    (hmember : line.expectSymbol rest = .ok (member, paren :: after))
    (hparen : paren.kind = .leftParen) :
    line.readNameWith exhausted (fuel + 1) name (token :: rest) = (do
      let (args, rest) ← line.readArgsWith exhausted fuel after
      match Method.resolve name.text member.text args.length with
      | .ok method => return (.call method args, rest)
      | .error error => throw (memberError name member error)) := by
  obtain ⟨kind, text, number, column⟩ := paren
  obtain rfl : kind = .leftParen := hparen
  rw [readNameWith, hdot]
  dsimp only
  rw [hmember]
  rfl

theorem readNameWith_field (hdot : token.kind = .dot) {after : List Token}
    (hmember : line.expectSymbol rest = .ok (member, after))
    (hafter : ∀ token ∈ after.head?, token.kind ≠ .leftParen) :
    line.readNameWith exhausted (fuel + 1) name (token :: rest) =
      match Field.resolve name.text member.text with
      | .ok field => .ok (.field field, after)
      | .error error => .error (memberError name member error) := by
  rw [readNameWith, hdot]
  dsimp only
  rw [hmember]
  dsimp only [bind, Except.bind]
  split
  · exact absurd rfl (hafter _ rfl)
  · rfl

theorem readIndicesWith_bracket (hkind : token.kind = .leftBracket) :
    line.readIndicesWith exhausted (fuel + 1) (token :: rest) = (do
      let (index, _, rest) ← line.readExprWith exhausted fuel [.rightBracket] false rest
      let (indices, rest) ← line.readIndicesWith exhausted fuel rest
      return (index :: indices, rest)) := by
  obtain ⟨kind, text, number, column⟩ := token
  obtain rfl : kind = .leftBracket := hkind
  rw [readIndicesWith]

theorem readIndicesWith_end (hkind : ∀ token ∈ tokens.head?, token.kind ≠ .leftBracket) :
    line.readIndicesWith exhausted (fuel + 1) tokens = .ok ([], tokens) := by
  rw [readIndicesWith]
  rintro text number column rest rfl
  exact hkind _ rfl rfl

theorem readArgsWith_end (hkind : token.kind = .rightParen) :
    line.readArgsWith exhausted (fuel + 1) (token :: rest) = .ok ([], rest) := by
  obtain ⟨kind, text, number, column⟩ := token
  obtain rfl : kind = .rightParen := hkind
  rw [readArgsWith]

theorem readArgsWith_more (hkind : ∀ token ∈ tokens.head?, token.kind ≠ .rightParen) :
    line.readArgsWith exhausted (fuel + 1) tokens =
      line.readMoreArgsWith exhausted fuel tokens := by
  rw [readArgsWith]
  rintro text number column rest rfl
  exact hkind _ rfl rfl

theorem readMoreArgsWith_comma {arg : Expr}
    (harg : line.readExprWith exhausted fuel [.comma, .rightParen] false tokens =
      .ok (arg, some token, rest)) (hkind : token.kind = .comma) :
    line.readMoreArgsWith exhausted (fuel + 1) tokens = (do
      let (args, rest) ← line.readMoreArgsWith exhausted fuel rest
      return (arg :: args, rest)) := by
  obtain ⟨kind, text, number, column⟩ := token
  obtain rfl : kind = .comma := hkind
  rw [readMoreArgsWith, harg]
  rfl

theorem readMoreArgsWith_last {arg : Expr} {closer : Option Token}
    (harg : line.readExprWith exhausted fuel [.comma, .rightParen] false tokens =
      .ok (arg, closer, rest)) (hkind : ∀ token ∈ closer, token.kind ≠ .comma) :
    line.readMoreArgsWith exhausted (fuel + 1) tokens = .ok ([arg], rest) := by
  rw [readMoreArgsWith, harg]
  dsimp only [bind, Except.bind]
  split
  · exact absurd rfl (hkind _ rfl)
  · rfl

end Tokens

end Line

/-! ## Reading expressions -/

namespace Line

/-- What the readers of expressions return with so much fuel fits. -/
structure ReadsFit (line : Line) (exhausted : SyntaxError.Cause) (fuel : Nat) : Prop where
  expr : ∀ {ending condition tokens e closer rest},
    line.readExprWith exhausted fuel ending condition tokens = .ok (e, closer, rest) → e.Fits
  links : ∀ {ending condition tokens links closer rest},
    line.readLinksWith exhausted fuel ending condition tokens = .ok (links, closer, rest) →
      ∀ link ∈ links, link.2.Fits
  operand : ∀ {ending condition tokens e rest},
    line.readOperandWith exhausted fuel ending condition tokens = .ok (e, rest) → e.Fits
  name : ∀ {name tokens e rest},
    line.readNameWith exhausted fuel name tokens = .ok (e, rest) → e.Fits
  indices : ∀ {tokens es rest},
    line.readIndicesWith exhausted fuel tokens = .ok (es, rest) → Expr.FitAll es
  args : ∀ {tokens es rest},
    line.readArgsWith exhausted fuel tokens = .ok (es, rest) → Expr.FitAll es
  moreArgs : ∀ {tokens es rest},
    line.readMoreArgsWith exhausted fuel tokens = .ok (es, rest) → Expr.FitAll es

variable {line : Line} {exhausted : SyntaxError.Cause} {fuel : Nat}

theorem fits_of_readSigned {negative : Bool} {tokens rest : List Token} {e : Expr}
    (h : line.readSigned negative tokens = .ok (e, rest)) : e.Fits := by
  induction tokens generalizing negative with
  | nil => cases h
  | cons token tokens ih =>
    unfold readSigned at h
    split at h
    · exact ih h
    · cases h
      trivial
    · cases h

theorem ReadsFit.zero (line : Line) (exhausted : SyntaxError.Cause) :
    line.ReadsFit exhausted 0 where
  expr h := by simp [readExprWith] at h
  links h := by simp [readLinksWith] at h
  operand h := by simp [readOperandWith] at h
  name h := by simp [readNameWith] at h
  indices h := by simp [readIndicesWith] at h
  args h := by simp [readArgsWith] at h
  moreArgs h := by simp [readMoreArgsWith] at h

theorem ReadsFit.expr_succ (ih : line.ReadsFit exhausted fuel) {ending : Ending} {condition : Bool}
    {tokens rest : List Token} {e : Expr} {closer : Option Token}
    (h : line.readExprWith exhausted (fuel + 1) ending condition tokens = .ok (e, closer, rest)) :
    e.Fits := by
  rw [readExprWith] at h
  obtain ⟨⟨first, rest⟩, hfirst, h⟩ := Except.bind_eq_ok_iff.1 h
  obtain ⟨⟨links, closer, rest⟩, hlinks, h⟩ := Except.bind_eq_ok_iff.1 h
  simp only [Except.pure_eq_ok_iff, Prod.mk.injEq] at h
  have hchain : Chain.Fits ⟨first, links⟩ := ⟨ih.operand hfirst, ih.links hlinks⟩
  exact hchain.of_fold_eq h.1

theorem ReadsFit.links_succ (ih : line.ReadsFit exhausted fuel) {ending : Ending} {condition : Bool}
    {tokens rest : List Token} {links : List (Operator × Expr)} {closer : Option Token}
    (h : line.readLinksWith exhausted (fuel + 1) ending condition tokens =
      .ok (links, closer, rest)) :
    ∀ link ∈ links, link.2.Fits := by
  cases tokens with
  | nil =>
    rw [readLinksWith] at h
    split at h
    · cases h
      simp
    · cases h
  | cons token tokens =>
    rw [readLinksWith] at h
    split at h
    · cases h
      simp
    · split at h
      · cases h
      · obtain ⟨⟨operand, rest⟩, hoperand, h⟩ := Except.bind_eq_ok_iff.1 h
        obtain ⟨⟨links, closer, rest⟩, hlinks, h⟩ := Except.bind_eq_ok_iff.1 h
        cases h
        exact List.forall_mem_cons.2 ⟨ih.operand hoperand, ih.links hlinks⟩

theorem ReadsFit.operand_succ (ih : line.ReadsFit exhausted fuel) {ending : Ending}
    {condition : Bool} {tokens rest : List Token} {e : Expr}
    (h : line.readOperandWith exhausted (fuel + 1) ending condition tokens = .ok (e, rest)) :
    e.Fits := by
  cases tokens with
  | nil => simp [readOperandWith] at h
  | cons token tokens =>
    rw [readOperandWith] at h
    split at h
    · cases h
      trivial
    · cases h
      trivial
    · exact fits_of_readSigned h
    · obtain ⟨⟨inner, closer, rest⟩, hinner, h⟩ := Except.bind_eq_ok_iff.1 h
      cases h
      exact ih.expr hinner
    · exact ih.name h
    · split at h <;> cases h

theorem ReadsFit.name_succ (ih : line.ReadsFit exhausted fuel) {name : Token}
    {tokens rest : List Token} {e : Expr}
    (h : line.readNameWith exhausted (fuel + 1) name tokens = .ok (e, rest)) : e.Fits := by
  cases tokens with
  | nil =>
    simp [readNameWith] at h
    obtain ⟨rfl, -⟩ := h
    trivial
  | cons token tokens =>
    rw [readNameWith] at h
    split at h
    · obtain ⟨⟨indices, rest⟩, hindices, h⟩ := Except.bind_eq_ok_iff.1 h
      cases h
      exact ih.indices hindices
    · obtain ⟨⟨member, after⟩, hmember, h⟩ := Except.bind_eq_ok_iff.1 h
      dsimp only at h
      split at h
      · obtain ⟨⟨args, rest⟩, hargs, h⟩ := Except.bind_eq_ok_iff.1 h
        dsimp only at h
        split at h
        · rename_i hmethod
          cases h
          exact ⟨(Method.arity_of_resolve hmethod).symm, ih.args hargs⟩
        · cases h
      · split at h
        · cases h
          trivial
        · cases h
    · cases h
    · cases h
      trivial

theorem ReadsFit.succ (ih : line.ReadsFit exhausted fuel) : line.ReadsFit exhausted (fuel + 1) where
  expr h := ih.expr_succ h
  links h := ih.links_succ h
  operand h := ih.operand_succ h
  name h := ih.name_succ h
  indices h := by
    unfold readIndicesWith at h
    split at h
    · cases h
    · rename_i hfuel
      cases hfuel
      obtain ⟨⟨index, closer, after⟩, hindex, h⟩ := Except.bind_eq_ok_iff.1 h
      obtain ⟨⟨indices, rest⟩, hindices, h⟩ := Except.bind_eq_ok_iff.1 h
      cases h
      exact ⟨ih.expr hindex, ih.indices hindices⟩
    · cases h
      trivial
  args h := by
    unfold readArgsWith at h
    split at h
    · cases h
    · cases h
      trivial
    · rename_i hfuel _
      cases hfuel
      exact ih.moreArgs h
  moreArgs h := by
    rw [readMoreArgsWith] at h
    obtain ⟨⟨arg, closer, rest⟩, harg, h⟩ := Except.bind_eq_ok_iff.1 h
    dsimp only at h
    split at h
    · obtain ⟨⟨args, rest⟩, hargs, h⟩ := Except.bind_eq_ok_iff.1 h
      cases h
      exact ⟨ih.expr harg, ih.moreArgs hargs⟩
    · cases h
      exact ⟨ih.expr harg, trivial⟩

theorem readsFit (line : Line) (exhausted : SyntaxError.Cause) (fuel : Nat) :
    line.ReadsFit exhausted fuel := by
  induction fuel with
  | zero => exact .zero line exhausted
  | succ fuel ih => exact ih.succ

/-! ## Reading clauses -/

theorem fits_of_readRest {condition : Bool} {tokens : List Token} {e : Expr}
    (h : line.readRest condition tokens = .ok e) : e.Fits := by
  obtain ⟨⟨value, closer, rest⟩, hvalue, h⟩ := Except.bind_eq_ok_iff.1 h
  cases h
  exact (readsFit line _ _).expr hvalue

theorem fits_of_readCondition {tokens : List Token} {e : Expr}
    (h : line.readCondition tokens = .ok e) : e.Fits := by
  obtain ⟨⟨condition, closer, rest⟩, hcondition, h⟩ := Except.bind_eq_ok_iff.1 h
  obtain ⟨_, -, h⟩ := Except.bind_eq_ok_iff.1 h
  cases h
  exact (readsFit line _ _).expr hcondition

theorem readsAs_of_readFor {tokens : List Token} {clause : Clause}
    (h : line.readFor tokens = .ok clause) : clause.ReadsAs (some .for) := by
  obtain ⟨⟨counter, rest⟩, -, h⟩ := Except.bind_eq_ok_iff.1 h
  obtain ⟨rest, -, h⟩ := Except.bind_eq_ok_iff.1 h
  obtain ⟨⟨lower, closer, rest⟩, hlower, h⟩ := Except.bind_eq_ok_iff.1 h
  obtain ⟨upper, hupper, h⟩ := Except.bind_eq_ok_iff.1 h
  cases h
  exact ⟨⟨(readsFit line _ _).expr hlower, fits_of_readRest hupper⟩, rfl⟩

theorem readsAs_of_readKeyword {first : Token} {word : Keyword} {rest : List Token}
    {clause : Clause} (h : line.readKeyword first word rest = .ok clause) :
    clause.ReadsAs (some word) := by
  cases word with
  | «if» | elseIf =>
    obtain ⟨condition, hcondition, rfl⟩ := Except.map_eq_ok_iff.1 h
    exact ⟨fits_of_readCondition hcondition, rfl⟩
  | «while» =>
    obtain ⟨condition, hcondition, rfl⟩ := Except.map_eq_ok_iff.1 h
    exact ⟨fits_of_readRest hcondition, rfl⟩
  | «for» => exact readsAs_of_readFor h
  | «else» | endIf | endWhile | endFor | sub | endSub | goto =>
    obtain ⟨_, -, rfl⟩ := Except.map_eq_ok_iff.1 h
    exact ⟨trivial, rfl⟩
  | «then» | «to» | step => cases h

theorem readsAs_of_readMemberValue {object member : Token} {rest : List Token} {clause : Clause}
    (h : line.readMemberValue object member rest = .ok clause) : clause.ReadsAs none := by
  unfold readMemberValue at h
  split at h
  · cases h
  · split at h
    · rename_i hwritable
      obtain ⟨value, hvalue, rfl⟩ := Except.map_eq_ok_iff.1 h
      exact ⟨⟨hwritable, fits_of_readRest hvalue⟩, rfl⟩
    · cases h
  · obtain ⟨value, -, h⟩ := Except.bind_eq_ok_iff.1 h
    split at h
    · cases h
      exact ⟨trivial, rfl⟩
    · cases h
  · cases h

theorem readsAs_of_readMember {object : Token} {tokens : List Token} {clause : Clause}
    (h : line.readMember object tokens = .ok clause) : clause.ReadsAs none := by
  obtain ⟨⟨member, rest⟩, -, h⟩ := Except.bind_eq_ok_iff.1 h
  dsimp only at h
  split at h
  · cases h
  · split at h
    · obtain ⟨⟨args, rest⟩, hargs, h⟩ := Except.bind_eq_ok_iff.1 h
      dsimp only at h
      split at h
      · cases h
      · rename_i hmethod
        obtain ⟨_, -, h⟩ := Except.bind_eq_ok_iff.1 h
        cases h
        have harity := (Method.arity_of_resolve hmethod).symm
        exact ⟨⟨harity, (readsFit line _ _).args hargs⟩, rfl⟩
    · exact readsAs_of_readMemberValue h
    · cases h

theorem readsAs_of_readSymbol {name : Token} {tokens : List Token} {clause : Clause}
    (h : line.readSymbol name tokens = .ok clause) : clause.ReadsAs none := by
  cases tokens with
  | nil => cases h
  | cons token rest =>
    simp only [readSymbol] at h
    split at h
    · obtain ⟨_, -, rfl⟩ := Except.map_eq_ok_iff.1 h
      exact ⟨trivial, rfl⟩
    · exact readsAs_of_readMember h
    · obtain ⟨⟨indices, rest⟩, hindices, h⟩ := Except.bind_eq_ok_iff.1 h
      obtain ⟨rest, -, h⟩ := Except.bind_eq_ok_iff.1 h
      obtain ⟨value, hvalue, rfl⟩ := Except.map_eq_ok_iff.1 h
      exact ⟨⟨(readsFit line _ _).indices hindices, fits_of_readRest hvalue⟩, rfl⟩
    · obtain ⟨value, hvalue, rfl⟩ := Except.map_eq_ok_iff.1 h
      exact ⟨⟨trivial, fits_of_readRest hvalue⟩, rfl⟩
    · obtain ⟨rest, -, h⟩ := Except.bind_eq_ok_iff.1 h
      obtain ⟨_, -, h⟩ := Except.bind_eq_ok_iff.1 h
      cases h
      exact ⟨trivial, rfl⟩
    · cases h

/-- Whatever a line says uses the library as it is. -/
theorem fits_of_readClause {first : Token} {rest : List Token} {clause : Clause}
    (h : line.readClause first rest = .ok clause) : clause.Fits := by
  unfold readClause at h
  split at h
  · exact (readsAs_of_readKeyword h).fits
  · exact (readsAs_of_readSymbol h).fits
  · cases h

/-- A reserved word is only read from itself. -/
theorem kind_of_readClause {first : Token} {rest : List Token} {clause : Clause} {word : Keyword}
    (h : line.readClause first rest = .ok clause) (hword : clause.word? = some word) :
    first.kind = .keyword word := by
  unfold readClause at h
  split at h
  · rename_i hkind
    obtain rfl := Option.some.inj ((readsAs_of_readKeyword h).word?_eq.symm.trans hword)
    exact hkind
  · rw [(readsAs_of_readSymbol h).word?_eq] at hword
    cases hword
  · cases h

end Line

end SmallBasic
