import SmallBasic.Proofs.Phrases

/-!
# The reader recognizes the grammar

Reading an expression succeeds exactly if the tokens start with a phrase of the grammar that is
followed by something that may end it. The phrase is the only one, and its value is what is read.

The reader always comes to an end. Every operand takes at least one token, and between two tokens
the reader descends at most four levels, so that from `Line.fuelFor` on more fuel makes no
difference, and neither does what would be reported if it ran out.

## Main definitions

* `Ending.EndsAt` — what may end an expression, and where.
* `Phrase.Spans` — a phrase of the grammar at the start of some tokens, with its value.
* `Phrase.Derives` — an expression at the start of some tokens, up to something that ends it.
* `Line.ReadsPhrases`, `Phrase.IsRead` — the two directions, for all readers.
* `Line.Settles` — two amounts of fuel that are both enough.

## Main statements

* `Line.readsPhrases` — what is read is a phrase.
* `Phrase.isRead` — a phrase is read.
* `Line.settles` — the readers do not run out of fuel.
* `Line.readExpr_recognizes` — all of this, for a whole expression.
-/

namespace SmallBasic

theorem operatorIn?_eq_some_iff {condition : Bool} {kind : Token.Kind} {op : Operator} :
    operatorIn? condition kind = some op ↔
      kind = .operator op ∧ (op.isComparator = true → condition = true) := by
  cases kind with
  | operator op' => grind [operatorIn?]
  | _ => simp [operatorIn?]

/-- An expression may end before the rest, at this token or, without one, at the end of the line. -/
inductive Ending.EndsAt (ending : Ending) : Option Token → List Token → Prop
  | line (hline : .endOfLine ∈ ending) : ending.EndsAt none []
  | closer (closer : Closer) {token : Token} (rest : List Token) (hmem : closer ∈ ending)
      (hkind : closer.kind? = some token.kind) : ending.EndsAt (some token) rest

namespace Ending

variable {ending : Ending} {closer : Option Token} {rest : List Token}

theorem endsAt_some_iff {token : Token} :
    ending.EndsAt (some token) rest ↔ ending.closes token.kind = true := by
  rw [closes, List.any_eq_true]
  constructor
  · rintro ⟨⟩
    exact ⟨_, ‹_›, by simpa using ‹_›⟩
  · rintro ⟨closer, hmem, hkind⟩
    exact .closer closer rest hmem (by simpa using hkind)

theorem EndsAt.exists_token (hends : ending.EndsAt closer rest) (hline : .endOfLine ∉ ending) :
    ∃ token, closer = some token ∧ ∃ c ∈ ending, c.kind? = some token.kind := by
  cases hends with
  | line hmem => exact absurd hmem hline
  | closer closer rest hmem hkind => exact ⟨_, rfl, closer, hmem, hkind⟩

/-- What ends an expression does not go on with it. -/
theorem EndsAt.endsExpression (hends : ending.EndsAt closer rest) :
    Phrase.EndsExpression (closer.toList ++ rest) := by
  cases closer with
  | none =>
    cases hends
    exact ⟨nofun, nofun⟩
  | some token =>
    exact Phrase.endsExpression_closing (eq_of_closes (endsAt_some_iff.1 hends))

end Ending

namespace Phrase

/-- The tokens up to the rest are covered by a phrase of the grammar, and this is its value. -/
structure Spans {category : Category} (phrase : Phrase category) (condition : Bool)
    (tokens rest : List Token) (value : category.Value) : Prop where
  obeys : phrase.Obeys condition
  tokens_eq : tokens = phrase.tokens ++ rest
  value_eq : phrase.value = value

end Phrase

/-! ## What is read is a phrase -/

namespace Line

variable {line : Line} {exhausted : SyntaxError.Cause} {fuel : Nat}

/-- Every minus sign changes the sign of the number after them. -/
theorem readSigned_signs {signs : List Token} (hsigns : ∀ sign ∈ signs, sign.kind = .operator .sub)
    {number : Token} (hnumber : number.kind = .number) (negative : Bool) (rest : List Token) :
    line.readSigned negative (signs ++ number :: rest) =
      .ok (.literal (if (signs.length + negative.toNat) % 2 = 1 then "-" ++ number.text
        else number.text), rest) := by
  induction signs generalizing negative with
  | nil => cases negative <;> simp [readSigned, hnumber]
  | cons sign signs ih =>
    obtain ⟨hsign, hsigns⟩ := List.forall_mem_cons.1 hsigns
    rw [List.cons_append, readSigned, hsign]
    dsimp only
    rw [ih hsigns, List.length_cons]
    cases negative <;> simp [Nat.add_assoc]

theorem exists_signs {negative : Bool} {tokens rest : List Token} {e : Expr}
    (h : line.readSigned negative tokens = .ok (e, rest)) :
    ∃ signs number, (∀ sign ∈ signs, sign.kind = .operator .sub) ∧ number.kind = .number ∧
      tokens = signs ++ number :: rest := by
  induction tokens generalizing negative with
  | nil => cases h
  | cons token tokens ih =>
    unfold readSigned at h
    split at h
    · rename_i hkind
      obtain ⟨signs, number, hsigns, hnumber, rfl⟩ := ih h
      exact ⟨token :: signs, number, List.forall_mem_cons.2 ⟨hkind, hsigns⟩, hnumber, rfl⟩
    · rename_i hkind
      cases h
      exact ⟨[], token, nofun, hkind, rfl⟩
    · cases h

/-- What the readers of expressions return with so much fuel is the value of a phrase. -/
structure ReadsPhrases (line : Line) (exhausted : SyntaxError.Cause) (fuel : Nat) : Prop where
  expr : ∀ {ending condition tokens e closer rest},
    line.readExprWith exhausted fuel ending condition tokens = .ok (e, closer, rest) →
      ending.EndsAt closer rest ∧
        ∃ phrase : Phrase .expression, phrase.Spans condition tokens (closer.toList ++ rest) e
  links : ∀ {ending condition tokens links closer rest},
    line.readLinksWith exhausted fuel ending condition tokens = .ok (links, closer, rest) →
      ending.EndsAt closer rest ∧
        ∃ phrase : Phrase .links, phrase.Spans condition tokens (closer.toList ++ rest) links
  operand : ∀ {ending condition tokens e rest},
    line.readOperandWith exhausted fuel ending condition tokens = .ok (e, rest) →
      ∃ phrase : Phrase .operand, phrase.Spans condition tokens rest e
  name : ∀ {name tokens e rest condition}, name.kind = .symbol →
    line.readNameWith exhausted fuel name tokens = .ok (e, rest) →
      ∃ phrase : Phrase .operand, phrase.Spans condition (name :: tokens) rest e
  indices : ∀ {tokens es rest}, line.readIndicesWith exhausted fuel tokens = .ok (es, rest) →
    ∃ phrase : Phrase .indices, phrase.Spans false tokens rest es
  args : ∀ {tokens es rest}, line.readArgsWith exhausted fuel tokens = .ok (es, rest) →
    ∃ phrase : Phrase .arguments, phrase.Spans false tokens rest es
  moreArgs : ∀ {tokens es rest}, line.readMoreArgsWith exhausted fuel tokens = .ok (es, rest) →
    ∃ phrase : Phrase .moreArguments, phrase.Spans false tokens rest es

namespace ReadsPhrases

theorem zero (line : Line) (exhausted : SyntaxError.Cause) : line.ReadsPhrases exhausted 0 where
  expr h := by simp [readExprWith] at h
  links h := by simp [readLinksWith] at h
  operand h := by simp [readOperandWith] at h
  name _ h := by simp [readNameWith] at h
  indices h := by simp [readIndicesWith] at h
  args h := by simp [readArgsWith] at h
  moreArgs h := by simp [readMoreArgsWith] at h

theorem expr_succ (ih : line.ReadsPhrases exhausted fuel) {ending : Ending} {condition : Bool}
    {tokens rest : List Token} {e : Expr} {closer : Option Token}
    (h : line.readExprWith exhausted (fuel + 1) ending condition tokens = .ok (e, closer, rest)) :
    ending.EndsAt closer rest ∧
      ∃ phrase : Phrase .expression, phrase.Spans condition tokens (closer.toList ++ rest) e := by
  rw [readExprWith] at h
  obtain ⟨⟨first, more⟩, hfirst, h⟩ := Except.bind_eq_ok_iff.1 h
  obtain ⟨⟨links, closer, rest⟩, hlinks, h⟩ := Except.bind_eq_ok_iff.1 h
  simp only [Except.pure_eq_ok_iff, Prod.mk.injEq] at h
  obtain ⟨he, rfl, rfl⟩ := h
  obtain ⟨operand, hobeys, rfl, rfl⟩ := ih.operand hfirst
  obtain ⟨hends, phrase, hobeys', rfl, rfl⟩ := ih.links hlinks
  exact ⟨hends, .chain operand phrase, ⟨hobeys, hobeys'⟩, by simp [Phrase.tokens], he⟩

theorem links_succ (ih : line.ReadsPhrases exhausted fuel) {ending : Ending} {condition : Bool}
    {tokens rest : List Token} {links : List (Operator × Expr)} {closer : Option Token}
    (h : line.readLinksWith exhausted (fuel + 1) ending condition tokens =
      .ok (links, closer, rest)) :
    ending.EndsAt closer rest ∧
      ∃ phrase : Phrase .links, phrase.Spans condition tokens (closer.toList ++ rest) links := by
  cases tokens with
  | nil =>
    rw [readLinksWith] at h
    split at h
    · rename_i hline
      cases h
      exact ⟨.line hline, .noLink, trivial, rfl, rfl⟩
    · cases h
  | cons token tokens =>
    rw [readLinksWith] at h
    split at h
    · rename_i hcloses
      cases h
      exact ⟨Ending.endsAt_some_iff.2 hcloses, .noLink, trivial, rfl, rfl⟩
    · split at h
      · cases h
      · rename_i op hop
        obtain ⟨⟨operand, more⟩, hoperand, h⟩ := Except.bind_eq_ok_iff.1 h
        obtain ⟨⟨links, closer, rest⟩, hlinks, h⟩ := Except.bind_eq_ok_iff.1 h
        cases h
        obtain ⟨hkind, hcomparator⟩ := operatorIn?_eq_some_iff.1 hop
        obtain ⟨operand, hobeys, rfl, rfl⟩ := ih.operand hoperand
        obtain ⟨hends, phrase, hobeys', rfl, rfl⟩ := ih.links hlinks
        exact ⟨hends, .link token op operand phrase, ⟨hkind, hcomparator, hobeys, hobeys'⟩,
          by simp [Phrase.tokens], rfl⟩

theorem operand_succ (ih : line.ReadsPhrases exhausted fuel) {ending : Ending} {condition : Bool}
    {tokens rest : List Token} {e : Expr}
    (h : line.readOperandWith exhausted (fuel + 1) ending condition tokens = .ok (e, rest)) :
    ∃ phrase : Phrase .operand, phrase.Spans condition tokens rest e := by
  cases tokens with
  | nil => simp [readOperandWith] at h
  | cons token tokens =>
    rw [readOperandWith] at h
    split at h
    · rename_i hkind
      cases h
      exact ⟨.literal token, .inl hkind, rfl, rfl⟩
    · rename_i hkind
      cases h
      exact ⟨.literal token, .inr hkind, rfl, rfl⟩
    · rename_i hkind
      obtain ⟨signs, number, hsigns, hnumber, rfl⟩ := exists_signs h
      rw [readSigned_signs hsigns hnumber] at h
      cases h
      exact ⟨.signed token signs number, ⟨List.forall_mem_cons.2 ⟨hkind, hsigns⟩, hnumber⟩,
        by simp [Phrase.tokens], rfl⟩
    · rename_i hkind
      obtain ⟨⟨inner, closer, rest⟩, hinner, h⟩ := Except.bind_eq_ok_iff.1 h
      cases h
      obtain ⟨hends, phrase, hobeys, rfl, rfl⟩ := ih.expr hinner
      obtain ⟨closing, rfl, hclosing⟩ := hends.exists_token (by simp)
      have hparen : closing.kind = .rightParen := by simpa [Closer.kind?, eq_comm] using hclosing
      exact ⟨.group token phrase closing, ⟨hkind, hobeys, hparen⟩, by simp [Phrase.tokens], rfl⟩
    · exact ih.name ‹_› h
    · split at h <;> cases h

theorem call_succ (ih : line.ReadsPhrases exhausted fuel) {name dot member paren : Token}
    {condition : Bool} {after rest : List Token} {e : Expr} (hname : name.kind = .symbol)
    (hdot : dot.kind = .dot) (hmember : member.kind = .symbol) (hparen : paren.kind = .leftParen)
    (h : line.readNameWith exhausted (fuel + 1) name (dot :: member :: paren :: after) =
      .ok (e, rest)) :
    ∃ phrase : Phrase .operand,
      phrase.Spans condition (name :: dot :: member :: paren :: after) rest e := by
  rw [readNameWith_call hdot (expectSymbol_eq_ok_iff.2 ⟨rfl, hmember⟩) hparen] at h
  obtain ⟨⟨args, rest⟩, hargs, h⟩ := Except.bind_eq_ok_iff.1 h
  dsimp only at h
  split at h
  · rename_i method hmethod
    cases h
    obtain ⟨phrase, hobeys, rfl, rfl⟩ := ih.args hargs
    obtain ⟨hnamed, harity⟩ := Method.resolve_eq_ok_iff.1 hmethod
    exact ⟨.call name dot member paren phrase method,
      ⟨hname, hdot, hmember, hparen, hobeys, hnamed, harity⟩, rfl, rfl⟩
  · cases h

theorem exists_field {name dot member : Token} {condition : Bool} {after rest : List Token}
    {e : Expr} (hname : name.kind = .symbol) (hdot : dot.kind = .dot)
    (hmember : member.kind = .symbol) (hafter : ∀ token ∈ after.head?, token.kind ≠ .leftParen)
    (h : line.readNameWith exhausted (fuel + 1) name (dot :: member :: after) = .ok (e, rest)) :
    ∃ phrase : Phrase .operand, phrase.Spans condition (name :: dot :: member :: after) rest e := by
  rw [readNameWith_field hdot (expectSymbol_eq_ok_iff.2 ⟨rfl, hmember⟩) hafter] at h
  split at h
  · rename_i field hfield
    cases h
    exact ⟨.field name dot member field,
      ⟨hname, hdot, hmember, Field.resolve_eq_ok_iff.1 hfield⟩, rfl, rfl⟩
  · cases h

theorem name_succ (ih : line.ReadsPhrases exhausted fuel) {name : Token} {condition : Bool}
    {tokens rest : List Token} {e : Expr} (hname : name.kind = .symbol)
    (h : line.readNameWith exhausted (fuel + 1) name tokens = .ok (e, rest)) :
    ∃ phrase : Phrase .operand, phrase.Spans condition (name :: tokens) rest e := by
  cases tokens with
  | nil =>
    rw [readNameWith] at h
    cases h
    exact ⟨.variable name .noIndex, ⟨hname, trivial⟩, rfl, rfl⟩
  | cons token tokens =>
    have hread := h
    rw [readNameWith] at hread
    split at hread
    · obtain ⟨⟨indices, rest⟩, hindices, hread⟩ := Except.bind_eq_ok_iff.1 hread
      cases hread
      obtain ⟨phrase, hobeys, htokens, rfl⟩ := ih.indices hindices
      exact ⟨.variable name phrase, ⟨hname, hobeys⟩, by rw [htokens]; rfl, rfl⟩
    · rename_i hdot
      obtain ⟨⟨member, after⟩, hexpect, -⟩ := Except.bind_eq_ok_iff.1 hread
      obtain ⟨rfl, hmember⟩ := expectSymbol_eq_ok_iff.1 hexpect
      by_cases hafter : ∀ token ∈ after.head?, token.kind ≠ .leftParen
      · exact exists_field hname hdot hmember hafter h
      · obtain ⟨paren, after, rfl, hparen⟩ := exists_cons_of_kind hafter
        exact ih.call_succ hname hdot hmember hparen h
    · cases hread
    · cases hread
      exact ⟨.variable name .noIndex, ⟨hname, trivial⟩, rfl, rfl⟩

theorem indices_succ (ih : line.ReadsPhrases exhausted fuel) {tokens rest : List Token}
    {es : List Expr} (h : line.readIndicesWith exhausted (fuel + 1) tokens = .ok (es, rest)) :
    ∃ phrase : Phrase .indices, phrase.Spans false tokens rest es := by
  by_cases hbracket : ∀ token ∈ tokens.head?, token.kind ≠ .leftBracket
  · rw [readIndicesWith_end hbracket] at h
    cases h
    exact ⟨.noIndex, trivial, rfl, rfl⟩
  · obtain ⟨opening, tokens, rfl, hopening⟩ := exists_cons_of_kind hbracket
    rw [readIndicesWith_bracket hopening] at h
    obtain ⟨⟨index, closer, after⟩, hindex, h⟩ := Except.bind_eq_ok_iff.1 h
    obtain ⟨⟨indices, rest⟩, hindices, h⟩ := Except.bind_eq_ok_iff.1 h
    cases h
    obtain ⟨hends, inner, hinner, rfl, rfl⟩ := ih.expr hindex
    obtain ⟨closing, rfl, hclosing⟩ := hends.exists_token (by simp)
    obtain ⟨more, hmore, rfl, rfl⟩ := ih.indices hindices
    have hkind : closing.kind = .rightBracket := by simpa [Closer.kind?, eq_comm] using hclosing
    exact ⟨.index opening inner closing more, ⟨hopening, hinner, hkind, hmore⟩,
      by simp [Phrase.tokens], rfl⟩

theorem args_succ (ih : line.ReadsPhrases exhausted fuel) {tokens rest : List Token}
    {es : List Expr} (h : line.readArgsWith exhausted (fuel + 1) tokens = .ok (es, rest)) :
    ∃ phrase : Phrase .arguments, phrase.Spans false tokens rest es := by
  by_cases hparen : ∀ token ∈ tokens.head?, token.kind ≠ .rightParen
  · rw [readArgsWith_more hparen] at h
    obtain ⟨args, hobeys, rfl, rfl⟩ := ih.moreArgs h
    exact ⟨.someArguments args, hobeys, rfl, rfl⟩
  · obtain ⟨closing, tokens, rfl, hclosing⟩ := exists_cons_of_kind hparen
    rw [readArgsWith_end hclosing] at h
    cases h
    exact ⟨.noArgument closing, hclosing, rfl, rfl⟩

theorem moreArgs_succ (ih : line.ReadsPhrases exhausted fuel) {tokens rest : List Token}
    {es : List Expr} (h : line.readMoreArgsWith exhausted (fuel + 1) tokens = .ok (es, rest)) :
    ∃ phrase : Phrase .moreArguments, phrase.Spans false tokens rest es := by
  have hread := h
  rw [readMoreArgsWith] at hread
  obtain ⟨⟨arg, closer, after⟩, harg, -⟩ := Except.bind_eq_ok_iff.1 hread
  obtain ⟨hends, phrase, hobeys, rfl, rfl⟩ := ih.expr harg
  obtain ⟨closing, rfl, hclosing⟩ := hends.exists_token (by simp)
  have hkind : closing.kind = .comma ∨ closing.kind = .rightParen := by
    simpa [Closer.kind?, eq_comm] using hclosing
  rcases hkind with hcomma | hparen
  · rw [readMoreArgsWith_comma harg hcomma] at h
    obtain ⟨⟨args, rest⟩, hargs, h⟩ := Except.bind_eq_ok_iff.1 h
    cases h
    obtain ⟨more, hmore, rfl, rfl⟩ := ih.moreArgs hargs
    exact ⟨.argument phrase closing more, ⟨hobeys, hcomma, hmore⟩, by simp [Phrase.tokens], rfl⟩
  · rw [readMoreArgsWith_last harg (by simp [hparen])] at h
    cases h
    exact ⟨.lastArgument phrase closing, ⟨hobeys, hparen⟩, by simp [Phrase.tokens], rfl⟩

theorem succ (ih : line.ReadsPhrases exhausted fuel) : line.ReadsPhrases exhausted (fuel + 1) where
  expr h := ih.expr_succ h
  links h := ih.links_succ h
  operand h := ih.operand_succ h
  name hname h := ih.name_succ hname h
  indices h := ih.indices_succ h
  args h := ih.args_succ h
  moreArgs h := ih.moreArgs_succ h

end ReadsPhrases

theorem readsPhrases (line : Line) (exhausted : SyntaxError.Cause) (fuel : Nat) :
    line.ReadsPhrases exhausted fuel := by
  induction fuel with
  | zero => exact .zero line exhausted
  | succ fuel ih => exact ih.succ

end Line

/-! ## A phrase is read -/

namespace Phrase

/-- With four steps for each token, the phrase is read wherever it may end. -/
def IsRead (line : Line) (exhausted : SyntaxError.Cause) :
    {category : Category} → Phrase category → Prop
  | .operand, p => ∀ ⦃fuel condition rest⦄ (ending : Ending), p.Obeys condition →
      4 * p.tokens.length ≤ fuel → EndsOperand rest →
      line.readOperandWith exhausted fuel ending condition (p.tokens ++ rest) = .ok (p.value, rest)
  | .expression, p => ∀ ⦃fuel condition ending closer rest⦄, p.Obeys condition →
      4 * p.tokens.length + 1 ≤ fuel → Ending.EndsAt ending closer rest →
      line.readExprWith exhausted fuel ending condition (p.tokens ++ (closer.toList ++ rest)) =
        .ok (p.value, closer, rest)
  | .links, p => ∀ ⦃fuel condition ending closer rest⦄, p.Obeys condition →
      4 * p.tokens.length + 1 ≤ fuel → Ending.EndsAt ending closer rest →
      line.readLinksWith exhausted fuel ending condition (p.tokens ++ (closer.toList ++ rest)) =
        .ok (p.value, closer, rest)
  | .indices, p => ∀ ⦃fuel rest⦄, p.Obeys false → 4 * p.tokens.length + 1 ≤ fuel →
      EndsOperand rest →
      line.readIndicesWith exhausted fuel (p.tokens ++ rest) = .ok (p.value, rest)
  | .arguments, p => ∀ ⦃fuel rest⦄, p.Obeys false → 4 * p.tokens.length + 1 ≤ fuel →
      line.readArgsWith exhausted fuel (p.tokens ++ rest) = .ok (p.value, rest)
  | .moreArguments, p => ∀ ⦃fuel rest⦄, p.Obeys false → 4 * p.tokens.length ≤ fuel →
      line.readMoreArgsWith exhausted fuel (p.tokens ++ rest) = .ok (p.value, rest)

variable {category : Category} {line : Line} {exhausted : SyntaxError.Cause}

theorem isRead_literal (token : Token) : (literal token).IsRead line exhausted := by
  intro fuel condition rest ending hp hfuel _
  obtain ⟨fuel, rfl⟩ : ∃ steps, fuel = steps + 1 := ⟨fuel - 1, by grind [tokens]⟩
  rcases hp with hkind | hkind
  all_goals
    rw [tokens, List.singleton_append, Line.readOperandWith, hkind]
    rfl

theorem isRead_signed (sign : Token) (more : List Token) (number : Token) :
    (signed sign more number).IsRead line exhausted := by
  intro fuel condition rest ending hp hfuel _
  obtain ⟨fuel, rfl⟩ : ∃ steps, fuel = steps + 1 := ⟨fuel - 1, by grind [tokens]⟩
  obtain ⟨hsign, hmore⟩ := List.forall_mem_cons.1 hp.1
  rw [tokens, List.cons_append, List.append_assoc, Line.readOperandWith, hsign]
  exact Line.readSigned_signs hmore hp.2 true rest

theorem isRead_group {inner : Phrase .expression} (hinner : inner.IsRead line exhausted)
    (opening closing : Token) : (group opening inner closing).IsRead line exhausted := by
  intro fuel condition rest ending hp hfuel _
  simp only [tokens, List.length_cons, List.length_append] at hfuel
  obtain ⟨fuel, rfl⟩ : ∃ steps, fuel = steps + 1 := ⟨fuel - 1, by omega⟩
  have hends : Ending.EndsAt [.rightParen] (some closing) rest :=
    .closer .rightParen rest (List.mem_singleton_self _) (congrArg some hp.2.2.symm)
  have hread := hinner hp.2.1 (show _ ≤ fuel by omega) hends
  rw [tokens, List.cons_append, List.append_assoc, Line.readOperandWith, hp.1]
  exact Except.bind_eq_ok_iff.2 ⟨_, hread, rfl⟩

theorem isRead_variable {indices : Phrase .indices} (hindices : indices.IsRead line exhausted)
    (name : Token) : (Phrase.variable name indices).IsRead line exhausted := by
  intro fuel condition rest ending hp hfuel hrest
  simp only [tokens, List.length_cons] at hfuel
  obtain ⟨fuel, rfl⟩ : ∃ steps, fuel = steps + 2 := ⟨fuel - 2, by omega⟩
  rw [tokens, List.cons_append, Line.readOperandWith, hp.1]
  dsimp only
  cases indices with
  | noIndex =>
    exact Line.readNameWith_bare (fun token htoken => (hrest token htoken).1)
      (fun token htoken => (hrest token htoken).2.1) (fun token htoken => (hrest token htoken).2.2)
  | index opening inner closing more =>
    have hread := hindices hp.2 (show _ ≤ fuel by omega) hrest
    rw [tokens, List.cons_append] at hread ⊢
    rw [Line.readNameWith_bracket hp.2.1]
    exact Except.bind_eq_ok_iff.2 ⟨_, hread, rfl⟩

theorem isRead_field (object dot member : Token) (f : Field) :
    (Phrase.field object dot member f).IsRead line exhausted := by
  intro fuel condition rest ending hp hfuel hrest
  obtain ⟨fuel, rfl⟩ : ∃ steps, fuel = steps + 2 := ⟨fuel - 2, by grind [tokens]⟩
  have hexpect : line.expectSymbol (member :: rest) = .ok (member, rest) := if_pos hp.2.2.1
  have hparen : ∀ token ∈ rest.head?, token.kind ≠ .leftParen :=
    fun token htoken => (hrest token htoken).2.2
  rw [tokens, List.cons_append, Line.readOperandWith, hp.1]
  dsimp only [List.cons_append, List.nil_append]
  rw [Line.readNameWith_field hp.2.1 hexpect hparen, Field.resolve_eq_ok_iff.2 hp.2.2.2]
  rfl

theorem isRead_call {args : Phrase .arguments} (hargs : args.IsRead line exhausted)
    (object dot member opening : Token) (method : Method) :
    (call object dot member opening args method).IsRead line exhausted := by
  intro fuel condition rest ending hp hfuel _
  simp only [tokens, List.length_cons] at hfuel
  obtain ⟨fuel, rfl⟩ : ∃ steps, fuel = steps + 2 := ⟨fuel - 2, by omega⟩
  obtain ⟨hobject, hdot, hmember, hopening, hobeys, hmethod⟩ := hp
  have hexpect : line.expectSymbol (member :: opening :: (args.tokens ++ rest)) =
      .ok (member, opening :: (args.tokens ++ rest)) := if_pos hmember
  have hread : line.readArgsWith exhausted fuel (args.tokens ++ rest) = .ok (args.value, rest) :=
    hargs hobeys (by omega)
  rw [tokens, List.cons_append, Line.readOperandWith, hobject]
  dsimp only [List.cons_append]
  rw [Line.readNameWith_call hdot hexpect hopening]
  refine Except.bind_eq_ok_iff.2 ⟨_, hread, ?_⟩
  dsimp only
  rw [Method.resolve_eq_ok_iff.2 hmethod]
  rfl

theorem isRead_chain {first : Phrase .operand} {links : Phrase .links}
    (hfirst : first.IsRead line exhausted) (hlinks : links.IsRead line exhausted) :
    (chain first links).IsRead line exhausted := by
  intro fuel condition ending closer rest hp hfuel hends
  obtain ⟨token, more, htokens, -⟩ := exists_operand_eq_cons hp.1
  have hpos : 0 < first.tokens.length := by simp [htokens]
  simp only [tokens, List.length_append] at hfuel
  obtain ⟨fuel, rfl⟩ : ∃ steps, fuel = steps + 1 := ⟨fuel - 1, by omega⟩
  have hoperand := hfirst ending hp.1 (show _ ≤ fuel by omega)
    (endsOperand_links hp.2 hends.endsExpression)
  have hmore := hlinks hp.2 (show _ ≤ fuel by omega) hends
  rw [tokens, List.append_assoc, Line.readExprWith]
  refine Except.bind_eq_ok_iff.2 ⟨_, hoperand, ?_⟩
  exact Except.bind_eq_ok_iff.2 ⟨_, hmore, rfl⟩

theorem isRead_noLink : noLink.IsRead line exhausted := by
  intro fuel condition ending closer rest _ hfuel hends
  obtain ⟨fuel, rfl⟩ : ∃ steps, fuel = steps + 1 := ⟨fuel - 1, by omega⟩
  cases closer with
  | none =>
    cases hends with
    | line hline => exact if_pos hline
  | some token => exact if_pos (Ending.endsAt_some_iff.1 hends)

theorem isRead_link {operand : Phrase .operand} {more : Phrase .links}
    (hoperand : operand.IsRead line exhausted) (hmore : more.IsRead line exhausted)
    (operator : Token) (op : Operator) : (link operator op operand more).IsRead line exhausted := by
  intro fuel condition ending closer rest hp hfuel hends
  simp only [tokens, List.length_cons, List.length_append] at hfuel
  obtain ⟨fuel, rfl⟩ : ∃ steps, fuel = steps + 1 := ⟨fuel - 1, by omega⟩
  obtain ⟨hkind, hcomparator, hobeys, hobeys'⟩ := hp
  have hcloses : ¬ending.closes operator.kind = true := by simp [hkind, ending.closes_operator]
  have hright := hoperand ending hobeys (show _ ≤ fuel by omega)
    (endsOperand_links hobeys' hends.endsExpression)
  have hlinks := hmore hobeys' (show _ ≤ fuel by omega) hends
  rw [tokens, List.cons_append, List.append_assoc, Line.readLinksWith, if_neg hcloses,
    operatorIn?_eq_some_iff.2 ⟨hkind, hcomparator⟩]
  refine Except.bind_eq_ok_iff.2 ⟨_, hright, ?_⟩
  exact Except.bind_eq_ok_iff.2 ⟨_, hlinks, rfl⟩

theorem isRead_noIndex : noIndex.IsRead line exhausted := by
  intro fuel rest _ hfuel hrest
  obtain ⟨fuel, rfl⟩ : ∃ steps, fuel = steps + 1 := ⟨fuel - 1, by omega⟩
  exact Line.readIndicesWith_end fun token htoken => (hrest token htoken).1

theorem isRead_index {inner : Phrase .expression} {more : Phrase .indices}
    (hinner : inner.IsRead line exhausted) (hmore : more.IsRead line exhausted)
    (opening closing : Token) : (index opening inner closing more).IsRead line exhausted := by
  intro fuel rest hp hfuel hrest
  simp only [tokens, List.length_cons, List.length_append] at hfuel
  obtain ⟨fuel, rfl⟩ : ∃ steps, fuel = steps + 1 := ⟨fuel - 1, by omega⟩
  have hends : Ending.EndsAt [.rightBracket] (some closing) (more.tokens ++ rest) :=
    .closer .rightBracket _ (List.mem_singleton_self _) (congrArg some hp.2.2.1.symm)
  have hindex := hinner hp.2.1 (show _ ≤ fuel by omega) hends
  have hindices := hmore hp.2.2.2 (show _ ≤ fuel by omega) hrest
  rw [tokens, List.cons_append, List.append_assoc, Line.readIndicesWith_bracket hp.1]
  refine Except.bind_eq_ok_iff.2 ⟨_, hindex, ?_⟩
  exact Except.bind_eq_ok_iff.2 ⟨_, hindices, rfl⟩

theorem isRead_noArgument (closing : Token) : (noArgument closing).IsRead line exhausted := by
  intro fuel rest hp hfuel
  obtain ⟨fuel, rfl⟩ : ∃ steps, fuel = steps + 1 := ⟨fuel - 1, by omega⟩
  exact Line.readArgsWith_end hp

theorem isRead_someArguments {args : Phrase .moreArguments} (hargs : args.IsRead line exhausted) :
    (someArguments args).IsRead line exhausted := by
  intro fuel rest hp hfuel
  rw [tokens] at hfuel ⊢
  obtain ⟨fuel, rfl⟩ : ∃ steps, fuel = steps + 1 := ⟨fuel - 1, by omega⟩
  obtain ⟨token, more, htokens, hkind⟩ := exists_moreArguments_eq_cons hp
  rw [Line.readArgsWith_more (by simpa [htokens] using hkind)]
  exact hargs hp (show _ ≤ fuel by omega)

theorem isRead_lastArgument {arg : Phrase .expression} (harg : arg.IsRead line exhausted)
    (closing : Token) : (lastArgument arg closing).IsRead line exhausted := by
  intro fuel rest hp hfuel
  simp only [tokens, List.length_append, List.length_cons] at hfuel
  obtain ⟨fuel, rfl⟩ : ∃ steps, fuel = steps + 1 := ⟨fuel - 1, by omega⟩
  have hends : Ending.EndsAt [.comma, .rightParen] (some closing) rest :=
    .closer .rightParen rest (by simp) (congrArg some hp.2.symm)
  have hread := harg hp.1 (show _ ≤ fuel by omega) hends
  rw [tokens, List.append_assoc]
  exact Line.readMoreArgsWith_last hread (by simp [hp.2])

theorem isRead_argument {arg : Phrase .expression} {more : Phrase .moreArguments}
    (harg : arg.IsRead line exhausted) (hmore : more.IsRead line exhausted) (comma : Token) :
    (argument arg comma more).IsRead line exhausted := by
  intro fuel rest hp hfuel
  simp only [tokens, List.length_append, List.length_cons] at hfuel
  obtain ⟨fuel, rfl⟩ : ∃ steps, fuel = steps + 1 := ⟨fuel - 1, by omega⟩
  have hends : Ending.EndsAt [.comma, .rightParen] (some comma) (more.tokens ++ rest) :=
    .closer .comma _ (by simp) (congrArg some hp.2.1.symm)
  have hread := harg hp.1 (show _ ≤ fuel by omega) hends
  have hargs : line.readMoreArgsWith exhausted fuel (more.tokens ++ rest) =
      .ok (more.value, rest) := hmore hp.2.2 (by omega)
  rw [tokens, List.append_assoc]
  exact (Line.readMoreArgsWith_comma hread hp.2.1).trans
    (Except.bind_eq_ok_iff.2 ⟨_, hargs, rfl⟩)

/-- Every phrase of the grammar is read. -/
theorem isRead (p : Phrase category) : p.IsRead line exhausted := by
  induction p with
  | literal token => exact isRead_literal token
  | signed sign more number => exact isRead_signed sign more number
  | group opening inner closing ih => exact isRead_group ih opening closing
  | «variable» name indices ih => exact isRead_variable ih name
  | field object dot member f => exact isRead_field object dot member f
  | call object dot member opening args method ih =>
    exact isRead_call ih object dot member opening method
  | chain first links ihfirst ihlinks => exact isRead_chain ihfirst ihlinks
  | noLink => exact isRead_noLink
  | link operator op operand more ihoperand ihmore =>
    exact isRead_link ihoperand ihmore operator op
  | noIndex => exact isRead_noIndex
  | index opening inner closing more ihinner ihmore =>
    exact isRead_index ihinner ihmore opening closing
  | noArgument closing => exact isRead_noArgument closing
  | someArguments args ih => exact isRead_someArguments ih
  | lastArgument arg closing ih => exact isRead_lastArgument ih closing
  | argument arg comma more iharg ihmore => exact isRead_argument iharg ihmore comma

end Phrase

/-! ## Reading ends -/

namespace Line

variable {line : Line} {exhausted exhausted' : SyntaxError.Cause} {fuel fuel' : Nat}

section Progress

variable {ending : Ending} {condition : Bool} {tokens rest : List Token} {e : Expr}
  {closer : Option Token}

/-- An operand takes at least one token. -/
theorem length_lt_of_readOperandWith
    (h : line.readOperandWith exhausted fuel ending condition tokens = .ok (e, rest)) :
    rest.length < tokens.length := by
  obtain ⟨phrase, hobeys, rfl, -⟩ := (readsPhrases line exhausted fuel).operand h
  obtain ⟨token, more, htokens, -⟩ := Phrase.exists_operand_eq_cons hobeys
  rw [List.length_append, htokens, List.length_cons]
  omega

theorem length_lt_of_readExprWith
    (h : line.readExprWith exhausted fuel ending condition tokens = .ok (e, closer, rest)) :
    rest.length < tokens.length := by
  obtain ⟨-, phrase, hobeys, rfl, -⟩ := (readsPhrases line exhausted fuel).expr h
  obtain ⟨token, more, htokens, -⟩ := Phrase.exists_expression_eq_cons hobeys
  rw [List.length_append, List.length_append, htokens, List.length_cons]
  omega

end Progress

/-- Where both amounts of fuel are enough, the readers return the same, whatever they would report
if the fuel ran out. -/
structure Settles (line : Line) (exhausted exhausted' : SyntaxError.Cause) (fuel fuel' : Nat) :
    Prop where
  expr : ∀ ending condition tokens, 4 * tokens.length + 2 ≤ min fuel fuel' →
    line.readExprWith exhausted fuel ending condition tokens =
      line.readExprWith exhausted' fuel' ending condition tokens
  links : ∀ ending condition tokens, 4 * tokens.length + 1 ≤ min fuel fuel' →
    line.readLinksWith exhausted fuel ending condition tokens =
      line.readLinksWith exhausted' fuel' ending condition tokens
  operand : ∀ ending condition tokens, 4 * tokens.length + 1 ≤ min fuel fuel' →
    line.readOperandWith exhausted fuel ending condition tokens =
      line.readOperandWith exhausted' fuel' ending condition tokens
  name : ∀ name tokens, 4 * tokens.length + 2 ≤ min fuel fuel' →
    line.readNameWith exhausted fuel name tokens = line.readNameWith exhausted' fuel' name tokens
  indices : ∀ tokens, 4 * tokens.length + 1 ≤ min fuel fuel' →
    line.readIndicesWith exhausted fuel tokens = line.readIndicesWith exhausted' fuel' tokens
  args : ∀ tokens, 4 * tokens.length + 4 ≤ min fuel fuel' →
    line.readArgsWith exhausted fuel tokens = line.readArgsWith exhausted' fuel' tokens
  moreArgs : ∀ tokens, 4 * tokens.length + 3 ≤ min fuel fuel' →
    line.readMoreArgsWith exhausted fuel tokens = line.readMoreArgsWith exhausted' fuel' tokens

namespace Settles

theorem expr_succ (ih : line.Settles exhausted exhausted' fuel fuel') (ending : Ending)
    (condition : Bool) (tokens : List Token)
    (hfuel : 4 * tokens.length + 2 ≤ min (fuel + 1) (fuel' + 1)) :
    line.readExprWith exhausted (fuel + 1) ending condition tokens =
      line.readExprWith exhausted' (fuel' + 1) ending condition tokens := by
  rw [readExprWith, readExprWith]
  refine Except.bind_congr (ih.operand ending condition tokens (by omega)) ?_
  rintro ⟨first, rest⟩ hfirst
  have hrest := length_lt_of_readOperandWith hfirst
  exact Except.bind_congr (ih.links ending condition rest (by omega)) fun _ _ => rfl

theorem links_succ (ih : line.Settles exhausted exhausted' fuel fuel') (ending : Ending)
    (condition : Bool) (tokens : List Token)
    (hfuel : 4 * tokens.length + 1 ≤ min (fuel + 1) (fuel' + 1)) :
    line.readLinksWith exhausted (fuel + 1) ending condition tokens =
      line.readLinksWith exhausted' (fuel' + 1) ending condition tokens := by
  cases tokens with
  | nil => rw [readLinksWith, readLinksWith]
  | cons token tokens =>
    rw [List.length_cons] at hfuel
    rw [readLinksWith, readLinksWith]
    split
    · rfl
    · split
      · rfl
      · refine Except.bind_congr (ih.operand ending condition tokens (by omega)) ?_
        rintro ⟨operand, rest⟩ hoperand
        have hrest := length_lt_of_readOperandWith hoperand
        exact Except.bind_congr (ih.links ending condition rest (by omega)) fun _ _ => rfl

theorem operand_succ (ih : line.Settles exhausted exhausted' fuel fuel') (ending : Ending)
    (condition : Bool) (tokens : List Token)
    (hfuel : 4 * tokens.length + 1 ≤ min (fuel + 1) (fuel' + 1)) :
    line.readOperandWith exhausted (fuel + 1) ending condition tokens =
      line.readOperandWith exhausted' (fuel' + 1) ending condition tokens := by
  cases tokens with
  | nil => rw [readOperandWith, readOperandWith]
  | cons token tokens =>
    rw [List.length_cons] at hfuel
    rw [readOperandWith, readOperandWith]
    split
    · rfl
    · rfl
    · rfl
    · exact Except.bind_congr (ih.expr _ condition tokens (by omega)) fun _ _ => rfl
    · exact ih.name token tokens (by omega)
    · rfl

theorem name_succ (ih : line.Settles exhausted exhausted' fuel fuel') (name : Token)
    (tokens : List Token) (hfuel : 4 * tokens.length + 2 ≤ min (fuel + 1) (fuel' + 1)) :
    line.readNameWith exhausted (fuel + 1) name tokens =
      line.readNameWith exhausted' (fuel' + 1) name tokens := by
  cases tokens with
  | nil => rw [readNameWith, readNameWith]
  | cons token tokens =>
    rw [readNameWith, readNameWith]
    split
    · exact Except.bind_congr (ih.indices _ (by omega)) fun _ _ => rfl
    · refine Except.bind_congr rfl ?_
      rintro ⟨member, after⟩ hmember
      obtain ⟨rfl, -⟩ := expectSymbol_eq_ok_iff.1 hmember
      dsimp only
      split
      · simp only [List.length_cons] at hfuel
        exact Except.bind_congr (ih.args _ (by omega)) fun _ _ => rfl
      · rfl
    · rfl
    · rfl

theorem indices_succ (ih : line.Settles exhausted exhausted' fuel fuel') (tokens : List Token)
    (hfuel : 4 * tokens.length + 1 ≤ min (fuel + 1) (fuel' + 1)) :
    line.readIndicesWith exhausted (fuel + 1) tokens =
      line.readIndicesWith exhausted' (fuel' + 1) tokens := by
  by_cases hbracket : ∀ token ∈ tokens.head?, token.kind ≠ .leftBracket
  · rw [readIndicesWith_end hbracket, readIndicesWith_end hbracket]
  · obtain ⟨opening, tokens, rfl, hopening⟩ := exists_cons_of_kind hbracket
    rw [List.length_cons] at hfuel
    rw [readIndicesWith_bracket hopening, readIndicesWith_bracket hopening]
    refine Except.bind_congr (ih.expr _ false tokens (by omega)) ?_
    rintro ⟨index, closer, rest⟩ hindex
    have hrest := length_lt_of_readExprWith hindex
    exact Except.bind_congr (ih.indices rest (by omega)) fun _ _ => rfl

theorem args_succ (ih : line.Settles exhausted exhausted' fuel fuel') (tokens : List Token)
    (hfuel : 4 * tokens.length + 4 ≤ min (fuel + 1) (fuel' + 1)) :
    line.readArgsWith exhausted (fuel + 1) tokens =
      line.readArgsWith exhausted' (fuel' + 1) tokens := by
  by_cases hparen : ∀ token ∈ tokens.head?, token.kind ≠ .rightParen
  · rw [readArgsWith_more hparen, readArgsWith_more hparen]
    exact ih.moreArgs tokens (by omega)
  · obtain ⟨closing, tokens, rfl, hclosing⟩ := exists_cons_of_kind hparen
    rw [readArgsWith_end hclosing, readArgsWith_end hclosing]

theorem moreArgs_succ (ih : line.Settles exhausted exhausted' fuel fuel') (tokens : List Token)
    (hfuel : 4 * tokens.length + 3 ≤ min (fuel + 1) (fuel' + 1)) :
    line.readMoreArgsWith exhausted (fuel + 1) tokens =
      line.readMoreArgsWith exhausted' (fuel' + 1) tokens := by
  rw [readMoreArgsWith, readMoreArgsWith]
  refine Except.bind_congr (ih.expr _ false tokens (by omega)) ?_
  rintro ⟨arg, closer, rest⟩ harg
  have hrest := length_lt_of_readExprWith harg
  dsimp only
  split
  · exact Except.bind_congr (ih.moreArgs rest (by omega)) fun _ _ => rfl
  · rfl

theorem succ (ih : line.Settles exhausted exhausted' fuel fuel') :
    line.Settles exhausted exhausted' (fuel + 1) (fuel' + 1) :=
  ⟨ih.expr_succ, ih.links_succ, ih.operand_succ, ih.name_succ, ih.indices_succ, ih.args_succ,
    ih.moreArgs_succ⟩

end Settles

theorem settles (line : Line) (exhausted exhausted' : SyntaxError.Cause) (fuel fuel' : Nat) :
    line.Settles exhausted exhausted' fuel fuel' := by
  induction fuel generalizing fuel' with
  | zero => constructor <;> intros <;> omega
  | succ fuel ih =>
    cases fuel' with
    | zero => constructor <;> intros <;> omega
    | succ fuel' => exact (ih fuel').succ

end Line

/-! ## Whole expressions -/

/-- An expression of the grammar stands at the start of the tokens, and what follows may end it. -/
structure Phrase.Derives (phrase : Phrase .expression) (ending : Ending) (condition : Bool)
    (tokens : List Token) (closer : Option Token) (rest : List Token) : Prop where
  obeys : phrase.Obeys condition
  tokens_eq : tokens = phrase.tokens ++ (closer.toList ++ rest)
  endsAt : ending.EndsAt closer rest

namespace Phrase.Derives

variable {p q : Phrase .expression} {ending : Ending} {condition : Bool} {tokens : List Token}
  {closer closer' : Option Token} {rest rest' : List Token}

theorem readExpr_eq (hp : p.Derives ending condition tokens closer rest) (line : Line) :
    line.readExpr ending condition tokens = .ok (p.value, closer, rest) := by
  have hlength := congrArg List.length hp.tokens_eq
  rw [List.length_append] at hlength
  rw [Line.readExpr, Line.fuelFor, hp.tokens_eq]
  exact p.isRead hp.obeys (by rw [← hp.tokens_eq]; omega) hp.endsAt

theorem unique (hp : p.Derives ending condition tokens closer rest)
    (hq : q.Derives ending condition tokens closer' rest') :
    p = q ∧ closer = closer' ∧ rest = rest' := by
  have htokens := hp.tokens_eq.symm.trans hq.tokens_eq
  obtain ⟨rfl, -⟩ := p.unambiguous hp.obeys hq.obeys htokens hp.endsAt.endsExpression
    hq.endsAt.endsExpression
  have hread := hp.readExpr_eq ⟨0, 0⟩
  rw [hq.readExpr_eq ⟨0, 0⟩] at hread
  grind

end Phrase.Derives

namespace Line

variable {line : Line}

theorem exists_derives_of_readExpr {ending : Ending} {condition : Bool} {tokens rest : List Token}
    {e : Expr} {closer : Option Token}
    (hread : line.readExpr ending condition tokens = .ok (e, closer, rest)) :
    ∃ phrase : Phrase .expression,
      phrase.Derives ending condition tokens closer rest ∧ phrase.value = e := by
  obtain ⟨hends, phrase, hobeys, htokens, hvalue⟩ := (readsPhrases line _ _).expr hread
  exact ⟨phrase, ⟨hobeys, htokens, hends⟩, hvalue⟩

/-- Reading an expression succeeds exactly on the phrases of the grammar, each of which is the only
one; it never runs out of fuel, and every operand takes a token. -/
theorem readExpr_recognizes (line : Line) (ending : Ending) (condition : Bool)
    (tokens : List Token) :
    (∀ e closer rest, line.readExpr ending condition tokens = .ok (e, closer, rest) ↔
      ∃ phrase : Phrase .expression,
        phrase.Derives ending condition tokens closer rest ∧ phrase.value = e) ∧
    (∀ (p q : Phrase .expression) (closer closer' : Option Token) (rest rest' : List Token),
      p.Derives ending condition tokens closer rest →
      q.Derives ending condition tokens closer' rest' → p = q ∧ closer = closer' ∧ rest = rest') ∧
    (∀ exhausted fuel, fuelFor tokens ≤ fuel →
      line.readExprWith exhausted fuel ending condition tokens =
        line.readExpr ending condition tokens) ∧
    ∀ exhausted fuel e rest,
      line.readOperandWith exhausted fuel ending condition tokens = .ok (e, rest) →
        rest.length < tokens.length := by
  refine ⟨fun e closer rest => ⟨fun hread => ?_, ?_⟩, ?_, ?_, ?_⟩
  · exact exists_derives_of_readExpr hread
  · rintro ⟨phrase, hderives, rfl⟩
    exact hderives.readExpr_eq line
  · intro p q closer closer' rest rest' hp hq
    exact hp.unique hq
  · intro exhausted fuel hfuel
    exact (settles line ..).expr ending condition tokens (by grind [fuelFor])
  · intro exhausted fuel e rest hread
    exact length_lt_of_readOperandWith hread

end Line

end SmallBasic
