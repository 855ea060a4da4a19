import SmallBasic.Proofs.Precedence
import SmallBasic.Proofs.Printing
import SmallBasic.Proofs.Reading

/-!
# Reading what was written

Tokens that spell the lexemes of an expression are read as that expression, and those of a clause as
that clause. Whatever comes after is left to be read, so the readers can be followed one after the
other along a line. Four steps of the readers for each lexeme are enough.

## Main definitions

* `Ending.StopsAt` — what follows ends an expression.
* `Expr.ReadsOperand`, `Expr.ReadsWhole` — the lexemes of an expression are read as the expression.

## Main statements

* `Expr.reads_lexemes` — every expression that can be written is read back.
* `Clause.readClause_lexemes` — every clause that can be written is read back.
-/

namespace SmallBasic

/-! ## What follows -/

/-- What follows does not go on with an operand. -/
def Detached (more : List Lexeme) : Prop := ∀ lexeme ∈ more.head?, lexeme.opens = false

theorem detached_nil : Detached [] := nofun

theorem detached_cons {lexeme : Lexeme} (hopens : lexeme.opens = false) (more : List Lexeme) :
    Detached (lexeme :: more) := by
  rintro _ ⟨⟩
  exact hopens

/-- What follows ends an expression: nothing at the end of the line, or one of the lexemes that may
end it. -/
inductive Ending.StopsAt : Ending → List Lexeme → Prop
  | line {ending : Ending} (hline : .endOfLine ∈ ending) : Ending.StopsAt ending []
  | closer {ending : Ending} {lexeme : Lexeme} (more : List Lexeme)
      (hcloses : ending.closes lexeme.kind = true) (hopens : lexeme.opens = false) :
      Ending.StopsAt ending (lexeme :: more)

theorem Ending.StopsAt.detached {ending : Ending} {more : List Lexeme}
    (hstops : ending.StopsAt more) : Detached more := by
  cases hstops with
  | line => exact detached_nil
  | closer more _ hopens => exact detached_cons hopens more

theorem Spells.head_kind_ne {tokens : List Token} {more : List Lexeme}
    (hspells : Spells tokens more) {kind : Token.Kind}
    (hkind : ∀ lexeme ∈ more.head?, lexeme.kind ≠ kind) :
    ∀ token ∈ tokens.head?, token.kind ≠ kind := by
  cases hspells with
  | nil => exact nofun
  | @cons token lexeme _ _ hsame _ _ =>
    rintro _ ⟨⟩
    rw [hsame]
    exact hkind lexeme rfl

theorem Detached.kind_ne {tokens : List Token} {more : List Lexeme} (hmore : Detached more)
    (hspells : Spells tokens more) {kind : Token.Kind}
    (hopens : kind = .leftParen ∨ kind = .leftBracket ∨ kind = .dot) :
    ∀ token ∈ tokens.head?, token.kind ≠ kind := by
  refine hspells.head_kind_ne ?_
  rintro lexeme hlexeme rfl
  have hclosed := hmore lexeme hlexeme
  cases lexeme <;> simp_all [Lexeme.kind, Lexeme.opens]

/-! ## Expressions -/

namespace Expr

variable (line : Line)

/-- The lexemes of the expression are read as an operand. -/
def ReadsOperand (e : Expr) : Prop :=
  ∀ ⦃condition : Bool⦄ ⦃fuel : Nat⦄ ⦃tokens : List Token⦄ ⦃more : List Lexeme⦄ (ending : Ending),
    e.plain condition = true → 4 * (e.lexemes true).length ≤ fuel →
    Spells tokens (e.lexemes true ++ more) → Detached more →
    ∃ rest, Spells rest more ∧
      line.readOperandWith .expectedExpression fuel ending condition tokens = .ok (e, rest)

/-- The lexemes of the expression are read as a whole expression. -/
def ReadsWhole (e : Expr) : Prop :=
  ∀ ⦃condition : Bool⦄ ⦃fuel : Nat⦄ ⦃tokens : List Token⦄ ⦃more : List Lexeme⦄ ⦃ending : Ending⦄,
    e.plain condition = true → 4 * (e.lexemes false).length + 1 ≤ fuel →
    Spells tokens (e.lexemes false ++ more) → ending.StopsAt more →
    ∃ rest, Spells rest more ∧
      line.readExprWith .expectedExpression fuel ending condition tokens =
        .ok (e, rest.head?, rest.tail)

/-- The lexemes of the expressions are read as indices. -/
def ReadsIndices (es : List Expr) : Prop :=
  ∀ ⦃fuel : Nat⦄ ⦃tokens : List Token⦄ ⦃more : List Lexeme⦄,
    Expr.plainAll es = true → 4 * (Expr.indexLexemes es).length + 1 ≤ fuel →
    Spells tokens (Expr.indexLexemes es ++ more) → Detached more →
    ∃ rest, Spells rest more ∧ line.readIndicesWith .expectedExpression fuel tokens = .ok (es, rest)

/-- The lexemes of the expressions, and a closing parenthesis, are read as arguments. -/
def ReadsArgs (es : List Expr) : Prop :=
  ∀ ⦃fuel : Nat⦄ ⦃tokens : List Token⦄ ⦃more : List Lexeme⦄,
    Expr.plainAll es = true → 4 * ((Expr.argLexemes es).length + 1) + 1 ≤ fuel →
    Spells tokens (Expr.argLexemes es ++ .rightParen :: more) →
    ∃ rest, Spells rest more ∧ line.readArgsWith .expectedExpression fuel tokens = .ok (es, rest)

variable {line : Line}

theorem length_lexemes_pos (e : Expr) (operand : Bool) : 0 < (e.lexemes operand).length := by
  cases e with
  | binary op left right =>
    cases operand with
    | false =>
      simp only [lexemes, Bool.false_eq_true, if_false, List.length_append, List.length_cons]
      omega
    | true => simp [lexemes]
  | _ => simp [lexemes]

theorem content_literal {token : Token} {text : String} (hkind : token.kind = .string)
    (htext : token.text = "\"" ++ text ++ "\"") : token.content = text := by
  simp [Token.content, hkind, htext, Token.unquote]

theorem readsOperand_literal (text : String) : (literal text).ReadsOperand line := by
  intro condition fuel tokens more ending _ hfuel hspells _
  cases fuel with
  | zero => simp [lexemes] at hfuel
  | succ fuel =>
    rw [lexemes, List.singleton_append] at hspells
    cases hspells with
    | @cons token _ rest _ hkind htext hrest =>
      have hstring : token.kind = .string := hkind
      refine ⟨rest, hrest, ?_⟩
      rw [Line.readOperandWith, hstring]
      dsimp only
      rw [content_literal hstring htext]

theorem readsOperand_variable (name : String) {indices : List Expr}
    (hindices : ReadsIndices line indices) : (Expr.variable name indices).ReadsOperand line := by
  intro condition fuel tokens more ending hplain hfuel hspells hmore
  simp only [plain, Bool.and_eq_true] at hplain
  rw [lexemes, List.length_cons] at hfuel
  obtain ⟨fuel, rfl⟩ : ∃ steps, fuel = steps + 2 := ⟨fuel - 2, by omega⟩
  rw [lexemes, List.cons_append] at hspells
  cases hspells with
  | @cons token _ tokens _ hkind htext hrest =>
    have hsymbol : token.kind = .symbol := hkind
    obtain rfl : token.text = name := htext
    rw [Line.readOperandWith, hsymbol]
    cases indices with
    | nil =>
      rw [indexLexemes, List.nil_append] at hrest
      refine ⟨tokens, hrest, Line.readNameWith_bare ?_ ?_ ?_⟩
      · exact hmore.kind_ne hrest (.inr (.inl rfl))
      · exact hmore.kind_ne hrest (.inr (.inr rfl))
      · exact hmore.kind_ne hrest (.inl rfl)
    | cons index indices =>
      obtain ⟨rest, hspells, hread⟩ := hindices hplain.2 (show _ ≤ fuel by omega) hrest hmore
      refine ⟨rest, hspells, ?_⟩
      rw [indexLexemes, List.cons_append] at hrest
      cases hrest with
      | cons hopen _ _ =>
        dsimp only
        rw [Line.readNameWith_bracket hopen, hread]
        rfl

/-- What ends an expression also ends its operators. -/
theorem readLinksWith_stop {fuel : Nat} {ending : Ending} {condition : Bool} {tokens : List Token}
    {more : List Lexeme} (hspells : Spells tokens more) (hstops : ending.StopsAt more) :
    line.readLinksWith .expectedExpression (fuel + 1) ending condition tokens =
      .ok ([], tokens.head?, tokens.tail) := by
  cases hstops with
  | line hline =>
    cases hspells
    rw [Line.readLinksWith, if_pos hline]
    rfl
  | closer more hcloses _ =>
    cases hspells with
    | cons hsame _ _ =>
      rw [Line.readLinksWith, hsame, if_pos hcloses]
      rfl

/-- An expression without an operator is an operand by itself. -/
theorem ReadsOperand.readsWhole {e : Expr} (hoperand : e.ReadsOperand line)
    (hsame : e.lexemes false = e.lexemes true) : e.ReadsWhole line := by
  intro condition fuel tokens more ending hplain hfuel hspells hstops
  have hpos := e.length_lexemes_pos true
  rw [hsame] at hfuel hspells
  obtain ⟨fuel, rfl⟩ : ∃ steps, fuel = steps + 2 := ⟨fuel - 2, by omega⟩
  obtain ⟨rest, hrest, hread⟩ :=
    hoperand ending hplain (show _ ≤ fuel + 1 by omega) hspells hstops.detached
  refine ⟨rest, hrest, ?_⟩
  rw [Line.readExprWith]
  refine Except.bind_eq_ok_iff.2 ⟨_, hread, ?_⟩
  refine Except.bind_eq_ok_iff.2 ⟨_, readLinksWith_stop hrest hstops, ?_⟩
  simp only [Chain.fold_first]
  rfl

/-- An operator between two operands. -/
theorem readsWhole_binary (op : Operator) {left right : Expr} (hleft : left.ReadsOperand line)
    (hright : right.ReadsOperand line) : (binary op left right).ReadsWhole line := by
  intro condition fuel tokens more ending hplain hfuel hspells hstops
  simp only [plain, Bool.and_eq_true] at hplain
  obtain ⟨⟨hop, hleftPlain⟩, hrightPlain⟩ := hplain
  simp only [lexemes, Bool.false_eq_true, if_false, List.length_append, List.length_cons,
    List.append_assoc, List.cons_append] at hfuel hspells
  have hpos := left.length_lexemes_pos true
  have hrightPos := right.length_lexemes_pos true
  obtain ⟨fuel, rfl⟩ : ∃ steps, fuel = steps + 3 := ⟨fuel - 3, by omega⟩
  obtain ⟨tokens, htokens, hfirst⟩ :=
    hleft ending hleftPlain (show _ ≤ fuel + 2 by omega) hspells (detached_cons rfl _)
  cases htokens with
  | @cons token _ tokens _ hkind _ htokens =>
    obtain ⟨rest, hrest, hsecond⟩ :=
      hright ending hrightPlain (show _ ≤ fuel + 1 by omega) htokens hstops.detached
    refine ⟨rest, hrest, ?_⟩
    have hoperator : operatorIn? condition token.kind = some op := by
      rw [hkind]
      simp [Lexeme.kind, operatorIn?, hop]
    have hcloses : ¬ending.closes token.kind = true := by
      rw [hkind]
      simp [Lexeme.kind, ending.closes_operator]
    have hlinks :
        line.readLinksWith .expectedExpression (fuel + 2) ending condition (token :: tokens) =
          .ok ([(op, right)], rest.head?, rest.tail) := by
      rw [Line.readLinksWith, if_neg hcloses, hoperator]
      refine Except.bind_eq_ok_iff.2 ⟨_, hsecond, ?_⟩
      refine Except.bind_eq_ok_iff.2 ⟨_, readLinksWith_stop hrest hstops, ?_⟩
      rfl
    rw [Line.readExprWith]
    refine Except.bind_eq_ok_iff.2 ⟨_, hfirst, ?_⟩
    refine Except.bind_eq_ok_iff.2 ⟨_, hlinks, ?_⟩
    simp only [Chain.fold_single]
    rfl

/-- An operation in parentheses. -/
theorem ReadsWhole.readsOperand_binary {op : Operator} {left right : Expr}
    (hwhole : (binary op left right).ReadsWhole line) :
    (binary op left right).ReadsOperand line := by
  intro condition fuel tokens more ending hplain hfuel hspells hmore
  have hlexemes : (binary op left right).lexemes true =
      .leftParen :: ((binary op left right).lexemes false ++ [.rightParen]) := by
    simp [lexemes]
  rw [hlexemes] at hfuel hspells
  simp only [List.length_cons, List.length_append, List.length_nil, List.cons_append,
    List.append_assoc, List.nil_append] at hfuel hspells
  obtain ⟨fuel, rfl⟩ : ∃ steps, fuel = steps + 1 := ⟨fuel - 1, by omega⟩
  cases hspells with
  | @cons token _ tokens _ hkind _ htokens =>
    have hparen : token.kind = .leftParen := hkind
    have hstops : Ending.StopsAt [.rightParen] (.rightParen :: more) :=
      .closer more rfl rfl
    obtain ⟨rest, hrest, hread⟩ := hwhole hplain (show _ ≤ fuel by omega) htokens hstops
    cases hrest with
    | @cons closer _ rest _ _ _ hrest =>
      refine ⟨rest, hrest, ?_⟩
      rw [Line.readOperandWith, hparen]
      refine Except.bind_eq_ok_iff.2 ⟨_, hread, ?_⟩
      rfl

theorem readsIndices_nil : ReadsIndices line [] := by
  intro fuel tokens more _ hfuel hspells hmore
  obtain ⟨fuel, rfl⟩ : ∃ steps, fuel = steps + 1 := ⟨fuel - 1, by omega⟩
  rw [indexLexemes, List.nil_append] at hspells
  exact ⟨tokens, hspells, Line.readIndicesWith_end (hmore.kind_ne hspells (.inr (.inl rfl)))⟩

theorem readsIndices_cons {e : Expr} {es : List Expr} (hfirst : e.ReadsWhole line)
    (hrest : ReadsIndices line es) : ReadsIndices line (e :: es) := by
  intro fuel tokens more hplain hfuel hspells hmore
  simp only [plainAll, Bool.and_eq_true] at hplain
  simp only [indexLexemes, List.length_cons, List.length_append, List.cons_append,
    List.append_assoc] at hfuel hspells
  obtain ⟨fuel, rfl⟩ : ∃ steps, fuel = steps + 1 := ⟨fuel - 1, by omega⟩
  cases hspells with
  | @cons token _ tokens _ hopen _ hspells =>
    have hstops : Ending.StopsAt [.rightBracket]
        (.rightBracket :: (indexLexemes es ++ more)) :=
      .closer _ rfl rfl
    obtain ⟨after, hafter, hindex⟩ := hfirst hplain.1 (show _ ≤ fuel by omega) hspells hstops
    cases hafter with
    | @cons closer _ after _ _ _ hafter =>
      obtain ⟨rest, hspells, hindices⟩ := hrest hplain.2 (show _ ≤ fuel by omega) hafter hmore
      refine ⟨rest, hspells, ?_⟩
      rw [Line.readIndicesWith_bracket hopen]
      refine Except.bind_eq_ok_iff.2 ⟨_, hindex, ?_⟩
      refine Except.bind_eq_ok_iff.2 ⟨_, hindices, ?_⟩
      rfl

/-- At least one argument, and the closing parenthesis. -/
theorem exists_readMoreArgsWith {line : Line} {e : Expr} {es : List Expr}
    (hreads : ∀ arg ∈ e :: es, arg.ReadsWhole line) {fuel : Nat} {tokens : List Token}
    {more : List Lexeme} (hplain : Expr.plainAll (e :: es) = true)
    (hfuel : 4 * ((Expr.argLexemes (e :: es)).length + 1) ≤ fuel)
    (hspells : Spells tokens (Expr.argLexemes (e :: es) ++ .rightParen :: more)) :
    ∃ rest, Spells rest more ∧
      line.readMoreArgsWith .expectedExpression fuel tokens = .ok (e :: es, rest) := by
  induction es generalizing e fuel tokens with
  | nil =>
    simp only [plainAll, Bool.and_eq_true] at hplain
    simp only [argLexemes] at hfuel hspells
    obtain ⟨fuel, rfl⟩ : ∃ steps, fuel = steps + 1 := ⟨fuel - 1, by omega⟩
    have hstops : Ending.StopsAt [.comma, .rightParen] (.rightParen :: more) :=
      .closer more rfl rfl
    obtain ⟨after, hafter, harg⟩ :=
      hreads e (by simp) hplain.1 (show _ ≤ fuel by omega) hspells hstops
    cases hafter with
    | @cons closer _ rest _ hkind _ hrest =>
      refine ⟨rest, hrest, Line.readMoreArgsWith_last harg ?_⟩
      rintro _ ⟨⟩
      rw [hkind]
      simp [Lexeme.kind]
  | cons next es ih =>
    rw [plainAll, Bool.and_eq_true] at hplain
    simp only [argLexemes, List.length_append, List.length_cons, List.append_assoc,
      List.cons_append] at hfuel hspells
    obtain ⟨fuel, rfl⟩ : ∃ steps, fuel = steps + 1 := ⟨fuel - 1, by omega⟩
    have hstops : Ending.StopsAt [.comma, .rightParen]
        (.comma :: (argLexemes (next :: es) ++ .rightParen :: more)) :=
      .closer _ rfl rfl
    obtain ⟨after, hafter, harg⟩ :=
      hreads e (by simp) hplain.1 (show _ ≤ fuel by omega) hspells hstops
    cases hafter with
    | @cons comma _ after _ hkind _ hafter =>
      obtain ⟨rest, hrest, hargs⟩ :=
        ih (fun arg harg => hreads arg (List.mem_cons_of_mem e harg)) hplain.2
          (show _ ≤ fuel by omega) hafter
      refine ⟨rest, hrest, ?_⟩
      rw [Line.readMoreArgsWith_comma harg hkind, List.tail_cons, hargs]
      rfl

/-- No expression starts with a closing parenthesis. -/
theorem exists_lexemes_cons (e : Expr) (operand : Bool) :
    ∃ first rest, e.lexemes operand = first :: rest ∧ first.kind ≠ .rightParen := by
  have hoperand : ∀ e : Expr, ∃ first rest,
      e.lexemes true = first :: rest ∧ first.kind ≠ .rightParen := by
    intro e
    cases e <;> simp only [lexemes, if_true] <;> exact ⟨_, _, rfl, nofun⟩
  cases operand with
  | true => exact hoperand e
  | false =>
    cases e with
    | binary op left right =>
      obtain ⟨first, rest, hfirst, hkind⟩ := hoperand left
      refine ⟨first, rest ++ .operator op :: right.lexemes true, ?_, hkind⟩
      simp [lexemes, hfirst]
    | _ =>
      simp only [lexemes]
      exact ⟨_, _, rfl, nofun⟩

theorem exists_argLexemes_cons (e : Expr) (es : List Expr) :
    ∃ first rest, argLexemes (e :: es) = first :: rest ∧ first.kind ≠ .rightParen := by
  obtain ⟨first, rest, hfirst, hkind⟩ := e.exists_lexemes_cons false
  cases es with
  | nil => exact ⟨first, rest, hfirst, hkind⟩
  | cons next es =>
    exact ⟨first, rest ++ .comma :: argLexemes (next :: es), by rw [argLexemes, hfirst]; rfl, hkind⟩

theorem readsArgs {es : List Expr} (hreads : ∀ arg ∈ es, arg.ReadsWhole line) :
    ReadsArgs line es := by
  intro fuel tokens more hplain hfuel hspells
  obtain ⟨fuel, rfl⟩ : ∃ steps, fuel = steps + 1 := ⟨fuel - 1, by omega⟩
  cases es with
  | nil =>
    cases hspells with
    | cons hkind _ hrest => exact ⟨_, hrest, Line.readArgsWith_end hkind⟩
  | cons e es =>
    obtain ⟨rest, hrest, hargs⟩ :=
      exists_readMoreArgsWith hreads hplain (show _ ≤ fuel by omega) hspells
    refine ⟨rest, hrest, ?_⟩
    obtain ⟨first, lexemes, hfirst, hkind⟩ := exists_argLexemes_cons e es
    rw [hfirst] at hspells
    rw [Line.readArgsWith_more (hspells.head_kind_ne (by simpa using hkind)), hargs]

theorem readsOperand_field (f : Field) : (field f).ReadsOperand line := by
  intro condition fuel tokens more ending _ hfuel hspells hmore
  simp only [lexemes, List.length_cons, List.cons_append, List.nil_append] at hfuel hspells
  obtain ⟨fuel, rfl⟩ : ∃ steps, fuel = steps + 2 := ⟨fuel - 2, by omega⟩
  cases hspells with
  | @cons object _ tokens _ hobject hobjectText hspells =>
    cases hspells with
    | @cons dot _ tokens _ hdot _ hspells =>
      cases hspells with
      | @cons member _ rest _ hmember hmemberText hrest =>
        have hsymbol : object.kind = .symbol := hobject
        have hexpect : line.expectSymbol (member :: rest) = .ok (member, rest) := if_pos hmember
        refine ⟨rest, hrest, ?_⟩
        rw [Line.readOperandWith, hsymbol]
        dsimp only
        rw [Line.readNameWith_field hdot hexpect (hmore.kind_ne hrest (.inl rfl)), hobjectText,
          hmemberText]
        simp only [Lexeme.text, Field.resolve_name]

theorem readsOperand_call (method : Method) {args : List Expr} (hargs : ReadsArgs line args) :
    (call method args).ReadsOperand line := by
  intro condition fuel tokens more ending hplain hfuel hspells hmore
  simp only [plain, Bool.and_eq_true, beq_iff_eq] at hplain
  obtain ⟨harity, hplain⟩ := hplain
  simp only [lexemes, List.length_cons, List.length_append, List.length_nil, List.cons_append,
    List.append_assoc, List.nil_append] at hfuel hspells
  obtain ⟨fuel, rfl⟩ : ∃ steps, fuel = steps + 2 := ⟨fuel - 2, by omega⟩
  cases hspells with
  | @cons object _ tokens _ hobject hobjectText hspells =>
    cases hspells with
    | @cons dot _ tokens _ hdot _ hspells =>
      cases hspells with
      | @cons member _ tokens _ hmember hmemberText hspells =>
        cases hspells with
        | @cons paren _ tokens _ hparen _ hspells =>
          have hsymbol : object.kind = .symbol := hobject
          have hexpect : line.expectSymbol (member :: paren :: tokens) =
              .ok (member, paren :: tokens) := if_pos hmember
          obtain ⟨rest, hrest, hread⟩ := hargs hplain (show _ ≤ fuel by omega) hspells
          refine ⟨rest, hrest, ?_⟩
          rw [Line.readOperandWith, hsymbol]
          dsimp only
          rw [Line.readNameWith_call hdot hexpect hparen, hobjectText, hmemberText]
          refine Except.bind_eq_ok_iff.2 ⟨_, hread, ?_⟩
          simp only [Lexeme.text, harity, Method.resolve_name]
          rfl

mutual

/-- Every expression that can be written is read back, as an operand and as a whole. -/
theorem reads_lexemes : (e : Expr) → e.ReadsOperand line ∧ e.ReadsWhole line
  | .literal text => ⟨readsOperand_literal text, (readsOperand_literal text).readsWhole rfl⟩
  | .variable name indices => by
    have hoperand := readsOperand_variable name (reads_indexLexemes indices)
    exact ⟨hoperand, hoperand.readsWhole (by rw [lexemes, lexemes])⟩
  | .field f => ⟨readsOperand_field f, (readsOperand_field f).readsWhole rfl⟩
  | .binary op left right => by
    have hwhole := readsWhole_binary op left.reads_lexemes.1 right.reads_lexemes.1
    exact ⟨hwhole.readsOperand_binary, hwhole⟩
  | .call method args => by
    have hoperand := readsOperand_call method (readsArgs (reads_args args))
    exact ⟨hoperand, hoperand.readsWhole (by rw [lexemes, lexemes])⟩

theorem reads_indexLexemes : (es : List Expr) → ReadsIndices line es
  | [] => readsIndices_nil
  | e :: es => readsIndices_cons e.reads_lexemes.2 (reads_indexLexemes es)

theorem reads_args : (es : List Expr) → ∀ arg ∈ es, arg.ReadsWhole line
  | [] => nofun
  | e :: es => List.forall_mem_cons.2 ⟨e.reads_lexemes.2, reads_args es⟩

end

end Expr

/-! ## Clauses -/

namespace Line

variable (line : Line) {tokens : List Token} {more : List Lexeme} {condition : Bool} {e : Expr}

theorem exists_readExpr {ending : Ending} (hplain : e.plain condition = true)
    (hspells : Spells tokens (e.lexemes false ++ more)) (hstops : ending.StopsAt more) :
    ∃ rest, Spells rest more ∧
      line.readExpr ending condition tokens = .ok (e, rest.head?, rest.tail) := by
  have hlength := hspells.length_eq
  rw [List.length_append] at hlength
  exact e.reads_lexemes.2 hplain (show _ ≤ fuelFor tokens by rw [fuelFor]; omega) hspells hstops

theorem exists_readArgs {args : List Expr} (hplain : Expr.plainAll args = true)
    (hspells : Spells tokens (Expr.argLexemes args ++ .rightParen :: more)) :
    ∃ rest, Spells rest more ∧ line.readArgs tokens = .ok (args, rest) := by
  have hlength := hspells.length_eq
  rw [List.length_append, List.length_cons] at hlength
  exact Expr.readsArgs (Expr.reads_args args) hplain
    (show _ ≤ fuelFor tokens by rw [fuelFor]; omega) hspells

theorem exists_readIndices {indices : List Expr} (hplain : Expr.plainAll indices = true)
    (hspells : Spells tokens (Expr.indexLexemes indices ++ more)) (hmore : Detached more) :
    ∃ rest, Spells rest more ∧ line.readIndices tokens = .ok (indices, rest) := by
  have hlength := hspells.length_eq
  rw [List.length_append] at hlength
  exact Expr.reads_indexLexemes indices hplain (show _ ≤ fuelFor tokens by rw [fuelFor]; omega)
    hspells hmore

theorem readRest_eq (hplain : e.plain condition = true)
    (hspells : Spells tokens (e.lexemes false)) : line.readRest condition tokens = .ok e := by
  rw [← List.append_nil (e.lexemes false)] at hspells
  obtain ⟨rest, -, hread⟩ := line.exists_readExpr hplain hspells (.line List.mem_cons_self)
  exact Except.bind_eq_ok_iff.2 ⟨_, hread, rfl⟩

theorem readCondition_eq (hplain : e.plain true = true)
    (hspells : Spells tokens (e.lexemes false ++ [.keyword .then])) :
    line.readCondition tokens = .ok e := by
  have hstops : Ending.StopsAt [.then] [.keyword .then] :=
    .closer [] rfl rfl
  obtain ⟨rest, hrest, hread⟩ := line.exists_readExpr hplain hspells hstops
  cases hrest with
  | cons _ _ hend =>
    cases hend
    exact Except.bind_eq_ok_iff.2 ⟨_, hread, rfl⟩

theorem readName_eq {name : String} (hspells : Spells tokens [.name name]) :
    line.readName tokens = .ok name := by
  cases hspells with
  | @cons token _ _ _ hkind htext hend =>
    cases hend
    have hexpect : line.expectSymbol [token] = .ok (token, []) := if_pos hkind
    obtain rfl : token.text = name := htext
    exact Except.bind_eq_ok_iff.2 ⟨_, hexpect, rfl⟩

theorem readFor_eq {counter : String} {lower upper : Expr} (hlower : lower.plain false = true)
    (hupper : upper.plain false = true)
    (hspells : Spells tokens (.name counter :: .operator .equal ::
      (lower.lexemes false ++ .keyword .to :: upper.lexemes false))) :
    line.readFor tokens = .ok (.for counter lower upper) := by
  have hstops : Ending.StopsAt [.to] (.keyword .to :: upper.lexemes false) :=
    .closer _ rfl rfl
  cases hspells with
  | @cons token _ _ _ hkind htext hspells =>
    cases hspells with
    | @cons equal _ tokens _ hequal _ hspells =>
      obtain ⟨rest, hrest, hread⟩ := line.exists_readExpr hlower hspells hstops
      cases hrest with
      | @cons _ _ rest _ _ _ hrest =>
        have hexpect : line.expectSymbol (token :: equal :: tokens) =
            .ok (token, equal :: tokens) := if_pos hkind
        have hsign : line.expect (.operator .equal) (equal :: tokens) = .ok tokens := if_pos hequal
        obtain rfl : token.text = counter := htext
        refine Except.bind_eq_ok_iff.2 ⟨_, hexpect, ?_⟩
        refine Except.bind_eq_ok_iff.2 ⟨_, hsign, ?_⟩
        refine Except.bind_eq_ok_iff.2 ⟨_, hread, ?_⟩
        refine Except.bind_eq_ok_iff.2 ⟨_, line.readRest_eq hupper hrest, ?_⟩
        rfl

theorem readKeyword_eq {clause : Clause} {word : Keyword} (first : Token)
    (hword : clause.word? = some word) (hplain : clause.plain = true)
    (hspells : Spells tokens clause.lexemes.tail) :
    line.readKeyword first word tokens = .ok clause := by
  cases clause with
  | assign | bind | invoke | label | callSub => cases hword
  | «if» condition | elseIf condition =>
    cases hword
    exact Except.map_eq_ok_iff.2 ⟨_, line.readCondition_eq hplain hspells, rfl⟩
  | «while» condition =>
    cases hword
    exact Except.map_eq_ok_iff.2 ⟨_, line.readRest_eq hplain hspells, rfl⟩
  | «for» counter lower upper =>
    cases hword
    simp only [Clause.plain, Bool.and_eq_true] at hplain
    exact line.readFor_eq hplain.1.2 hplain.2 hspells
  | sub name | goto name =>
    cases hword
    exact Except.map_eq_ok_iff.2 ⟨_, line.readName_eq hspells, rfl⟩
  | «else» | endIf | endWhile | endFor | endSub =>
    cases hword
    cases hspells
    rfl

/-- A member that is assigned to. -/
theorem exists_readMember (object : Token) {name : String}
    (hspells : Spells tokens (.name name :: .operator .equal :: more)) :
    ∃ member rest, member.text = name ∧ Spells rest more ∧
      line.readMember object tokens = line.readMemberValue object member rest := by
  cases hspells with
  | @cons member _ tokens _ hmember htext hspells =>
    cases hspells with
    | @cons equal _ rest _ hequal _ hrest =>
      have hexpect : line.expectSymbol (member :: equal :: rest) = .ok (member, equal :: rest) :=
        if_pos hmember
      have hkind : equal.kind = .operator .equal := hequal
      refine ⟨member, rest, htext, hrest, ?_⟩
      rw [readMember, hexpect]
      dsimp only [bind, Except.bind]
      rw [hkind]

theorem readMember_invoke {object : Token} {method : Method} {args : List Expr}
    (hobject : object.text = method.object.name)
    (hplain : (Clause.invoke method args).plain = true)
    (hspells : Spells tokens (.name method.name :: .leftParen ::
      (Expr.argLexemes args ++ [.rightParen]))) :
    line.readMember object tokens = .ok (.invoke method args) := by
  simp only [Clause.plain, Bool.and_eq_true, beq_iff_eq] at hplain
  obtain ⟨harity, hplain⟩ := hplain
  cases hspells with
  | @cons member _ tokens _ hmember htext hspells =>
    cases hspells with
    | @cons paren _ tokens _ hparen _ hspells =>
      obtain ⟨rest, hrest, hargs⟩ := line.exists_readArgs hplain hspells
      cases hrest
      have hexpect : line.expectSymbol (member :: paren :: tokens) =
          .ok (member, paren :: tokens) := if_pos hmember
      have hkind : paren.kind = .leftParen := hparen
      refine Except.bind_eq_ok_iff.2 ⟨_, hexpect, ?_⟩
      dsimp only
      rw [hkind]
      refine Except.bind_eq_ok_iff.2 ⟨_, hargs, ?_⟩
      rw [hobject, htext]
      simp only [Lexeme.text, harity, Method.resolve_name]
      rfl

theorem readMemberValue_field {object member : Token} {field : Field} {value : Expr}
    (hobject : object.text = field.object.name) (hmember : member.text = field.name)
    (hwritable : field.isWritable = true) (hplain : value.plain false = true)
    (hspells : Spells tokens (value.lexemes false)) :
    line.readMemberValue object member tokens = .ok (.assign (.field field) value) := by
  have hname : (Member.field field).name = field.name := rfl
  rw [readMemberValue, hobject, hmember, Member.resolve_name field.mem_members hname]
  dsimp only
  rw [if_pos hwritable]
  exact Except.map_eq_ok_iff.2 ⟨_, line.readRest_eq hplain hspells, rfl⟩

theorem readMemberValue_event {object member : Token} {event : Event} {handler : String}
    (hobject : object.text = event.object.name) (hmember : member.text = event.name)
    (hhandler : isName handler = true) (hspells : Spells tokens [.name handler]) :
    line.readMemberValue object member tokens = .ok (.bind event handler) := by
  have hname : (Member.event event).name = event.name := rfl
  have hplain : (Expr.variable handler []).plain false = true := by
    simp [Expr.plain, Expr.plainAll, hhandler]
  have hlexemes : (Expr.variable handler []).lexemes false = [.name handler] := by
    simp [Expr.lexemes, Expr.indexLexemes]
  rw [readMemberValue, hobject, hmember, Member.resolve_name event.mem_members hname]
  refine Except.bind_eq_ok_iff.2 ⟨_, line.readRest_eq hplain (hlexemes ▸ hspells), rfl⟩

/-- An assignment to a variable, with or without indices. -/
theorem readSymbol_assign {name : Token} {indices : List Expr} {value : Expr}
    (hindices : Expr.plainAll indices = true) (hvalue : value.plain false = true)
    (hspells : Spells tokens (Expr.indexLexemes indices ++ .operator .equal ::
      value.lexemes false)) :
    line.readSymbol name tokens = .ok (.assign (.variable name.text indices) value) := by
  cases indices with
  | nil =>
    cases hspells with
    | @cons equal _ rest _ hequal _ hrest =>
      have hkind : equal.kind = .operator .equal := hequal
      rw [readSymbol, hkind]
      exact Except.map_eq_ok_iff.2 ⟨_, line.readRest_eq hvalue hrest, rfl⟩
  | cons index indices =>
    obtain ⟨rest, hrest, hread⟩ := line.exists_readIndices hindices hspells (detached_cons rfl _)
    rw [Expr.indexLexemes, List.cons_append] at hspells
    cases hspells with
    | @cons bracket _ tokens _ hbracket _ _ =>
      cases hrest with
      | @cons equal _ rest _ hequal _ hrest =>
        have hopen : bracket.kind = .leftBracket := hbracket
        have hexpect : line.expect (.operator .equal) (equal :: rest) = .ok rest := if_pos hequal
        rw [readSymbol, hopen]
        refine Except.bind_eq_ok_iff.2 ⟨_, hread, ?_⟩
        refine Except.bind_eq_ok_iff.2 ⟨_, hexpect, ?_⟩
        exact Except.map_eq_ok_iff.2 ⟨_, line.readRest_eq hvalue hrest, rfl⟩

/-- A name that a dot follows is that of an object. -/
theorem readSymbol_dot {name : Token} (hspells : Spells tokens (.dot :: more)) :
    ∃ rest, Spells rest more ∧ line.readSymbol name tokens = line.readMember name rest := by
  cases hspells with
  | @cons dot _ rest _ hdot _ hrest =>
    have hkind : dot.kind = .dot := hdot
    exact ⟨rest, hrest, by rw [readSymbol, hkind]⟩

theorem readSymbol_label {name : Token} (hspells : Spells tokens [.colon]) :
    line.readSymbol name tokens = .ok (.label name.text) := by
  cases hspells with
  | @cons colon _ _ _ hcolon _ hend =>
    have hkind : colon.kind = .colon := hcolon
    cases hend
    rw [readSymbol, hkind]
    rfl

theorem readSymbol_callSub {name : Token} (hspells : Spells tokens [.leftParen, .rightParen]) :
    line.readSymbol name tokens = .ok (.callSub name.text) := by
  cases hspells with
  | @cons opening _ _ _ hopening _ hspells =>
    cases hspells with
    | @cons closing _ _ _ hclosing _ hend =>
      have hkind : opening.kind = .leftParen := hopening
      have hexpect : line.expect .rightParen [closing] = .ok [] := if_pos hclosing
      cases hend
      rw [readSymbol, hkind]
      exact Except.bind_eq_ok_iff.2 ⟨_, hexpect, rfl⟩

theorem readSymbol_eq {clause : Clause} {first : Token} (hword : clause.word? = none)
    (hplain : clause.plain = true) (hfirst : clause.lexemes.head? = some (.name first.text))
    (hspells : Spells tokens clause.lexemes.tail) : line.readSymbol first tokens = .ok clause := by
  cases clause with
  | assign place value =>
    cases place with
    | «variable» name indices =>
      simp only [Clause.plain, Bool.and_eq_true] at hplain
      obtain rfl : name = first.text := by simpa [Clause.lexemes] using hfirst
      exact line.readSymbol_assign hplain.1.2 hplain.2 hspells
    | field f =>
      simp only [Clause.plain, Bool.and_eq_true] at hplain
      have hobject : f.object.name = first.text := by simpa [Clause.lexemes] using hfirst
      obtain ⟨rest, hrest, hsymbol⟩ := line.readSymbol_dot hspells
      obtain ⟨member, value, hmember, hvalue, hread⟩ := line.exists_readMember first hrest
      rw [hsymbol, hread]
      exact line.readMemberValue_field hobject.symm hmember hplain.1 hplain.2 hvalue
  | bind event handler =>
    have hobject : event.object.name = first.text := by simpa [Clause.lexemes] using hfirst
    obtain ⟨rest, hrest, hsymbol⟩ := line.readSymbol_dot hspells
    obtain ⟨member, value, hmember, hvalue, hread⟩ := line.exists_readMember first hrest
    rw [hsymbol, hread]
    exact line.readMemberValue_event hobject.symm hmember hplain hvalue
  | invoke method args =>
    have hobject : method.object.name = first.text := by simpa [Clause.lexemes] using hfirst
    obtain ⟨rest, hrest, hsymbol⟩ := line.readSymbol_dot hspells
    rw [hsymbol]
    exact line.readMember_invoke hobject.symm hplain hrest
  | label name =>
    obtain rfl : name = first.text := by simpa [Clause.lexemes] using hfirst
    exact line.readSymbol_label hspells
  | callSub name =>
    obtain rfl : name = first.text := by simpa [Clause.lexemes] using hfirst
    exact line.readSymbol_callSub hspells
  | _ => cases hword

/-- Every clause that can be written is read back. -/
theorem readClause_lexemes {clause : Clause} (hplain : clause.plain = true) {first : Token}
    {rest : List Token} (hspells : Spells (first :: rest) clause.lexemes) :
    line.readClause first rest = .ok clause := by
  generalize hlexemes : clause.lexemes = lexemes at hspells
  cases hspells with
  | @cons _ lexeme _ lexemes hkind htext hrest =>
    have htail : Spells rest clause.lexemes.tail := by rw [hlexemes]; exact hrest
    cases hword : clause.word? with
    | some word =>
      obtain rfl : lexeme = .keyword word := by
        cases clause <;> cases hword <;> exact (List.cons.inj hlexemes).1.symm
      have hkeyword : first.kind = .keyword word := hkind
      rw [readClause, hkeyword]
      exact line.readKeyword_eq first hword hplain htail
    | none =>
      obtain ⟨name, rfl⟩ : ∃ name, lexeme = .name name := by
        cases clause with
        | assign place => cases place <;> exact ⟨_, (List.cons.inj hlexemes).1.symm⟩
        | bind | invoke | label | callSub => exact ⟨_, (List.cons.inj hlexemes).1.symm⟩
        | _ => cases hword
      have hsymbol : first.kind = .symbol := hkind
      obtain rfl : first.text = name := htext
      rw [readClause, hsymbol]
      exact line.readSymbol_eq hword hplain (by rw [hlexemes]; rfl) htail

end Line

end SmallBasic
