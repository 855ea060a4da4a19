import SmallBasic.Program.Parse
import SmallBasic.Proofs.Dispatch
import SmallBasic.Proofs.Lexemes

/-!
# Writing programs

A program is written one clause per line. A clause is a row of lexemes, and the line is their texts
with a blank wherever two of them would otherwise run together or stand too close. Literals stand in
quotation marks, and an operation that is an operand of another one stands in parentheses.

Reading the characters of a line gives back its lexemes: no text ends early, and none runs into the
next one.

## Main definitions

* `isName`, `isQuotable` — what can be written as a name, and what between quotation marks.
* `Lexeme`, `render` — what a line is made of, and its characters.
* `Expr.lexemes`, `Clause.lexemes` — the lexemes of an expression and of a clause.
* `Expr.plain`, `Clause.plain` — what can be written.
* `Spells` — tokens with the kinds and the texts of lexemes.
* `Clause.print`, `printAll` — the line of a clause, and the lines of a program.

## Main statements

* `lexeme?_text` — a lexeme is recognised where nothing goes on with it.
* `Clause.spells_print` — the tokens of a printed clause are its lexemes.
* `lines_printAll` — the lines of a printed program are its printed clauses.
-/

namespace SmallBasic

/-! ## Lexemes -/

/-- How an operator is written. -/
def Operator.mark : Operator → String
  | .add => "+"
  | .sub => "-"
  | .mul => "*"
  | .div => "/"
  | .equal => "="
  | .notEqual => "<>"
  | .less => "<"
  | .lessEqual => "<="
  | .greater => ">"
  | .greaterEqual => ">="
  | .and => "And"
  | .or => "Or"

/-- The words that cannot be names, in any case. -/
def isReserved (word : String) : Bool :=
  (keyword? word).isSome || sameName word "and" || sameName word "or"

/-- An ASCII identifier that is not reserved: letters, digits and underscores, not starting with a
digit. -/
def isName (name : String) : Bool :=
  name.toList.head?.any isNameStart && name.toList.all (fun c => c.isAlphanum || c == '_') &&
    !isReserved name

/-- A text that can stand between quotation marks on one line. -/
def isQuotable (text : String) : Bool := text.toList.all fun c => c != '"' && c != '\n'

/-- What a line is made of. -/
inductive Lexeme where
  | keyword (word : Keyword)
  | operator (op : Operator)
  | name (text : String)
  | literal (text : String)
  | leftParen | rightParen
  | leftBracket | rightBracket
  | dot | comma | colon
deriving DecidableEq, Repr

namespace Lexeme

def kind : Lexeme → Token.Kind
  | .keyword word => .keyword word
  | .operator op => .operator op
  | .name _ => .symbol
  | .literal _ => .string
  | .leftParen => .leftParen
  | .rightParen => .rightParen
  | .leftBracket => .leftBracket
  | .rightBracket => .rightBracket
  | .dot => .dot
  | .comma => .comma
  | .colon => .colon

def text : Lexeme → String
  | .keyword word => word.text
  | .operator op => op.mark
  | .name text => text
  | .literal text => "\"" ++ text ++ "\""
  | .leftParen => "("
  | .rightParen => ")"
  | .leftBracket => "["
  | .rightBracket => "]"
  | .dot => "."
  | .comma => ","
  | .colon => ":"

/-- Whether the lexeme can be written as it is. -/
def plain : Lexeme → Bool
  | .name text => isName text
  | .literal text => isQuotable text
  | _ => true

/-- The lexemes that stand right before the next one. -/
def opens : Lexeme → Bool
  | .leftParen | .leftBracket | .dot => true
  | _ => false

/-- The lexemes that stand right after the one before. -/
def trails : Lexeme → Bool
  | .rightParen | .leftBracket | .rightBracket | .dot | .comma | .colon => true
  | _ => false

/-- Whether no blank stands between two lexemes. The parenthesis of a call follows its name. -/
def joins (lexeme next : Lexeme) : Bool :=
  lexeme.opens || next.trails ||
    match lexeme, next with
    | .name _, .leftParen => true
    | _, _ => false

end Lexeme

/-- The characters of a row of lexemes. -/
def render : List Lexeme → List Char
  | [] => []
  | [lexeme] => lexeme.text.toList
  | lexeme :: next :: rest =>
    lexeme.text.toList ++ ((if lexeme.joins next then [] else [' ']) ++ render (next :: rest))

/-! ## What can be written -/

mutual

/-- The lexemes of an expression. An operation that is an operand stands in parentheses. -/
def Expr.lexemes (operand : Bool) : Expr → List Lexeme
  | .literal text => [.literal text]
  | .variable name indices => .name name :: Expr.indexLexemes indices
  | .field f => [.name f.object.name, .dot, .name f.name]
  | .binary op left right =>
    let inner := left.lexemes true ++ .operator op :: right.lexemes true
    if operand then .leftParen :: (inner ++ [.rightParen]) else inner
  | .call method args =>
    .name method.object.name :: .dot :: .name method.name :: .leftParen ::
      (Expr.argLexemes args ++ [.rightParen])

/-- The lexemes of indices, each in brackets. -/
def Expr.indexLexemes : List Expr → List Lexeme
  | [] => []
  | index :: indices =>
    .leftBracket :: (index.lexemes false ++ .rightBracket :: Expr.indexLexemes indices)

/-- The lexemes of arguments, with commas between them. -/
def Expr.argLexemes : List Expr → List Lexeme
  | [] => []
  | [arg] => arg.lexemes false
  | arg :: next :: args => arg.lexemes false ++ .comma :: Expr.argLexemes (next :: args)

end

mutual

/-- Whether the expression can be written: its names are names, its literals can be quoted, its
calls have as many arguments as their methods take, and comparators occur only in a condition,
outside indices and arguments. -/
def Expr.plain (condition : Bool) : Expr → Bool
  | .literal text => isQuotable text
  | .variable name indices => isName name && Expr.plainAll indices
  | .field _ => true
  | .binary op left right =>
    (condition || !op.isComparator) && left.plain condition && right.plain condition
  | .call method args => args.length == method.arity && Expr.plainAll args

/-- Whether indices or arguments can be written. -/
def Expr.plainAll : List Expr → Bool
  | [] => true
  | e :: es => e.plain false && Expr.plainAll es

end

namespace Clause

/-- The lexemes of a clause. -/
def lexemes : Clause → List Lexeme
  | .assign (.variable name indices) value =>
    .name name :: (Expr.indexLexemes indices ++ .operator .equal :: value.lexemes false)
  | .assign (.field f) value =>
    .name f.object.name :: .dot :: .name f.name :: .operator .equal :: value.lexemes false
  | .bind event handler =>
    [.name event.object.name, .dot, .name event.name, .operator .equal, .name handler]
  | .invoke method args =>
    .name method.object.name :: .dot :: .name method.name :: .leftParen ::
      (Expr.argLexemes args ++ [.rightParen])
  | .label name => [.name name, .colon]
  | .goto name => [.keyword .goto, .name name]
  | .callSub name => [.name name, .leftParen, .rightParen]
  | .if condition => .keyword .if :: (condition.lexemes false ++ [.keyword .then])
  | .elseIf condition => .keyword .elseIf :: (condition.lexemes false ++ [.keyword .then])
  | .else => [.keyword .else]
  | .endIf => [.keyword .endIf]
  | .while condition => .keyword .while :: condition.lexemes false
  | .endWhile => [.keyword .endWhile]
  | .for counter lower upper =>
    .keyword .for :: .name counter :: .operator .equal ::
      (lower.lexemes false ++ .keyword .to :: upper.lexemes false)
  | .endFor => [.keyword .endFor]
  | .sub name => [.keyword .sub, .name name]
  | .endSub => [.keyword .endSub]

/-- Whether the clause can be written. A field is assigned to only if it is writable. -/
def plain : Clause → Bool
  | .assign (.variable name indices) value =>
    isName name && Expr.plainAll indices && value.plain false
  | .assign (.field f) value => f.isWritable && value.plain false
  | .bind _ name | .label name | .goto name | .callSub name | .sub name => isName name
  | .invoke method args => args.length == method.arity && Expr.plainAll args
  | .if condition | .elseIf condition | .while condition => condition.plain true
  | .for counter lower upper => isName counter && lower.plain false && upper.plain false
  | .else | .endIf | .endWhile | .endFor | .endSub => true

/-- The line of a clause. -/
def print (clause : Clause) : String := String.ofList (render clause.lexemes)

end Clause

/-- The lines of clauses, each with the line feed that ends it. -/
def printAll (clauses : List Clause) : String :=
  String.ofList (clauses.flatMap fun clause => render clause.lexemes ++ ['\n'])

/-! ## Recognising a lexeme -/

theorem toNat_of_isAlpha {c : Char} (hc : c.isAlpha = true) : 65 ≤ c.toNat ∧ c.toNat ≤ 122 := by
  rcases Bool.or_eq_true_iff.1 hc with hupper | hlower
  · have hrange : 65 ≤ c.toNat ∧ c.toNat ≤ 90 := of_decide_eq_true hupper
    omega
  · obtain ⟨hlow, hhigh⟩ := Bool.and_eq_true_iff.1 hlower
    have hlow : 97 ≤ c.toNat := of_decide_eq_true hlow
    have hhigh : c.toNat ≤ 122 := of_decide_eq_true hhigh
    omega

/-- Letters, digits and the underscore lie in ASCII. -/
theorem toNat_lt_of_isAlphanum {c : Char} (hc : (c.isAlphanum || c == '_') = true) :
    c.toNat < 128 := by
  rcases Bool.or_eq_true_iff.1 hc with hc | hc
  · rcases Bool.or_eq_true_iff.1 hc with halpha | hdigit
    · have hhigh := (toNat_of_isAlpha halpha).2
      omega
    · have hhigh : c.toNat ≤ 57 := of_decide_eq_true (Bool.and_eq_true_iff.1 hdigit).2
      omega
  · rw [beq_iff_eq.1 hc]
    decide

theorem isWord_of_isAlphanum {c : Char} (hc : (c.isAlphanum || c == '_') = true) :
    isWord c = true := by
  rw [isWord, if_pos (toNat_lt_of_isAlphanum hc), hc]

theorem toNat_of_isNameStart {c : Char} (hc : isNameStart c = true) :
    65 ≤ c.toNat ∧ c.toNat ≤ 122 := by
  rcases Bool.or_eq_true_iff.1 hc with hc | hc
  · exact toNat_of_isAlpha hc
  · rw [beq_iff_eq.1 hc]
    decide

theorem isBlank_of_isNameStart {c : Char} (hc : isNameStart c = true) : isBlank c = false := by
  obtain ⟨hlow, hhigh⟩ := toNat_of_isNameStart hc
  simp only [isBlank, Bool.or_eq_false_iff, Bool.and_eq_false_iff, decide_eq_false_iff_not,
    beq_eq_false_iff_ne]
  omega

theorem isDigit_of_isNameStart {c : Char} (hc : isNameStart c = true) : isDigit c = false := by
  obtain ⟨hlow, hhigh⟩ := toNat_of_isNameStart hc
  rw [isDigit, if_pos (by omega), Char.isDigit, Bool.and_eq_false_iff]
  right
  simp only [decide_eq_false_iff_not, UInt32.le_iff_toNat_le]
  change ¬c.toNat ≤ 57
  omega

/-- The characters that can stand right after any lexeme. -/
def stopChars : List Char := [' ', '(', ')', '[', ']', '.', ',', ':']

theorem isWord_of_stopChars {cs : List Char} (hcs : ∀ c ∈ cs.head?, c ∈ stopChars) :
    ∀ c ∈ cs.head?, isWord c = false := by
  intro c hc
  have hword : stopChars.any isWord = false := by decide
  exact Bool.eq_false_iff.2 (List.any_eq_false.1 hword c (hcs c hc))

/-- A comparator of one character does not become one of two. -/
theorem markKind?_of_stopChars {cs : List Char} (hcs : ∀ c ∈ cs.head?, c ∈ stopChars) :
    markKind? ('<' :: cs) = some (.operator .less, 1) ∧
      markKind? ('>' :: cs) = some (.operator .greater, 1) := by
  cases cs with
  | nil => exact ⟨rfl, rfl⟩
  | cons c cs =>
    have hc : c ∈ stopChars := hcs c rfl
    simp only [stopChars, List.mem_cons, List.not_mem_nil, or_false] at hc
    rcases hc with rfl | rfl | rfl | rfl | rfl | rfl | rfl | rfl <;> exact ⟨rfl, rfl⟩

theorem lexeme?_operator (op : Operator) {rest : List Char}
    (hstops : ∀ c ∈ rest.head?, c ∈ stopChars) :
    lexeme? (op.mark.toList ++ rest) = some (.operator op, op.mark.toList.length) := by
  obtain ⟨hless, hgreater⟩ := markKind?_of_stopChars hstops
  cases op with
  | and | or =>
    refine lexeme?_word ?_ (by decide +kernel) (isWord_of_stopChars hstops)
    exact List.all_eq_true.1 (by decide)
  | less => exact (lexeme?_mark (by decide) (by decide) (by decide) rest).trans hless
  | greater => exact (lexeme?_mark (by decide) (by decide) (by decide) rest).trans hgreater
  | _ => exact lexeme?_mark (by decide) (by decide) (by decide) _

/-- A text in quotation marks is recognised whatever follows. -/
theorem lexeme?_literal {text : List Char} (htext : ∀ c ∈ text, c ≠ '"') (rest : List Char) :
    lexeme? ('"' :: (text ++ '"' :: rest)) = some (.string, text.length + 2) := by
  have hlength : (text ++ '"' :: rest).takeWhile (· != '"') = text :=
    takeWhile_append (by simpa using htext) (by simp)
  rw [lexeme?_mark (by decide) (by decide) (by decide), markKind?, if_pos rfl, stringLength,
    hlength]
  simp only [List.length_append, List.length_cons]
  congr 2
  omega

/-- What a name is made of. -/
theorem exists_of_isName {name : String} (hname : isName name = true) :
    ∃ c cs, name.toList = c :: cs ∧ isNameStart c = true ∧
      ∀ d ∈ c :: cs, (d.isAlphanum || d == '_') = true := by
  simp only [isName, Bool.and_eq_true] at hname
  obtain ⟨⟨hstart, hall⟩, -⟩ := hname
  cases hchars : name.toList with
  | nil => simp [hchars] at hstart
  | cons c cs =>
    rw [hchars] at hstart hall
    exact ⟨c, cs, rfl, hstart, List.all_eq_true.1 hall⟩

theorem wordKind?_name {name : String} (hname : isName name = true) :
    wordKind? name.toList = some .symbol := by
  simp only [isName, isReserved, Bool.and_eq_true, Bool.not_eq_true', Bool.or_eq_false_iff,
    Option.isSome_eq_false_iff, Option.isNone_iff_eq_none] at hname
  obtain ⟨⟨hstart, -⟩, ⟨hkeyword, hand⟩, hor⟩ := hname
  simp [wordKind?, hkeyword, hand, hor, hstart]

namespace Lexeme

/-- What follows does not go on with the lexeme. -/
def Stops : Lexeme → List Char → Prop
  | .leftParen, _ | .leftBracket, _ => True
  | .dot, cs => ∀ c ∈ cs.head?, isDigit c = false
  | _, cs => ∀ c ∈ cs.head?, c ∈ stopChars

/-- A lexeme is recognised where nothing goes on with it. -/
theorem lexeme?_text {lexeme : Lexeme} (hplain : lexeme.plain = true) {rest : List Char}
    (hstops : lexeme.Stops rest) :
    lexeme? (lexeme.text.toList ++ rest) = some (lexeme.kind, lexeme.text.toList.length) := by
  cases lexeme with
  | keyword word =>
    refine lexeme?_word ?_ ?_ (isWord_of_stopChars hstops)
    · cases word <;> exact List.all_eq_true.1 (by decide)
    · cases word <;> decide +kernel
  | operator op => exact lexeme?_operator op hstops
  | name text =>
    obtain ⟨c, cs, hchars, -, hall⟩ := exists_of_isName hplain
    rw [← hchars] at hall
    have hword : ∀ c ∈ text.toList, isWord c = true :=
      fun c hc => isWord_of_isAlphanum (hall c hc)
    exact lexeme?_word hword (wordKind?_name hplain) (isWord_of_stopChars hstops)
  | literal text =>
    have htext : ∀ c ∈ text.toList, c ≠ '"' := by
      intro c hc
      have hboth := List.all_eq_true.1 hplain c hc
      simp only [Bool.and_eq_true, bne_iff_ne] at hboth
      exact hboth.1
    simpa [Lexeme.text, kind] using lexeme?_literal htext rest
  | dot => exact lexeme?_dot hstops
  | _ => exact lexeme?_mark (by decide) (by decide) (by decide) rest

/-- The text of a lexeme starts with a character that is neither blank nor a digit. -/
theorem exists_text_cons {lexeme : Lexeme} (hplain : lexeme.plain = true) :
    ∃ c cs, lexeme.text.toList = c :: cs ∧ isBlank c = false ∧ isDigit c = false := by
  cases lexeme with
  | keyword word => cases word <;> exact ⟨_, _, rfl, by decide, by decide⟩
  | operator op => cases op <;> exact ⟨_, _, rfl, by decide, by decide⟩
  | name text =>
    obtain ⟨c, cs, hchars, hstart, -⟩ := exists_of_isName hplain
    exact ⟨c, cs, hchars, isBlank_of_isNameStart hstart, isDigit_of_isNameStart hstart⟩
  | literal text => exact ⟨'"', text.toList ++ ['"'], by simp [Lexeme.text], by decide, by decide⟩
  | _ => exact ⟨_, _, rfl, by decide, by decide⟩

/-- A lexeme stops at a blank. -/
theorem stops_blank (lexeme : Lexeme) (cs : List Char) : lexeme.Stops (' ' :: cs) := by
  have hstop : ∀ c ∈ (' ' :: cs).head?, c ∈ stopChars := by
    rintro c ⟨⟩
    decide
  cases lexeme with
  | leftParen | leftBracket => trivial
  | dot =>
    rintro c ⟨⟩
    decide
  | _ => exact hstop

theorem stops_nil (lexeme : Lexeme) : lexeme.Stops [] := by
  cases lexeme <;> simp [Stops]

/-- A lexeme stops at the next one if no blank has to stand between them. -/
theorem stops_of_joins {lexeme next : Lexeme} (hjoins : lexeme.joins next = true)
    (hplain : next.plain = true) (cs : List Char) : lexeme.Stops (next.text.toList ++ cs) := by
  obtain ⟨first, rest, htext, -, hdigit⟩ := exists_text_cons hplain
  -- What the next lexeme starts with, where this one does not itself ask to be followed at once.
  have hstop : lexeme.opens = false → ∀ c ∈ (next.text.toList ++ cs).head?, c ∈ stopChars := by
    intro hopens c hc
    cases next with
    | keyword | operator | name | literal => cases lexeme <;> simp [joins, trails, hopens] at hjoins
    | _ =>
      obtain rfl := Option.some.inj hc
      decide
  cases lexeme with
  | leftParen | leftBracket => trivial
  | dot =>
    intro c hc
    rw [htext] at hc
    obtain rfl := Option.some.inj hc
    exact hdigit
  | _ => exact hstop rfl

end Lexeme

/-! ## Tokens of a row of lexemes -/

/-- The tokens have the kinds and the texts of the lexemes. -/
inductive Spells : List Token → List Lexeme → Prop
  | nil : Spells [] []
  | cons {token : Token} {lexeme : Lexeme} {tokens : List Token} {lexemes : List Lexeme}
      (hkind : token.kind = lexeme.kind) (htext : token.text = lexeme.text)
      (hrest : Spells tokens lexemes) : Spells (token :: tokens) (lexeme :: lexemes)

theorem Spells.length_eq {tokens : List Token} {lexemes : List Lexeme}
    (hspells : Spells tokens lexemes) : tokens.length = lexemes.length := by
  induction hspells with
  | nil => rfl
  | cons _ _ _ ih => rw [List.length_cons, List.length_cons, ih]

theorem scanFrom_passed (line column : Nat) (passed cs : List Char) :
    scanFrom true line passed.length column (passed ++ cs) =
      scanFrom true line 0 (column + passed.length) cs := by
  induction passed generalizing column with
  | nil => rfl
  | cons c passed ih =>
    rw [List.length_cons, List.cons_append, scanFrom, ih, Nat.add_right_comm, Nat.add_assoc]

/-- The first token of a text that starts with no blank is the lexeme that stands there. -/
theorem scanFrom_text {c : Char} {cs rest : List Char} {kind : Token.Kind}
    (hblank : isBlank c = false)
    (hlexeme : lexeme? (c :: cs ++ rest) = some (kind, (c :: cs).length)) (line column : Nat) :
    scanFrom true line 0 column (c :: cs ++ rest) =
      ⟨kind, String.ofList (c :: cs), line, column⟩ ::
        scanFrom true line 0 (column + (c :: cs).length) rest := by
  have htake : (c :: (cs ++ rest)).take (c :: cs).length = c :: cs := by simp
  rw [List.cons_append] at hlexeme ⊢
  rw [scanFrom_token (by simp [hblank]) hlexeme, htake, List.length_cons, Nat.add_sub_cancel,
    scanFrom_passed, Nat.add_right_comm, Nat.add_assoc]

/-- A lexeme that can be written is read first, if nothing goes on with it. -/
theorem scanFrom_lexeme {lexeme : Lexeme} (hplain : lexeme.plain = true) {rest : List Char}
    (hstops : lexeme.Stops rest) (line column : Nat) :
    scanFrom true line 0 column (lexeme.text.toList ++ rest) =
      ⟨lexeme.kind, lexeme.text, line, column⟩ ::
        scanFrom true line 0 (column + lexeme.text.toList.length) rest := by
  have hlexeme := Lexeme.lexeme?_text hplain hstops
  obtain ⟨c, cs, htext, hblank, -⟩ := Lexeme.exists_text_cons hplain
  have hstring : String.ofList (c :: cs) = lexeme.text := by rw [← htext, String.ofList_toList]
  rw [htext] at hlexeme ⊢
  rw [scanFrom_text hblank hlexeme, hstring]

/-- Reading the characters of a row of lexemes gives them back. -/
theorem spells_scanFrom {lexemes : List Lexeme} (hplain : ∀ lexeme ∈ lexemes, lexeme.plain = true)
    (line column : Nat) : Spells (scanFrom true line 0 column (render lexemes)) lexemes := by
  induction lexemes generalizing column with
  | nil => exact .nil
  | cons lexeme lexemes ih =>
    obtain ⟨hfirst, hrest⟩ := List.forall_mem_cons.1 hplain
    cases lexemes with
    | nil =>
      have hscan := scanFrom_lexeme hfirst lexeme.stops_nil line column
      rw [List.append_nil] at hscan
      rw [render, hscan]
      exact .cons rfl rfl .nil
    | cons next lexemes =>
      rw [render]
      cases hjoins : lexeme.joins next with
      | true =>
        have hnext : next.plain = true := hrest next List.mem_cons_self
        have hstops : lexeme.Stops (render (next :: lexemes)) := by
          cases lexemes with
          | nil => simpa [render] using Lexeme.stops_of_joins hjoins hnext []
          | cons => exact Lexeme.stops_of_joins hjoins hnext _
        rw [if_pos rfl, List.nil_append, scanFrom_lexeme hfirst hstops]
        exact .cons rfl rfl (ih hrest _)
      | false =>
        rw [if_neg Bool.false_ne_true, List.singleton_append,
          scanFrom_lexeme hfirst (lexeme.stops_blank _), scanFrom_blank rfl]
        exact .cons rfl rfl (ih hrest _)

theorem Spells.kind_ne_comment {tokens : List Token} {lexemes : List Lexeme}
    (hspells : Spells tokens lexemes) : ∀ token ∈ tokens, token.kind ≠ .comment := by
  induction hspells with
  | nil => simp
  | @cons token lexeme tokens lexemes hkind _ _ ih =>
    refine List.forall_mem_cons.2 ⟨?_, ih⟩
    rw [hkind]
    cases lexeme <;> exact nofun

theorem spells_tokenize {lexemes : List Lexeme} (hplain : ∀ lexeme ∈ lexemes, lexeme.plain = true)
    (line : Nat) : Spells (tokenize line (String.ofList (render lexemes))) lexemes := by
  have hspells := spells_scanFrom hplain line 0
  rw [tokenize_eq_filter, scan, String.toList_ofList, List.filter_eq_self.2]
  · exact hspells
  · exact fun token htoken => bne_iff_ne.2 (hspells.kind_ne_comment token htoken)

/-! ## Clauses -/

/-- What the catalogue calls its objects and members are names. -/
theorem Object.isName_name_and_members : ∀ object ∈ Object.all,
    isName object.name = true ∧ ∀ member ∈ object.members, isName member.name = true := by
  decide +kernel

theorem Object.isName_name (object : Object) : isName object.name = true :=
  (Object.isName_name_and_members object object.mem_all).1

theorem Member.isName_name {object : Object} {member : Member} (hmember : member ∈ object.members) :
    isName member.name = true :=
  (Object.isName_name_and_members object object.mem_all).2 member hmember

theorem Method.isName_name (method : Method) : isName method.name = true := by
  have hname := Member.isName_name method.mem_members
  rwa [Member.name] at hname

theorem Field.isName_name (field : Field) : isName field.name = true := by
  have hname := Member.isName_name field.mem_members
  rwa [Member.name] at hname

theorem Event.isName_name (event : Event) : isName event.name = true := by
  have hname := Member.isName_name event.mem_members
  rwa [Member.name] at hname

mutual

/-- The lexemes of what can be written can be written. -/
theorem Expr.plain_lexemes : (e : Expr) → {condition : Bool} → e.plain condition = true →
    (operand : Bool) → ∀ lexeme ∈ e.lexemes operand, lexeme.plain = true
  | .literal text, _, hplain, _ => by
    rw [Expr.plain] at hplain
    simp only [Expr.lexemes, List.forall_mem_cons]
    exact ⟨hplain, nofun⟩
  | .variable name indices, _, hplain, _ => by
    simp only [Expr.plain, Bool.and_eq_true] at hplain
    have hindices := Expr.plain_indexLexemes indices hplain.2
    simp only [Expr.lexemes, List.forall_mem_cons]
    exact ⟨hplain.1, hindices⟩
  | .field f, _, _, _ => by
    simp only [Expr.lexemes, List.forall_mem_cons]
    exact ⟨f.object.isName_name, rfl, f.isName_name, nofun⟩
  | .binary op left right, condition, hplain, operand => by
    simp only [Expr.plain, Bool.and_eq_true] at hplain
    have hleft := left.plain_lexemes hplain.1.2 true
    have hright := right.plain_lexemes hplain.2 true
    cases operand with
    | false =>
      simp only [Expr.lexemes, Bool.false_eq_true, if_false, List.forall_mem_append,
        List.forall_mem_cons]
      exact ⟨hleft, rfl, hright⟩
    | true =>
      simp only [Expr.lexemes, if_true, List.forall_mem_cons, List.forall_mem_append]
      exact ⟨rfl, ⟨hleft, rfl, hright⟩, rfl, nofun⟩
  | .call method args, _, hplain, _ => by
    simp only [Expr.plain, Bool.and_eq_true] at hplain
    have hargs := Expr.plain_argLexemes args hplain.2
    simp only [Expr.lexemes, List.forall_mem_cons, List.forall_mem_append]
    exact ⟨method.object.isName_name, rfl, method.isName_name, rfl, hargs, rfl, nofun⟩

theorem Expr.plain_indexLexemes : (es : List Expr) → Expr.plainAll es = true →
    ∀ lexeme ∈ Expr.indexLexemes es, lexeme.plain = true
  | [], _ => by simp [Expr.indexLexemes]
  | e :: es, hplain => by
    simp only [Expr.plainAll, Bool.and_eq_true] at hplain
    have hfirst := e.plain_lexemes hplain.1 false
    have hrest := Expr.plain_indexLexemes es hplain.2
    simp only [Expr.indexLexemes, List.forall_mem_cons, List.forall_mem_append]
    exact ⟨rfl, hfirst, rfl, hrest⟩

theorem Expr.plain_argLexemes : (es : List Expr) → Expr.plainAll es = true →
    ∀ lexeme ∈ Expr.argLexemes es, lexeme.plain = true
  | [], _ => by simp [Expr.argLexemes]
  | [e], hplain => by
    simp only [Expr.plainAll, Bool.and_eq_true] at hplain
    exact e.plain_lexemes hplain.1 false
  | e :: next :: es, hplain => by
    rw [Expr.plainAll, Bool.and_eq_true] at hplain
    have hfirst := e.plain_lexemes hplain.1 false
    have hrest := Expr.plain_argLexemes (next :: es) hplain.2
    simp only [Expr.argLexemes, List.forall_mem_cons, List.forall_mem_append]
    exact ⟨hfirst, rfl, hrest⟩

end

namespace Clause

theorem plain_lexemes {clause : Clause} (hplain : clause.plain = true) :
    ∀ lexeme ∈ clause.lexemes, lexeme.plain = true := by
  cases clause with
  | assign place value =>
    cases place with
    | «variable» name indices =>
      simp only [plain, Bool.and_eq_true] at hplain
      obtain ⟨⟨hname, hindices⟩, hvalue⟩ := hplain
      simp only [lexemes, List.forall_mem_cons, List.forall_mem_append]
      exact ⟨hname, Expr.plain_indexLexemes indices hindices, rfl, value.plain_lexemes hvalue false⟩
    | field f =>
      simp only [plain, Bool.and_eq_true] at hplain
      simp only [lexemes, List.forall_mem_cons]
      exact ⟨f.object.isName_name, rfl, f.isName_name, rfl, value.plain_lexemes hplain.2 false⟩
  | bind event name =>
    simp only [lexemes, List.forall_mem_cons]
    exact ⟨event.object.isName_name, rfl, event.isName_name, rfl, hplain, nofun⟩
  | invoke method args =>
    simp only [plain, Bool.and_eq_true] at hplain
    have hargs := Expr.plain_argLexemes args hplain.2
    simp only [lexemes, List.forall_mem_cons, List.forall_mem_append]
    exact ⟨method.object.isName_name, rfl, method.isName_name, rfl, hargs, rfl, nofun⟩
  | label name | callSub name =>
    simp only [lexemes, List.forall_mem_cons]
    exact ⟨hplain, by simp [Lexeme.plain]⟩
  | goto name | sub name =>
    simp only [lexemes, List.forall_mem_cons]
    exact ⟨rfl, hplain, nofun⟩
  | «if» condition | elseIf condition =>
    simp only [lexemes, List.forall_mem_cons, List.forall_mem_append]
    exact ⟨rfl, condition.plain_lexemes hplain false, rfl, nofun⟩
  | «while» condition =>
    simp only [lexemes, List.forall_mem_cons]
    exact ⟨rfl, condition.plain_lexemes hplain false⟩
  | «for» counter lower upper =>
    simp only [plain, Bool.and_eq_true] at hplain
    obtain ⟨⟨hcounter, hlower⟩, hupper⟩ := hplain
    simp only [lexemes, List.forall_mem_cons, List.forall_mem_append]
    exact ⟨rfl, hcounter, rfl, lower.plain_lexemes hlower false, rfl,
      upper.plain_lexemes hupper false⟩
  | «else» | endIf | endWhile | endFor | endSub => simp [lexemes, Lexeme.plain]

/-- The tokens of a printed clause are its lexemes. -/
theorem spells_print {clause : Clause} (hplain : clause.plain = true) (line : Nat) :
    Spells (tokenize line clause.print) clause.lexemes :=
  spells_tokenize (plain_lexemes hplain) line

end Clause

/-! ## Lines -/

theorem linesFrom_line {cs : List Char} (hfeed : ∀ c ∈ cs, c ≠ '\n') (line rest : List Char) :
    linesFrom '\n' '\r' line (cs ++ '\n' :: rest) =
      (dropReturn '\r' (cs.reverse ++ line)).reverse :: linesFrom '\n' '\r' [] rest := by
  induction cs generalizing line with
  | nil => simp [linesFrom]
  | cons c cs ih =>
    obtain ⟨hc, hcs⟩ := List.forall_mem_cons.1 hfeed
    rw [List.cons_append, linesFrom, if_neg hc, ih hcs]
    simp

namespace Lexeme

theorem ne_feed_of_mem_text {lexeme : Lexeme} (hplain : lexeme.plain = true) :
    ∀ c ∈ lexeme.text.toList, c ≠ '\n' := by
  cases lexeme with
  | keyword word => cases word <;> exact List.forall_mem_ne'.2 (by decide)
  | operator op => cases op <;> exact List.forall_mem_ne'.2 (by decide)
  | name text =>
    obtain ⟨first, rest, hchars, -, hall⟩ := exists_of_isName hplain
    rw [← hchars] at hall
    rintro c hc rfl
    cases hall '\n' hc
  | literal text =>
    have htext := List.all_eq_true.1 hplain
    simp only [Bool.and_eq_true, bne_iff_ne] at htext
    simp only [Lexeme.text, String.toList_append, List.forall_mem_append]
    have hquote := List.forall_mem_ne'.2 (by decide : '\n' ∉ "\"".toList)
    exact ⟨⟨hquote, fun c hc => (htext c hc).2⟩, hquote⟩
  | _ => exact List.forall_mem_ne'.2 (by decide)

/-- No text ends with a carriage return, which the end of a line would take with it. -/
theorem getLast?_text {lexeme : Lexeme} (hplain : lexeme.plain = true) :
    ∃ c, lexeme.text.toList.getLast? = some c ∧ c ≠ '\r' := by
  cases lexeme with
  | keyword word => cases word <;> exact ⟨_, rfl, by decide⟩
  | operator op => cases op <;> exact ⟨_, rfl, by decide⟩
  | name text =>
    obtain ⟨first, rest, hchars, -, hall⟩ := exists_of_isName hplain
    refine ⟨(first :: rest).getLast (by simp), ?_, ?_⟩
    · rw [Lexeme.text, hchars, List.getLast?_eq_some_getLast]
    · intro hlast
      have hreturn := hall _ (List.getLast_mem (by simp))
      rw [hlast] at hreturn
      cases hreturn
  | literal text =>
    have htext : (Lexeme.literal text).text.toList = ('"' :: text.toList) ++ ['"'] := by
      simp [Lexeme.text]
    exact ⟨'"', by rw [htext, List.getLast?_concat], by decide⟩
  | _ => exact ⟨_, rfl, by decide⟩

end Lexeme

theorem ne_feed_of_mem_render {lexemes : List Lexeme}
    (hplain : ∀ lexeme ∈ lexemes, lexeme.plain = true) : ∀ c ∈ render lexemes, c ≠ '\n' := by
  induction lexemes with
  | nil => simp [render]
  | cons lexeme lexemes ih =>
    obtain ⟨hfirst, hrest⟩ := List.forall_mem_cons.1 hplain
    cases lexemes with
    | nil => exact Lexeme.ne_feed_of_mem_text hfirst
    | cons next lexemes =>
      rw [render, List.forall_mem_append, List.forall_mem_append]
      refine ⟨Lexeme.ne_feed_of_mem_text hfirst, ?_, ih hrest⟩
      cases lexeme.joins next <;> simp

theorem getLast?_render {lexeme : Lexeme} {lexemes : List Lexeme}
    (hplain : ∀ other ∈ lexeme :: lexemes, other.plain = true) :
    ∃ c, (render (lexeme :: lexemes)).getLast? = some c ∧ c ≠ '\r' := by
  induction lexemes generalizing lexeme with
  | nil => exact Lexeme.getLast?_text (hplain lexeme List.mem_cons_self)
  | cons next lexemes ih =>
    obtain ⟨c, hlast, hc⟩ := ih (List.forall_mem_cons.1 hplain).2
    exact ⟨c, by simp [render, List.getLast?_append, hlast], hc⟩

theorem dropReturn_of_head? {line : List Char} (hline : ∀ c ∈ line.head?, c ≠ '\r') :
    dropReturn '\r' line = line := by
  cases line with
  | nil => rfl
  | cons c line => exact if_neg (hline c rfl)

/-- The lines of a printed program are its printed clauses. -/
theorem lines_printAll {clauses : List Clause} (hplain : ∀ clause ∈ clauses, clause.plain = true) :
    lines (printAll clauses) = clauses.map Clause.print := by
  rw [lines, printAll, String.toList_ofList]
  induction clauses with
  | nil => rfl
  | cons clause clauses ih =>
    obtain ⟨hfirst, hrest⟩ := List.forall_mem_cons.1 hplain
    have hlexemes := Clause.plain_lexemes hfirst
    have hlast : ∀ c ∈ (render clause.lexemes).reverse.head?, c ≠ '\r' := by
      rw [List.head?_reverse]
      cases hcons : clause.lexemes with
      | nil => exact nofun
      | cons lexeme lexemes =>
        obtain ⟨c, hc, hreturn⟩ := getLast?_render (hcons ▸ hlexemes)
        rw [hc]
        rintro d ⟨⟩
        exact hreturn
    rw [List.flatMap_cons, List.append_assoc, List.singleton_append,
      linesFrom_line (ne_feed_of_mem_render hlexemes), List.append_nil, dropReturn_of_head? hlast,
      List.reverse_reverse, List.map_cons, ih hrest]
    rfl

end SmallBasic
