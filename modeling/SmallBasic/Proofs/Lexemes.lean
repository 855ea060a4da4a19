import Mathlib.Data.List.Find
import Mathlib.Data.List.TakeWhile
import SmallBasic.Token.Scan

/-!
# Lexemes

A lexeme at the start of a text is a word, else a number, else a mark. Most marks are fixed texts.
The other two, a quotation mark and an apostrophe, open a string and a comment.

## Main definitions

* `Token.Kind.isWordKind` — the kinds of reserved words and names.

## Main statements

* `lexeme?_cases`, `markKind?_cases` — what a lexeme can be, and what a mark can be.
* `lexeme?_word`, `lexeme?_mark`, `lexeme?_dot` — where a word, a mark and a point are recognised.
* `length_pos_of_lexeme?`, `length_le_of_lexeme?` — how long a lexeme is.
* `scan_induction` — how a line is read.
* `tokenize_eq_filter` — the tokens of a line are all tokens but the comments.
-/

namespace SmallBasic

/-! ## Words -/

/-- The kinds of reserved words and names. -/
def Token.Kind.isWordKind : Token.Kind → Bool
  | .keyword _ | .operator .and | .operator .or | .symbol => true
  | _ => false

theorem isWordKind_of_wordKind? {word : List Char} {kind : Token.Kind}
    (hkind : wordKind? word = some kind) : kind.isWordKind = true := by
  unfold wordKind? at hkind
  grind [Token.Kind.isWordKind]

theorem wordKind?_nil : wordKind? [] = none := by
  decide +kernel

/-! ## Marks -/

section Marks

variable {cs : List Char} {kind : Token.Kind} {length : Nat}

/-- Which fixed mark starts a text depends on nothing but which of them start it. -/
theorem fixedMark?_congr {other : List Char}
    (hsame : ∀ entry ∈ fixedMarks, entry.1.isPrefixOf cs = entry.1.isPrefixOf other) :
    fixedMark? cs = fixedMark? other := by
  rw [fixedMark?, fixedMark?, List.find?_congr hsame]

/-- A mark opens a string, or it opens a comment, or it is a fixed text. -/
theorem markKind?_cases (hmark : markKind? cs = some (kind, length)) :
    (∃ rest, cs = '"' :: rest ∧ kind = .string ∧ length = 1 + stringLength rest) ∨
      (∃ rest, cs = Char.ofNat 0x27 :: rest ∧ kind = .comment ∧
        length = 1 + (rest.takeWhile (· != '\n')).length) ∨
      ∃ mark rest, cs = mark ++ rest ∧ (mark, kind) ∈ fixedMarks ∧ length = mark.length := by
  cases cs with
  | nil => cases hmark
  | cons c rest =>
    rw [markKind?] at hmark
    split_ifs at hmark with hstring hcomment
    · cases hmark
      exact .inl ⟨rest, by rw [hstring], rfl, rfl⟩
    · cases hmark
      exact .inr (.inl ⟨rest, by rw [← hcomment, Char.ofNat_toNat], rfl, rfl⟩)
    · obtain ⟨entry, hentry, heq⟩ := Option.map_eq_some_iff.1 hmark
      cases heq
      have hprefix := List.find?_some hentry
      obtain ⟨more, hmore⟩ := List.isPrefixOf_iff_prefix.1 hprefix
      exact .inr (.inr ⟨entry.1, more, hmore.symm, List.mem_of_find?_eq_some hentry, rfl⟩)

/-- A mark is neither a word nor a number, and it is not unexpected. -/
theorem kind_of_markKind? (hmark : markKind? cs = some (kind, length)) :
    kind.isWordKind = false ∧ kind ≠ .number ∧ kind ≠ .unexpected := by
  rcases markKind?_cases hmark with ⟨rest, -, rfl, -⟩ | ⟨rest, -, rfl, -⟩ | ⟨mark, rest, -, hmem, -⟩
  · decide
  · decide
  · have hall : ∀ entry ∈ fixedMarks,
        entry.2.isWordKind = false ∧ entry.2 ≠ .number ∧ entry.2 ≠ .unexpected := by decide
    exact hall (mark, kind) hmem

theorem length_pos_of_markKind? (hmark : markKind? cs = some (kind, length)) : 0 < length := by
  rcases markKind?_cases hmark with
    ⟨rest, -, -, rfl⟩ | ⟨rest, -, -, rfl⟩ | ⟨mark, rest, -, hmem, rfl⟩
  · omega
  · omega
  · have hall : ∀ entry ∈ fixedMarks, 0 < entry.1.length := by decide
    exact hall (mark, kind) hmem

theorem length_le_of_markKind? (hmark : markKind? cs = some (kind, length)) :
    length ≤ cs.length := by
  rcases markKind?_cases hmark with
    ⟨rest, rfl, -, rfl⟩ | ⟨rest, rfl, -, rfl⟩ | ⟨mark, rest, rfl, -, rfl⟩
  · simp only [stringLength, List.length_cons]
    omega
  · have hrest := (List.takeWhile_prefix (l := rest) (· != '\n')).length_le
    rw [List.length_cons]
    omega
  · rw [List.length_append]
    omega

theorem exists_cons_of_string (hmark : markKind? cs = some (.string, length)) :
    ∃ rest, cs = '"' :: rest ∧ length = 1 + stringLength rest := by
  rcases markKind?_cases hmark with
    ⟨rest, hcs, -, hlength⟩ | ⟨rest, -, hkind, -⟩ | ⟨mark, rest, -, hmem, -⟩
  · exact ⟨rest, hcs, hlength⟩
  · cases hkind
  · have hall : ∀ entry ∈ fixedMarks, entry.2 ≠ .string := by decide
    exact absurd rfl (hall (mark, _) hmem)

theorem exists_cons_of_comment (hmark : markKind? cs = some (.comment, length)) :
    ∃ rest, cs = Char.ofNat 0x27 :: rest := by
  rcases markKind?_cases hmark with ⟨rest, -, hkind, -⟩ | ⟨rest, hcs, -⟩ | ⟨mark, rest, -, hmem, -⟩
  · cases hkind
  · exact ⟨rest, hcs⟩
  · have hall : ∀ entry ∈ fixedMarks, entry.2 ≠ .comment := by decide
    exact absurd rfl (hall (mark, _) hmem)

end Marks

/-! ## Recognising a lexeme -/

/-- What a row of characters is followed by does not go on with it. -/
theorem takeWhile_append {p : Char → Bool} {cs rest : List Char} (hcs : ∀ c ∈ cs, p c = true)
    (hrest : ∀ c ∈ rest.head?, p c = false) : (cs ++ rest).takeWhile p = cs := by
  rw [List.takeWhile_append_of_pos hcs]
  cases rest with
  | nil => simp
  | cons c rest =>
    have hc : p c = false := hrest c rfl
    simp [hc]

/-- A run of word characters is recognised where no word character follows. -/
theorem lexeme?_word {word rest : List Char} {kind : Token.Kind}
    (hword : ∀ c ∈ word, isWord c = true) (hkind : wordKind? word = some kind)
    (hrest : ∀ c ∈ rest.head?, isWord c = false) :
    lexeme? (word ++ rest) = some (kind, word.length) := by
  simp only [lexeme?, takeWhile_append hword hrest, hkind]

/-- A character that starts neither a word nor a number is a mark. -/
theorem lexeme?_mark {c : Char} (hword : isWord c = false) (hdigit : isDigit c = false)
    (hpoint : c ≠ '.') (cs : List Char) : lexeme? (c :: cs) = markKind? (c :: cs) := by
  have hnumber : numberLength (c :: cs) = 0 := by simp [numberLength, hdigit, hpoint]
  simp [lexeme?, hword, wordKind?_nil, hnumber]

/-- A point that no digit follows is a dot. -/
theorem lexeme?_dot {cs : List Char} (hdigit : ∀ c ∈ cs.head?, isDigit c = false) :
    lexeme? ('.' :: cs) = some (.dot, 1) := by
  have hwhole : isDigit '.' = false := by decide
  have hfraction : ([] ++ cs).takeWhile isDigit = [] := takeWhile_append (by simp) hdigit
  rw [List.nil_append] at hfraction
  have hnumber : numberLength ('.' :: cs) = 0 := by simp [numberLength, hwhole, hfraction]
  have hword : isWord '.' = false := by decide
  have hmark : markKind? ('.' :: cs) = some (.dot, 1) := rfl
  simp [lexeme?, hword, wordKind?_nil, hnumber, hmark]

/-! ## What a lexeme is -/

theorem numberLength_le (cs : List Char) : numberLength cs ≤ cs.length := by
  have hwhole : (cs.takeWhile isDigit).length ≤ cs.length := (List.takeWhile_prefix _).length_le
  unfold numberLength
  dsimp only
  split
  · rename_i rest hrest
    have hlength := congrArg List.length hrest
    have hfraction : (rest.takeWhile isDigit).length ≤ rest.length :=
      (List.takeWhile_prefix _).length_le
    rw [List.length_drop, List.length_cons] at hlength
    split <;> omega
  · exact hwhole

section Lexemes

variable {cs : List Char} {kind : Token.Kind} {length : Nat}

/-- A lexeme is a word, else a number, else a mark. -/
theorem lexeme?_cases (hlexeme : lexeme? cs = some (kind, length)) :
    (wordKind? (cs.takeWhile isWord) = some kind ∧ length = (cs.takeWhile isWord).length) ∨
      (kind = .number ∧ 0 < numberLength cs ∧ length = numberLength cs) ∨
      markKind? cs = some (kind, length) := by
  unfold lexeme? at hlexeme
  dsimp only at hlexeme
  cases hword : wordKind? (cs.takeWhile isWord) with
  | some word =>
    simp only [hword] at hlexeme
    cases hlexeme
    exact .inl ⟨rfl, rfl⟩
  | none =>
    simp only [hword] at hlexeme
    split_ifs at hlexeme with hnumber
    · cases hlexeme
      exact .inr (.inl ⟨rfl, hnumber, rfl⟩)
    · exact .inr (.inr hlexeme)

theorem length_pos_of_lexeme? (hlexeme : lexeme? cs = some (kind, length)) : 0 < length := by
  rcases lexeme?_cases hlexeme with ⟨hword, rfl⟩ | ⟨-, hnumber, rfl⟩ | hmark
  · rw [List.length_pos_iff]
    intro hnil
    rw [hnil, wordKind?_nil] at hword
    cases hword
  · exact hnumber
  · exact length_pos_of_markKind? hmark

/-- No token is longer than what is left of its line. -/
theorem length_le_of_lexeme? (hlexeme : lexeme? cs = some (kind, length)) :
    length ≤ cs.length := by
  rcases lexeme?_cases hlexeme with ⟨-, rfl⟩ | ⟨-, -, rfl⟩ | hmark
  · exact (List.takeWhile_prefix _).length_le
  · exact numberLength_le cs
  · exact length_le_of_markKind? hmark

/-- No lexeme is unexpected. -/
theorem kind_ne_unexpected_of_lexeme? (hlexeme : lexeme? cs = some (kind, length)) :
    kind ≠ .unexpected := by
  rcases lexeme?_cases hlexeme with ⟨hword, -⟩ | ⟨rfl, -⟩ | hmark
  · rintro rfl
    cases isWordKind_of_wordKind? hword
  · decide
  · exact (kind_of_markKind? hmark).2.2

/-- A number is as long as its digits and its point. -/
theorem lexeme?_number (hlexeme : lexeme? cs = some (.number, length)) :
    length = numberLength cs := by
  rcases lexeme?_cases hlexeme with ⟨hword, -⟩ | ⟨-, -, hlength⟩ | hmark
  · cases isWordKind_of_wordKind? hword
  · exact hlength
  · exact absurd rfl (kind_of_markKind? hmark).2.1

/-- Strings and comments start with a mark of their own. -/
theorem markKind?_of_lexeme? (hlexeme : lexeme? cs = some (kind, length))
    (hkind : kind = .string ∨ kind = .comment) : markKind? cs = some (kind, length) := by
  rcases lexeme?_cases hlexeme with ⟨hword, -⟩ | ⟨rfl, -⟩ | hmark
  · rcases hkind with rfl | rfl <;> cases isWordKind_of_wordKind? hword
  · rcases hkind with hkind | hkind <;> cases hkind
  · exact hmark

end Lexemes

/-! ## Reading a line -/

section Scanning

variable {comments : Bool} {line column : Nat} {c : Char} {cs : List Char}

theorem scanFrom_blank (hblank : isBlank c = true) :
    scanFrom comments line 0 column (c :: cs) = scanFrom comments line 0 (column + 1) cs := by
  rw [scanFrom, if_pos hblank]

theorem scanFrom_token {kind : Token.Kind} {length : Nat} (hblank : ¬isBlank c = true)
    (hlexeme : lexeme? (c :: cs) = some (kind, length)) :
    scanFrom true line 0 column (c :: cs) =
      ⟨kind, String.ofList ((c :: cs).take length), line, column⟩ ::
        scanFrom true line (length - 1) (column + 1) cs := by
  rw [scanFrom, if_neg hblank, hlexeme]
  simp

theorem scanFrom_unexpected (hblank : ¬isBlank c = true) (hlexeme : lexeme? (c :: cs) = none) :
    scanFrom comments line 0 column (c :: cs) =
      [⟨.unexpected, String.ofList (trimEnd (c :: cs)), line, column⟩] := by
  rw [scanFrom, if_neg hblank, hlexeme]

/-- A line is read character by character. Each is passed over, because it belongs to a token that
was already read or because it is blank, or it starts a token, or nothing starts there. -/
@[elab_as_elim]
theorem scan_induction {motive : (passed column : Nat) → List Char → Prop}
    (nil : ∀ passed column, motive passed column [])
    (pass : ∀ passed column c cs, motive passed (column + 1) cs →
      motive (passed + 1) column (c :: cs))
    (blank : ∀ column c cs, isBlank c = true → motive 0 (column + 1) cs → motive 0 column (c :: cs))
    (token : ∀ column c cs kind length, ¬isBlank c = true →
      lexeme? (c :: cs) = some (kind, length) → motive (length - 1) (column + 1) cs →
      motive 0 column (c :: cs))
    (unexpected : ∀ column c cs, ¬isBlank c = true → lexeme? (c :: cs) = none →
      motive 0 column (c :: cs))
    (passed column : Nat) (cs : List Char) : motive passed column cs := by
  induction cs generalizing passed column with
  | nil => exact nil passed column
  | cons c cs ih =>
    cases passed with
    | succ passed => exact pass passed column c cs (ih passed (column + 1))
    | zero =>
      by_cases hblank : isBlank c = true
      · exact blank column c cs hblank (ih 0 (column + 1))
      · cases hlexeme : lexeme? (c :: cs) with
        | some found =>
          exact token column c cs found.1 found.2 hblank hlexeme (ih (found.2 - 1) (column + 1))
        | none => exact unexpected column c cs hblank hlexeme

/-- Reading a line without its comments gives the tokens that are no comments. -/
theorem scanFrom_false (line passed column : Nat) (cs : List Char) :
    scanFrom false line passed column cs =
      (scanFrom true line passed column cs).filter (·.kind != .comment) := by
  induction passed, column, cs using scan_induction with
  | nil passed column => cases passed <;> rfl
  | pass passed column c cs ih => exact ih
  | blank column c cs hblank ih => rw [scanFrom_blank hblank, scanFrom_blank hblank, ih]
  | token column c cs kind length hblank hlexeme ih =>
    rw [scanFrom_token hblank hlexeme, scanFrom, if_neg hblank, hlexeme, List.filter_cons, ← ih]
    simp only [Bool.or_false]
  | unexpected column c cs hblank hlexeme =>
    rw [scanFrom_unexpected hblank hlexeme, scanFrom_unexpected hblank hlexeme]
    rfl

theorem tokenize_eq_filter (line : Nat) (text : String) :
    tokenize line text = (scan line text).filter (·.kind != .comment) :=
  scanFrom_false line 0 0 text.toList

theorem mem_tokenize_iff {text : String} {token : Token} :
    token ∈ tokenize line text ↔ token ∈ scan line text ∧ token.kind ≠ .comment := by
  rw [tokenize_eq_filter, List.mem_filter, bne_iff_ne]

end Scanning

end SmallBasic
