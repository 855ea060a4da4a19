import Mathlib.Data.List.Forall2
import Mathlib.Tactic.IntervalCases
import SmallBasic.Program.Parse
import SmallBasic.Proofs.Lexemes

/-!
# Spellings of a source

Two sources are spellings of the same text if they differ at most in the case of ASCII letters that
stand outside string literals. They have the same tokens, up to the case of their texts: whether a
character belongs to a token, and to what kind of token, does not depend on its case.

## Main definitions

* `Token.caseless` — a token without the case of its text, unless it is a string.
* `SameTokens` — lines whose tokens differ at most in case.
* `Respells` — sources that differ only in the case of letters outside string literals.

## Main statements

* `lexeme?_map` — kind and length of a token do not depend on case.
* `scan_foldCase` — the tokens of a line without its case.
* `Respells.sameTokens` — the lines of two spellings have the same tokens.
-/

namespace SmallBasic

/-! ## Letters -/

/-- The letters that have a lower case. -/
def upperLetters : List Char :=
  ['A', 'B', 'C', 'D', 'E', 'F', 'G', 'H', 'I', 'J', 'K', 'L', 'M', 'N', 'O', 'P', 'Q', 'R', 'S',
    'T', 'U', 'V', 'W', 'X', 'Y', 'Z']

theorem toLower_cases (c : Char) : c.toLower = c ∨ c ∈ upperLetters := by
  by_cases hupper : c.val ≥ 'A'.val ∧ c.val ≤ 'Z'.val
  · right
    have hlow : 65 ≤ c.toNat := UInt32.le_iff_toNat_le.1 hupper.1
    have hhigh : c.toNat ≤ 90 := UInt32.le_iff_toNat_le.1 hupper.2
    rw [← Char.ofNat_toNat c]
    generalize c.toNat = n at hlow hhigh
    interval_cases n <;> decide
  · left
    exact dif_neg hupper

/-- What does not tell a letter from its lower case does not depend on case. -/
theorem eq_of_upperLetters {α : Type} {f : Char → α}
    (hf : upperLetters.map (fun c => f c.toLower) = upperLetters.map f) (c : Char) :
    f c.toLower = f c := by
  rcases toLower_cases c with hlower | hupper
  · rw [hlower]
  · exact List.map_inj_left.1 hf c hupper

theorem toLower_toLower (c : Char) : c.toLower.toLower = c.toLower :=
  eq_of_upperLetters (by decide) c

theorem isWord_toLower (c : Char) : isWord c.toLower = isWord c := eq_of_upperLetters (by decide) c

theorem isDigit_toLower (c : Char) : isDigit c.toLower = isDigit c :=
  eq_of_upperLetters (by decide) c

theorem isBlank_toLower (c : Char) : isBlank c.toLower = isBlank c :=
  eq_of_upperLetters (by decide) c

theorem isNameStart_toLower (c : Char) : isNameStart c.toLower = isNameStart c :=
  eq_of_upperLetters (by decide) c

theorem foldLetter_toLower (c : Char) : foldLetter c.toLower = foldLetter c :=
  eq_of_upperLetters (by decide) c

theorem isAlpha_toLower (c : Char) : c.toLower.isAlpha = c.isAlpha :=
  eq_of_upperLetters (by decide) c

theorem isAlpha_of_mem_upperLetters {c : Char} (hupper : c ∈ upperLetters) : c.isAlpha = true :=
  List.all_eq_true.1 (by decide) c hupper

/-- A mark has no case. -/
theorem toLower_eq_iff {c mark : Char} (hmark : mark.isAlpha = false) :
    c.toLower = mark ↔ c = mark := by
  rcases toLower_cases c with hlower | hupper
  · rw [hlower]
  · have hletter : c.isAlpha = true := isAlpha_of_mem_upperLetters hupper
    constructor
    · rintro rfl
      cases hmark.symm.trans ((isAlpha_toLower c).trans hletter)
    · rintro rfl
      cases hmark.symm.trans hletter

theorem bne_toLower {mark : Char} (hmark : mark.isAlpha = false) (c : Char) :
    (c.toLower != mark) = (c != mark) := by
  rw [Bool.eq_iff_iff, bne_iff_ne, bne_iff_ne, ne_eq, ne_eq, toLower_eq_iff hmark]

theorem takeWhile_map_toLower {p : Char → Bool} (hp : ∀ c, p c.toLower = p c) (cs : List Char) :
    (cs.map Char.toLower).takeWhile p = (cs.takeWhile p).map Char.toLower := by
  rw [List.takeWhile_map, show p ∘ Char.toLower = p from funext hp]

/-! ## Names -/

@[simp] theorem toList_foldCase (name : String) :
    (foldCase name).toList = name.toList.map Char.toLower := String.toList_ofList

@[simp] theorem foldCase_ofList (cs : List Char) :
    foldCase (String.ofList cs) = String.ofList (cs.map Char.toLower) := by
  rw [foldCase, String.toList_ofList]

@[simp] theorem foldCase_foldCase (name : String) : foldCase (foldCase name) = foldCase name := by
  rw [foldCase, toList_foldCase, List.map_map]
  exact congrArg String.ofList (List.map_congr_left fun c _ => toLower_toLower c)

@[simp] theorem length_foldCase (name : String) : (foldCase name).length = name.length := by
  rw [← String.length_toList, toList_foldCase, List.length_map, String.length_toList]

@[simp] theorem sameName_foldCase_left (name other : String) :
    sameName (foldCase name) other = sameName name other := by
  rw [sameName, foldCase_foldCase, sameName]

@[simp] theorem sameName_foldCase_right (name other : String) :
    sameName name (foldCase other) = sameName name other := by
  rw [sameName, foldCase_foldCase, sameName]

/-! ## Lexemes -/

theorem wordKind?_map (word : List Char) : wordKind? (word.map Char.toLower) = wordKind? word := by
  have hfolds : foldsToKeyword (word.map Char.toLower) = foldsToKeyword word := by
    rw [foldsToKeyword, List.map_map, show foldLetter ∘ Char.toLower = foldLetter from
      funext foldLetter_toLower, foldsToKeyword]
  have hhead : (word.map Char.toLower).head?.any isNameStart = word.head?.any isNameStart := by
    cases word with
    | nil => rfl
    | cons c rest => exact isNameStart_toLower c
  unfold wordKind?
  rw [hfolds, hhead, ← foldCase_ofList]
  simp only [keyword?, sameName_foldCase_left, sameName_foldCase_right]

theorem numberLength_map (cs : List Char) :
    numberLength (cs.map Char.toLower) = numberLength cs := by
  simp only [numberLength, takeWhile_map_toLower isDigit_toLower, List.length_map, ← List.map_drop]
  cases cs.drop (cs.takeWhile isDigit).length with
  | nil => rfl
  | cons c rest =>
    by_cases hpoint : c = '.'
    · subst hpoint
      show (if _ ∧ ((rest.map Char.toLower).takeWhile isDigit).length = 0 then _ else _) = _
      rw [takeWhile_map_toLower isDigit_toLower, List.length_map]
      rfl
    · have hlower : c.toLower ≠ '.' := (toLower_eq_iff (by decide)).not.2 hpoint
      simp [hpoint, hlower]

theorem stringLength_map (cs : List Char) :
    stringLength (cs.map Char.toLower) = stringLength cs := by
  rw [stringLength, takeWhile_map_toLower (bne_toLower (by decide)), List.length_map,
    List.length_map, stringLength]

theorem isPrefixOf_map_toLower {mark : List Char} (hmark : ∀ c ∈ mark, c.isAlpha = false)
    (cs : List Char) : mark.isPrefixOf (cs.map Char.toLower) = mark.isPrefixOf cs := by
  induction mark generalizing cs with
  | nil => rfl
  | cons first mark ih =>
    obtain ⟨hfirst, hrest⟩ := List.forall_mem_cons.1 hmark
    cases cs with
    | nil => rfl
    | cons c cs =>
      have hsame : (first == c.toLower) = (first == c) := by
        rw [Bool.eq_iff_iff, beq_iff_eq, beq_iff_eq, eq_comm, toLower_eq_iff hfirst, eq_comm]
      rw [List.map_cons, List.isPrefixOf, List.isPrefixOf, hsame, ih hrest]

/-- Marks have no letters. -/
theorem markKind?_map (cs : List Char) : markKind? (cs.map Char.toLower) = markKind? cs := by
  cases cs with
  | nil => rfl
  | cons c cs =>
    have hfixed : fixedMark? ((c :: cs).map Char.toLower) = fixedMark? (c :: cs) := by
      have hletters : fixedMarks.all (fun entry => entry.1.all fun c => !c.isAlpha) = true := by
        decide
      refine fixedMark?_congr fun entry hentry => isPrefixOf_map_toLower (fun d hd => ?_) (c :: cs)
      simpa using List.all_eq_true.1 (List.all_eq_true.1 hletters entry hentry) d hd
    have hstring : c.toLower = '"' ↔ c = '"' := toLower_eq_iff (by decide)
    have hcomment : c.toLower.toNat = 0x27 ↔ c.toNat = 0x27 :=
      decide_eq_decide.1 (eq_of_upperLetters (f := fun c => decide (c.toNat = 0x27)) (by decide) c)
    have hline : (cs.map Char.toLower).takeWhile (· != '\n') =
        (cs.takeWhile (· != '\n')).map Char.toLower :=
      takeWhile_map_toLower (bne_toLower (by decide)) cs
    rw [List.map_cons] at hfixed ⊢
    simp only [markKind?, hfixed, hstring, hcomment, stringLength_map, hline, List.length_map]

/-- Kind and length of a token do not depend on case. -/
theorem lexeme?_map (cs : List Char) : lexeme? (cs.map Char.toLower) = lexeme? cs := by
  simp only [lexeme?, takeWhile_map_toLower isWord_toLower, wordKind?_map, numberLength_map,
    markKind?_map, List.length_map]

/-! ## Tokens -/

namespace Token

/-- The token with its text in lower case. -/
def lower (token : Token) : Token := { token with text := foldCase token.text }

/-- The token without the case of its text. Strings keep theirs, and numbers have none. -/
def caseless (token : Token) : Token :=
  if token.kind = .string ∨ token.kind = .number then token else token.lower

end Token

theorem trimEnd_map (cs : List Char) :
    trimEnd (cs.map Char.toLower) = (trimEnd cs).map Char.toLower := by
  rw [trimEnd, ← List.map_reverse, List.dropWhile_map, ← List.map_reverse,
    show isBlank ∘ Char.toLower = isBlank from funext isBlank_toLower, trimEnd]

theorem scanFrom_map (line passed column : Nat) (cs : List Char) :
    scanFrom true line passed column (cs.map Char.toLower) =
      (scanFrom true line passed column cs).map Token.lower := by
  induction passed, column, cs using scan_induction with
  | nil passed column => cases passed <;> rfl
  | pass passed column c cs ih => exact ih
  | blank column c cs hblank ih =>
    rw [List.map_cons, scanFrom_blank ((isBlank_toLower c).trans hblank), scanFrom_blank hblank, ih]
  | token column c cs kind length hblank hlexeme ih =>
    have hlower := (lexeme?_map (c :: cs)).trans hlexeme
    rw [← isBlank_toLower] at hblank
    rw [List.map_cons] at hlower ⊢
    rw [scanFrom_token hblank hlower, ih, ← List.map_cons, ← List.map_take]
    rw [isBlank_toLower] at hblank
    simp only [scanFrom_token hblank hlexeme, List.map_cons, Token.lower, foldCase_ofList]
  | unexpected column c cs hblank hlexeme =>
    have hlower := (lexeme?_map (c :: cs)).trans hlexeme
    rw [← isBlank_toLower] at hblank
    rw [List.map_cons] at hlower ⊢
    rw [scanFrom_unexpected hblank hlower, ← List.map_cons, trimEnd_map]
    rw [isBlank_toLower] at hblank
    simp only [scanFrom_unexpected hblank hlexeme, List.map_cons, List.map_nil, Token.lower,
      foldCase_ofList]

/-- The tokens of a line without its case. -/
theorem scan_foldCase (line : Nat) (text : String) :
    scan line (foldCase text) = (scan line text).map Token.lower := by
  rw [scan, toList_foldCase, scanFrom_map, scan]

theorem linesFrom_map (line cs : List Char) :
    linesFrom '\n' '\r' (line.map Char.toLower) (cs.map Char.toLower) =
      (linesFrom '\n' '\r' line cs).map (List.map Char.toLower) := by
  have hdrop : ∀ line : List Char, dropReturn '\r' (line.map Char.toLower) =
      (dropReturn '\r' line).map Char.toLower := by
    intro line
    cases line with
    | nil => rfl
    | cons c line =>
      simp only [List.map_cons, dropReturn, toLower_eq_iff (by decide : '\r'.isAlpha = false)]
      split <;> rfl
  induction cs generalizing line with
  | nil => cases line <;> simp [linesFrom]
  | cons c cs ih =>
    simp only [List.map_cons, linesFrom, toLower_eq_iff (by decide : '\n'.isAlpha = false)]
    split
    · have hrest := ih []
      rw [List.map_nil] at hrest
      rw [hdrop, hrest, List.map_cons, List.map_reverse]
    · exact ih (c :: line)

theorem lines_foldCase (source : String) :
    lines (foldCase source) = (lines source).map foldCase := by
  have hlines := linesFrom_map [] source.toList
  rw [List.map_nil] at hlines
  rw [lines, toList_foldCase, hlines, lines, List.map_map, List.map_map]
  exact List.map_congr_left fun cs _ => (foldCase_ofList cs).symm

/-! ## Spellings -/

/-- The string literals of each line. -/
def stringLiterals (source : String) : List (List String) :=
  (lines source).map fun text => ((scan 0 text).filter (·.kind = .string)).map (·.text)

/-- The sources differ at most in the case of ASCII letters, and not in their string literals. -/
structure Respells (source other : String) : Prop where
  foldCase_eq : foldCase source = foldCase other
  stringLiterals_eq : stringLiterals source = stringLiterals other

/-- The number of the line shows in the places of its tokens only. -/
theorem scanFrom_line (line passed column : Nat) (cs : List Char) :
    scanFrom true line passed column cs =
      (scanFrom true 0 passed column cs).map fun token => { token with line } := by
  induction passed, column, cs using scan_induction with
  | nil passed column => cases passed <;> rfl
  | pass passed column c cs ih => exact ih
  | blank column c cs hblank ih => rw [scanFrom_blank hblank, scanFrom_blank hblank, ih]
  | token column c cs kind length hblank hlexeme ih =>
    rw [scanFrom_token hblank hlexeme, scanFrom_token hblank hlexeme, List.map_cons, ih]
  | unexpected column c cs hblank hlexeme =>
    rw [scanFrom_unexpected hblank hlexeme, scanFrom_unexpected hblank hlexeme]
    rfl

theorem strings_scan (number : Nat) (text : String) :
    ((scan number text).filter (·.kind = .string)).map (·.text) =
      ((scan 0 text).filter (·.kind = .string)).map (·.text) := by
  rw [scan, scanFrom_line, List.filter_map, List.map_map]
  rfl

theorem drop_length_takeWhile (p : Char → Bool) (cs : List Char) :
    cs.drop (cs.takeWhile p).length = cs.dropWhile p := by
  have hsplit := @List.drop_left _ (cs.takeWhile p) (cs.dropWhile p)
  rwa [List.takeWhile_append_dropWhile] at hsplit

theorem take_length_takeWhile (p : Char → Bool) (cs : List Char) :
    cs.take (cs.takeWhile p).length = cs.takeWhile p := by
  have hsplit := @List.take_left _ (cs.takeWhile p) (cs.dropWhile p)
  rwa [List.takeWhile_append_dropWhile] at hsplit

/-- A number consists of digits and points. -/
theorem of_mem_take_numberLength {cs : List Char} {c : Char}
    (hc : c ∈ cs.take (numberLength cs)) : isDigit c = true ∨ c = '.' := by
  have hdigits : ∀ {cs : List Char}, c ∈ cs.take (cs.takeWhile isDigit).length →
      isDigit c = true := by
    intro cs hmem
    rw [take_length_takeWhile] at hmem
    exact List.all_eq_true.1 List.all_takeWhile c hmem
  simp only [numberLength, drop_length_takeWhile] at hc
  split at hc
  · rename_i rest hrest
    split at hc
    · simp at hc
    · rw [Nat.add_assoc, List.take_add, drop_length_takeWhile, hrest, Nat.add_comm 1,
        List.take_succ_cons] at hc
      rcases List.mem_append.1 hc with hc | hc
      · exact .inl (hdigits hc)
      · rcases List.mem_cons.1 hc with rfl | hc
        · exact .inr rfl
        · exact .inl (hdigits hc)
  · exact .inl (hdigits hc)

theorem toLower_of_isDigit {c : Char} (hc : isDigit c = true ∨ c = '.') : c.toLower = c := by
  rcases toLower_cases c with hlower | hupper
  · exact hlower
  · have hdigit : isDigit c ≠ true := List.any_eq_false.1 (by decide) c hupper
    rcases hc with hc | rfl
    · exact absurd hc hdigit
    · rfl

theorem map_toLower_take_numberLength (cs : List Char) :
    (cs.take (numberLength cs)).map Char.toLower = cs.take (numberLength cs) := by
  have hsame : (cs.take (numberLength cs)).map Char.toLower = (cs.take (numberLength cs)).map id :=
    List.map_congr_left fun c hc => toLower_of_isDigit (of_mem_take_numberLength hc)
  rw [hsame, List.map_id]

/-- A number has no letters in it. -/
theorem foldCase_of_number {line passed column : Nat} {cs : List Char} {token : Token}
    (htoken : token ∈ scanFrom true line passed column cs) (hkind : token.kind = .number) :
    foldCase token.text = token.text := by
  induction passed, column, cs using scan_induction with
  | nil passed column => cases passed <;> simp [scanFrom] at htoken
  | pass passed column c cs ih => exact ih htoken
  | blank column c cs hblank ih =>
    rw [scanFrom_blank hblank] at htoken
    exact ih htoken
  | token column c cs kind length hblank hlexeme ih =>
    rw [scanFrom_token hblank hlexeme] at htoken
    rcases List.mem_cons.1 htoken with rfl | htoken
    · obtain rfl : kind = .number := hkind
      rw [lexeme?_number hlexeme, foldCase_ofList, map_toLower_take_numberLength]
    · exact ih htoken
  | unexpected column c cs hblank hlexeme =>
    rw [scanFrom_unexpected hblank hlexeme] at htoken
    obtain rfl := List.mem_singleton.1 htoken
    cases hkind

theorem caseless_eq_of_lower_eq {token other : Token} (hlower : token.lower = other.lower)
    (hstring : token.kind = .string → token.text = other.text)
    (hnumber : token.kind = .number → foldCase token.text = token.text)
    (hother : other.kind = .number → foldCase other.text = other.text) :
    token.caseless = other.caseless := by
  obtain ⟨kind, text, line, column⟩ := token
  obtain ⟨otherKind, otherText, otherLine, otherColumn⟩ := other
  simp only [Token.lower, Token.mk.injEq] at hlower
  obtain ⟨rfl, htext, rfl, rfl⟩ := hlower
  dsimp only at hstring hnumber hother
  unfold Token.caseless
  by_cases hkind : kind = .string ∨ kind = .number
  · rw [if_pos hkind, if_pos hkind]
    rcases hkind with hkind | hkind
    · rw [hstring hkind]
    · rw [← hnumber hkind, ← hother hkind, htext]
  · rw [if_neg hkind, if_neg hkind]
    simp only [Token.lower, htext]

/-- Tokens that agree in lower case, and of which the strings agree, differ in nothing but case. -/
theorem map_caseless_eq {tokens others : List Token}
    (hlower : tokens.map Token.lower = others.map Token.lower)
    (hstrings : (tokens.filter (·.kind = .string)).map (·.text) =
      (others.filter (·.kind = .string)).map (·.text))
    (hnumbers : ∀ token ∈ tokens, token.kind = .number → foldCase token.text = token.text)
    (hothers : ∀ token ∈ others, token.kind = .number → foldCase token.text = token.text) :
    tokens.map Token.caseless = others.map Token.caseless := by
  induction tokens generalizing others with
  | nil => rw [List.map_eq_nil_iff.1 hlower.symm]
  | cons token tokens ih =>
    obtain ⟨other, rest, rfl, hfirst, hrest⟩ := List.map_eq_cons_iff.1 hlower.symm
    obtain ⟨hnumber, hnumbers⟩ := List.forall_mem_cons.1 hnumbers
    obtain ⟨hother, hothers⟩ := List.forall_mem_cons.1 hothers
    have hkind : other.kind = token.kind := (Token.mk.inj hfirst).1
    have hsame : (token.kind = .string → token.text = other.text) ∧
        (tokens.filter (·.kind = .string)).map (·.text) =
          (rest.filter (·.kind = .string)).map (·.text) := by
      by_cases hstring : token.kind = .string
      · simpa [List.filter_cons, hkind, hstring] using hstrings
      · simpa [List.filter_cons, hkind, hstring] using hstrings
    rw [List.map_cons, List.map_cons, ih hrest.symm hsame.2 hnumbers hothers,
      caseless_eq_of_lower_eq hfirst.symm hsame.1 hnumber hother]

@[simp] theorem Token.kind_caseless (token : Token) : token.caseless.kind = token.kind := by
  unfold Token.caseless
  split <;> rfl

theorem tokenize_map_caseless (number : Nat) (text : String) :
    (tokenize number text).map Token.caseless =
      ((scan number text).map Token.caseless).filter (·.kind != .comment) := by
  rw [tokenize_eq_filter, List.filter_map]
  exact congrArg (List.map Token.caseless) (List.filter_congr fun token _ => by simp)

/-- The lines have the same tokens, up to their case. -/
def SameTokens (text other : String) : Prop :=
  ∀ number, (tokenize number text).map Token.caseless = (tokenize number other).map Token.caseless

theorem sameTokens_of_foldCase {text other : String} (hfold : foldCase text = foldCase other)
    (hstrings : ((scan 0 text).filter (·.kind = .string)).map (·.text) =
      ((scan 0 other).filter (·.kind = .string)).map (·.text)) : SameTokens text other := by
  intro number
  rw [← strings_scan number, ← strings_scan number] at hstrings
  have hlower : (scan number text).map Token.lower = (scan number other).map Token.lower := by
    rw [← scan_foldCase, ← scan_foldCase, hfold]
  rw [tokenize_map_caseless, tokenize_map_caseless, map_caseless_eq hlower hstrings
    (fun _ htoken => foldCase_of_number htoken) fun _ htoken => foldCase_of_number htoken]

/-- The lines of two spellings have the same tokens, up to their case. -/
theorem Respells.sameTokens {source other : String} (hrespells : Respells source other) :
    List.Forall₂ SameTokens (lines source) (lines other) := by
  have hlines : (lines source).map foldCase = (lines other).map foldCase := by
    rw [← lines_foldCase, ← lines_foldCase, hrespells.foldCase_eq]
  have hstrings := hrespells.stringLiterals_eq
  unfold stringLiterals at hstrings
  generalize lines source = texts at hlines hstrings
  generalize lines other = others at hlines hstrings
  induction texts generalizing others with
  | nil =>
    rw [List.map_eq_nil_iff.1 hlines.symm]
    exact .nil
  | cons text texts ih =>
    obtain ⟨first, rest, rfl, hfirst, hrest⟩ := List.map_eq_cons_iff.1 hlines.symm
    obtain ⟨hsame, hstrings⟩ := List.cons.inj hstrings
    exact .cons (sameTokens_of_foldCase hfirst.symm hsame) (ih rest hrest.symm hstrings)

end SmallBasic
