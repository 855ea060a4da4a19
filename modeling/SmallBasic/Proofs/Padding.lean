import SmallBasic.Proofs.Printing
import SmallBasic.Proofs.Spelling

/-!
# Padding

Blanks and a comment at the end of a line add no token to it, and no token runs on into them. There
are two exceptions: a string that is not closed goes on to the end of the line, whatever stands
there, and where a character starts no token, the rest of the line is one unexpected token.

## Main definitions

* `IsPadding` — blanks, and perhaps a comment after them, on one line.
* `Settled` — a line without unclosed strings and unexpected tokens.

## Main statements

* `lexeme?_append` — a token is the same in front of padding.
* `tokenize_append` — a settled line has the same tokens with padding after it.
-/

namespace SmallBasic

/-! ## Padding -/

theorem all_iff_forall_mem (found : Option Char) (p : Char → Bool) :
    found.all p = true ↔ ∀ c ∈ found, p c = true := by
  cases found <;> simp

/-- Blanks, and perhaps a comment after them, on one line. -/
structure IsPadding (pad : List Char) : Prop where
  oneLine : '\n' ∉ pad
  blankOrComment : ∀ c ∈ (pad.dropWhile isBlank).head?, c.toNat = 0x27

instance (pad : List Char) : Decidable (IsPadding pad) :=
  decidable_of_iff ('\n' ∉ pad ∧ (pad.dropWhile isBlank).head?.all (·.toNat == 0x27) = true)
    ⟨fun h => ⟨h.1, by simpa [all_iff_forall_mem] using h.2⟩,
      fun h => ⟨h.1, by simpa [all_iff_forall_mem] using h.2⟩⟩

/-- The code points that padding can start with: the blanks and the mark of a comment. -/
def padCodes : List Nat :=
  [0x27, 9, 10, 11, 12, 13, 0x20, 0x85, 0xA0, 0x1680, 0x2000, 0x2001, 0x2002, 0x2003, 0x2004,
    0x2005, 0x2006, 0x2007, 0x2008, 0x2009, 0x200A, 0x2028, 0x2029, 0x202F, 0x205F, 0x3000]

theorem mem_padCodes_of_isBlank {c : Char} (hblank : isBlank c = true) : c.toNat ∈ padCodes := by
  simp only [isBlank, Bool.or_eq_true, Bool.and_eq_true, decide_eq_true_eq, beq_iff_eq] at hblank
  generalize c.toNat = n at hblank
  rcases hblank with (((((((((⟨hlow, hhigh⟩ | rfl) | rfl) | rfl) | rfl) | ⟨hlow, hhigh⟩) | rfl) |
    rfl) | rfl) | rfl) | rfl
  all_goals first
    | decide
    | interval_cases n <;> decide

/-- Goes on with no word, no number and no comparator. -/
def isStop (c : Char) : Bool :=
  !isWord c && !isDigit c && c != '.' && c != '=' && c != '>'

theorem isWord_of_isStop {c : Char} (hc : isStop c = true) : isWord c = false := by
  grind [isStop]

theorem isDigit_of_isStop {c : Char} (hc : isStop c = true) : isDigit c = false := by
  grind [isStop]

theorem isStop_of_mem_padCodes {c : Char} (hc : c.toNat ∈ padCodes) : isStop c = true := by
  have hall : padCodes.all (fun n => isStop (Char.ofNat n)) = true := by decide +kernel
  have hstop := List.all_eq_true.1 hall _ hc
  rwa [Char.ofNat_toNat] at hstop

namespace IsPadding

variable {pad : List Char}

theorem nil : IsPadding [] := ⟨by simp, by simp⟩

theorem tail {c : Char} (hpad : IsPadding (c :: pad)) (hblank : isBlank c = true) :
    IsPadding pad := by
  obtain ⟨hfeed, hcomment⟩ := hpad
  rw [List.dropWhile_cons_of_pos hblank] at hcomment
  exact ⟨List.not_mem_of_not_mem_cons hfeed, hcomment⟩

theorem toNat_head {c : Char} (hpad : IsPadding (c :: pad)) (hblank : ¬isBlank c = true) :
    c.toNat = 0x27 := by
  have hcomment := hpad.blankOrComment
  rw [List.dropWhile_cons_of_neg hblank] at hcomment
  exact hcomment c rfl

/-- The start of padding is padding. -/
theorem of_append {rest : List Char} (hpad : IsPadding (pad ++ rest)) : IsPadding pad := by
  induction pad with
  | nil => exact nil
  | cons c pad ih =>
    have hfeed : '\n' ∉ c :: pad := fun hmem => hpad.oneLine (List.mem_append_left rest hmem)
    by_cases hblank : isBlank c = true
    · refine ⟨hfeed, ?_⟩
      rw [List.dropWhile_cons_of_pos hblank]
      exact (ih (hpad.tail hblank)).blankOrComment
    · refine ⟨hfeed, ?_⟩
      rw [List.dropWhile_cons_of_neg hblank]
      rintro _ ⟨⟩
      exact hpad.toNat_head hblank

theorem isStop_head (hpad : IsPadding pad) : ∀ c ∈ pad.head?, isStop c = true := by
  cases pad with
  | nil => simp
  | cons c pad =>
    rintro _ ⟨⟩
    apply isStop_of_mem_padCodes
    by_cases hblank : isBlank c = true
    · exact mem_padCodes_of_isBlank hblank
    · rw [hpad.toNat_head hblank]
      decide

end IsPadding

/-! ## Tokens in front of padding -/

section Lexemes

variable {pad : List Char}

theorem takeWhile_append_of_head {p : Char → Bool} (hpad : ∀ c ∈ pad.head?, p c = false)
    (cs : List Char) : (cs ++ pad).takeWhile p = cs.takeWhile p := by
  have hnone : ([] ++ pad).takeWhile p = [] := takeWhile_append (by simp) hpad
  rw [List.nil_append] at hnone
  rw [List.takeWhile_append, hnone, List.append_nil]
  split_ifs with hall
  · exact ((List.takeWhile_prefix p).eq_of_length hall).symm
  · rfl

theorem numberLength_append (hpad : ∀ c ∈ pad.head?, isStop c = true) (cs : List Char) :
    numberLength (cs ++ pad) = numberLength cs := by
  have hdigit : ∀ c ∈ pad.head?, isDigit c = false := fun c hc => isDigit_of_isStop (hpad c hc)
  have hwhole : (cs.takeWhile isDigit).length ≤ cs.length := (List.takeWhile_prefix _).length_le
  simp only [numberLength, takeWhile_append_of_head hdigit, List.drop_append_of_le_length hwhole]
  cases cs.drop (cs.takeWhile isDigit).length with
  | cons c rest =>
    by_cases hpoint : c = '.'
    · subst hpoint
      simp only [List.cons_append, takeWhile_append_of_head hdigit]
    · simp [hpoint]
  | nil =>
    cases pad with
    | nil => rfl
    | cons c pad =>
      have hpoint : c ≠ '.' := by
        rintro rfl
        cases hpad '.' rfl
      simp [hpoint]

theorem length_takeWhile_lt {p : Char → Bool} {cs : List Char} {c : Char} (hmem : c ∈ cs)
    (hc : p c = false) : (cs.takeWhile p).length < cs.length := by
  refine lt_of_le_of_ne (List.takeWhile_prefix p).length_le fun hlength => ?_
  have hall := @List.all_takeWhile _ p cs
  rw [(List.takeWhile_prefix p).eq_of_length hlength] at hall
  cases (List.all_eq_true.1 hall c hmem).symm.trans hc

theorem stringLength_append {cs : List Char} (hquote : '"' ∈ cs) :
    stringLength (cs ++ pad) = stringLength cs := by
  have hlt : (cs.takeWhile (· != '"')).length < cs.length := length_takeWhile_lt hquote (by simp)
  rw [stringLength, stringLength, List.takeWhile_append, if_neg hlt.ne, List.length_append]
  omega

/-- Padding goes on with nothing that has characters of another kind. -/
theorem isPrefixOf_append {mark : List Char} (hpad : ∀ c ∈ pad.head?, isStop c = true)
    (hmark : ∀ c ∈ mark, isStop c = false) (cs : List Char) :
    mark.isPrefixOf (cs ++ pad) = mark.isPrefixOf cs := by
  induction cs generalizing mark with
  | nil =>
    cases mark with
    | nil => simp
    | cons first mark =>
      cases pad with
      | nil => rfl
      | cons c pad =>
        have hne : first ≠ c := by
          rintro rfl
          cases (hmark first List.mem_cons_self).symm.trans (hpad first rfl)
        simp only [List.nil_append, List.isPrefixOf, beq_eq_false_iff_ne.2 hne, Bool.false_and]
  | cons c cs ih =>
    cases mark with
    | nil => rfl
    | cons first mark =>
      rw [List.cons_append, List.isPrefixOf, List.isPrefixOf,
        ih fun d hd => hmark d (List.mem_cons_of_mem _ hd)]

theorem fixedMark?_append (hpad : ∀ c ∈ pad.head?, isStop c = true) (c : Char) (cs : List Char) :
    fixedMark? (c :: (cs ++ pad)) = fixedMark? (c :: cs) := by
  -- Only what follows the first character of a mark could be padding.
  have hmarks : ∀ entry ∈ fixedMarks,
      entry.1 ≠ [] ∧ (entry.1.tail.all fun d => !isStop d) = true := by
    decide +kernel
  refine fixedMark?_congr fun entry hentry => ?_
  obtain ⟨hne, htail⟩ := hmarks entry hentry
  obtain ⟨first, mark, hmark⟩ := List.exists_cons_of_ne_nil hne
  rw [hmark, List.tail_cons] at htail
  have hstop : ∀ d ∈ mark, isStop d = false := fun d hd => by
    simpa using List.all_eq_true.1 htail d hd
  rw [hmark, List.isPrefixOf, List.isPrefixOf, isPrefixOf_append hpad hstop]

theorem markKind?_append (hpad : ∀ c ∈ pad.head?, isStop c = true) {cs : List Char}
    {kind : Token.Kind} {length : Nat} (hmark : markKind? cs = some (kind, length))
    (hcomment : kind ≠ .comment) (hstring : kind = .string → '"' ∈ cs.tail) :
    markKind? (cs ++ pad) = some (kind, length) := by
  cases cs with
  | nil => cases hmark
  | cons c cs =>
    rw [List.cons_append]
    rw [markKind?] at hmark ⊢
    split_ifs at hmark with hopens hapostrophe
    · cases hmark
      have hquote : '"' ∈ cs := hstring rfl
      rw [if_pos hopens, stringLength_append hquote]
    · cases hmark
      exact absurd rfl hcomment
    · rw [if_neg hopens, if_neg hapostrophe, fixedMark?_append hpad, hmark]

theorem lexeme?_append (hpad : ∀ c ∈ pad.head?, isStop c = true) {cs : List Char}
    {kind : Token.Kind} {length : Nat} (hlexeme : lexeme? cs = some (kind, length))
    (hcomment : kind ≠ .comment) (hstring : kind = .string → '"' ∈ cs.tail) :
    lexeme? (cs ++ pad) = some (kind, length) := by
  have hword : ∀ c ∈ pad.head?, isWord c = false := fun c hc => isWord_of_isStop (hpad c hc)
  rw [← hlexeme]
  simp only [lexeme?, takeWhile_append_of_head hword, numberLength_append hpad] at hlexeme ⊢
  cases hkind : wordKind? (cs.takeWhile isWord) with
  | some word => rfl
  | none =>
    simp only [hkind] at hlexeme ⊢
    split_ifs at hlexeme ⊢
    · rfl
    · rw [hlexeme, markKind?_append hpad hlexeme hcomment hstring]

end Lexemes

/-! ## Comments -/

/-- A comment goes on to the end of its line. -/
theorem lexeme?_comment {rest : List Char} (hfeed : '\n' ∉ rest) :
    lexeme? (Char.ofNat 0x27 :: rest) = some (.comment, rest.length + 1) := by
  have hrest : (rest ++ []).takeWhile (· != '\n') = rest :=
    takeWhile_append (fun c hc => by grind) (by simp)
  rw [List.append_nil] at hrest
  rw [lexeme?_mark (by decide) (by decide) (by decide)]
  show some (_, 1 + (rest.takeWhile (· != '\n')).length) = _
  rw [hrest, Nat.add_comm]

/-! ## Settled lines -/

/-- Whether a token does not depend on what follows it: it starts with what can start one, and if it
is a string, it is closed. -/
def Token.isSettled (token : Token) : Bool :=
  match token.kind with
  | .unexpected => false
  | .string => 2 ≤ token.text.toList.length && token.text.toList.getLast? == some '"'
  | _ => true

/-- The line has neither an unclosed string nor an unexpected token. -/
def Settled (line : List Char) : Prop := ∀ token ∈ scanFrom true 0 0 0 line, token.isSettled = true

instance (line : List Char) : Decidable (Settled line) :=
  inferInstanceAs (Decidable (∀ token ∈ scanFrom true 0 0 0 line, token.isSettled = true))

/-- A closed string has a second quotation mark. -/
theorem quote_mem_of_isSettled {cs : List Char} {length line column : Nat}
    (hlexeme : lexeme? cs = some (.string, length))
    (hsettled : Token.isSettled ⟨.string, String.ofList (cs.take length), line, column⟩ = true) :
    '"' ∈ cs.tail := by
  obtain ⟨rest, rfl, rfl⟩ := exists_cons_of_string (markKind?_of_lexeme? hlexeme (.inl rfl))
  simp only [Token.isSettled, String.toList_ofList, Bool.and_eq_true, decide_eq_true_eq,
    beq_iff_eq, Nat.add_comm 1, List.take_succ_cons, List.length_cons] at hsettled
  obtain ⟨hlength, hlast⟩ := hsettled
  rw [List.getLast?_cons] at hlast
  cases hinner : (rest.take (stringLength rest)).getLast? with
  | none =>
    rw [List.getLast?_eq_none_iff.1 hinner] at hlength
    simp at hlength
  | some c =>
    rw [hinner] at hlast
    obtain rfl : c = '"' := Option.some.inj hlast
    exact List.mem_of_mem_take (List.mem_of_getLast? hinner)

/-- Nothing is left to read once a token has taken the rest of the line. -/
theorem scanFrom_of_length_le {cs : List Char} {passed : Nat} (hpassed : cs.length ≤ passed)
    (line column : Nat) : scanFrom true line passed column cs = [] := by
  induction cs generalizing passed column with
  | nil => cases passed <;> rfl
  | cons c cs ih =>
    rw [List.length_cons] at hpassed
    obtain ⟨passed, rfl⟩ := Nat.exists_eq_add_one_of_ne_zero (by omega : passed ≠ 0)
    exact ih (by omega) (column + 1)

/-- A comment is the last token of its line. -/
theorem scanFrom_comment {rest : List Char} (hfeed : '\n' ∉ rest) (line column : Nat) :
    (scanFrom true line 0 column (Char.ofNat 0x27 :: rest)).filter (·.kind != .comment) = [] := by
  rw [scanFrom_token (by decide) (lexeme?_comment hfeed), Nat.add_sub_cancel,
    scanFrom_of_length_le (Nat.le_refl _)]
  rfl

/-- Padding has no tokens that count. -/
theorem scanFrom_padding {pad : List Char} (hpad : IsPadding pad) (line column : Nat) :
    (scanFrom true line 0 column pad).filter (·.kind != .comment) = [] := by
  induction pad generalizing column with
  | nil => rfl
  | cons c pad ih =>
    by_cases hblank : isBlank c = true
    · rw [scanFrom_blank hblank]
      exact ih (hpad.tail hblank) (column + 1)
    · obtain rfl : c = Char.ofNat 0x27 := by
        rw [← hpad.toNat_head hblank, Char.ofNat_toNat]
      exact scanFrom_comment (List.not_mem_of_not_mem_cons hpad.oneLine) line column

/-- What is left of a settled line has the same tokens with padding after it. -/
theorem scanFrom_append {pad : List Char} (hpad : IsPadding pad) {cs : List Char}
    (hfeed : '\n' ∉ cs) {line passed column : Nat} (hpassed : passed ≤ cs.length)
    (hsettled : ∀ token ∈ scanFrom true line passed column cs, token.isSettled = true) :
    (scanFrom true line passed column (cs ++ pad)).filter (·.kind != .comment) =
      (scanFrom true line passed column cs).filter (·.kind != .comment) := by
  induction passed, column, cs using scan_induction with
  | nil passed column =>
    obtain rfl : passed = 0 := Nat.le_zero.1 hpassed
    exact scanFrom_padding hpad line column
  | pass passed column c cs ih =>
    exact ih (List.not_mem_of_not_mem_cons hfeed) (Nat.le_of_succ_le_succ hpassed) hsettled
  | blank column c cs hblank ih =>
    rw [scanFrom_blank hblank] at hsettled
    rw [List.cons_append, scanFrom_blank hblank, scanFrom_blank hblank]
    exact ih (List.not_mem_of_not_mem_cons hfeed) (Nat.zero_le _) hsettled
  | token column c cs kind length hblank hlexeme ih =>
    have hrest : '\n' ∉ cs := List.not_mem_of_not_mem_cons hfeed
    rw [scanFrom_token hblank hlexeme] at hsettled
    obtain ⟨hfirst, hmore⟩ := List.forall_mem_cons.1 hsettled
    by_cases hcomment : kind = .comment
    · -- A comment takes in the padding, and neither line has tokens after it.
      subst hcomment
      obtain ⟨rest, heq⟩ := exists_cons_of_comment (markKind?_of_lexeme? hlexeme (.inr rfl))
      cases heq
      have hboth : '\n' ∉ cs ++ pad := by simp [hrest, hpad.oneLine]
      rw [List.cons_append, scanFrom_comment hboth, scanFrom_comment hrest]
    · have hlength := length_le_of_lexeme? hlexeme
      have hsame := lexeme?_append hpad.isStop_head hlexeme hcomment (by
        rintro rfl
        exact quote_mem_of_isSettled hlexeme hfirst)
      have htake : (c :: cs ++ pad).take length = (c :: cs).take length :=
        List.take_append_of_le_length hlength
      rw [List.cons_append] at hsame htake ⊢
      rw [List.length_cons] at hlength
      rw [scanFrom_token hblank hsame, scanFrom_token hblank hlexeme, htake, List.filter_cons,
        List.filter_cons, ih hrest (by omega) hmore]
  | unexpected column c cs hblank hlexeme =>
    rw [scanFrom_unexpected hblank hlexeme] at hsettled
    cases hsettled _ (List.mem_singleton_self _)

/-- A settled line has the same tokens with padding after it. -/
theorem tokenize_append {line pad : List Char} (hfeed : '\n' ∉ line) (hsettled : Settled line)
    (hpad : IsPadding pad) :
    tokenize 0 (String.ofList (line ++ pad)) = tokenize 0 (String.ofList line) := by
  rw [tokenize_eq_filter, tokenize_eq_filter, scan, scan, String.toList_ofList,
    String.toList_ofList]
  exact scanFrom_append hpad hfeed (Nat.zero_le _) hsettled

end SmallBasic
