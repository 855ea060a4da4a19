import Mathlib.Data.List.DropRight
import SmallBasic.Proofs.Numerals

/-!
# Respacing

The texts of the tokens of a line, with blanks between them, are read as the same tokens again.
On the line itself tokens may touch, and what a token is may depend on what stands behind it: a
longer word, number or operator is read before a shorter one. But what was read is read again from
its own text, and a blank ends every token that another one can follow. Only an unclosed string and
a text that starts no token would go on over the blank, and they are the last on their line.

## Main definitions

* `Spaced` — texts with blanks between them.
* `Token.spelling` — what a token is, wherever it stands.

## Main statements

* `lexeme?_take` — a lexeme is recognised without what follows it.
* `Token.Starts.alone` — a token is read from its own text alone.
* `isSettled_of_mem_dropLast` — a token that another one follows does not depend on what that is.
* `tokenize_respaced` — reading a line again is stable.
-/

namespace SmallBasic

/-! ## A lexeme without what follows it -/

theorem stringLength_take (cs : List Char) :
    stringLength (cs.take (stringLength cs)) = stringLength cs := by
  have hle : (cs.takeWhile (· != '"')).length ≤ cs.length := (List.takeWhile_prefix _).length_le
  simp only [stringLength, ← List.take_takeWhile, List.length_take]
  omega

/-- Digits and points start no word. -/
theorem IsNumeral.wordKind?_eq {cs : List Char} (hcs : IsNumeral cs) :
    wordKind? (cs.takeWhile isWord) = none := by
  by_contra hsome
  obtain ⟨kind, hkind⟩ := Option.ne_none_iff_exists'.1 hsome
  obtain ⟨c, hc, hstart⟩ := head_of_wordKind? hkind
  have hnot : isDigit c = false ∧ c ≠ '.' := by
    rcases hstart with hstart | rfl
    · refine ⟨isDigit_of_isNameStart hstart, ?_⟩
      rintro rfl
      cases hstart
    · decide
  have hmem : c ∈ cs := (List.takeWhile_prefix isWord).subset (List.mem_of_mem_head? hc)
  rcases hcs.isDigit_or_eq_point c hmem with hdigit | hpoint
  · cases hnot.1.symm.trans hdigit
  · exact hnot.2 hpoint

/-- A numeral is a number by itself. -/
theorem IsNumeral.lexeme?_eq {cs : List Char} (hcs : IsNumeral cs) :
    lexeme? cs = some (.number, cs.length) := by
  simp only [lexeme?, hcs.wordKind?_eq, hcs.numberLength_eq,
    if_pos (List.length_pos_iff.2 hcs.ne_nil)]

/-- A mark is recognised without what follows it. A point by itself is no number, whatever follows
it on the line. -/
theorem lexeme?_take_of_markKind? {cs : List Char} {kind : Token.Kind} {length : Nat}
    (hmark : markKind? cs = some (kind, length)) :
    lexeme? (cs.take length) = some (kind, length) := by
  rcases markKind?_cases hmark with
    ⟨rest, rfl, rfl, rfl⟩ | ⟨rest, rfl, rfl, rfl⟩ | ⟨mark, rest, rfl, hmem, rfl⟩
  · rw [Nat.add_comm, List.take_succ_cons, lexeme?_mark (by decide) (by decide) (by decide)]
    show some (_, 1 + stringLength (rest.take (stringLength rest))) = _
    rw [stringLength_take, Nat.add_comm]
  · rw [Nat.add_comm, List.take_succ_cons, lexeme?_mark (by decide) (by decide) (by decide),
      take_length_takeWhile]
    show some (_, 1 + ((rest.takeWhile (· != '\n')).takeWhile (· != '\n')).length) = _
    rw [List.takeWhile_idem, Nat.add_comm]
  · rw [List.take_left]
    have hall : ∀ entry ∈ fixedMarks, lexeme? entry.1 = some (entry.2, entry.1.length) := by
      decide +kernel
    exact hall (mark, kind) hmem

/-- A lexeme is recognised without what follows it. -/
theorem lexeme?_take {cs : List Char} {kind : Token.Kind} {length : Nat}
    (hlexeme : lexeme? cs = some (kind, length)) :
    lexeme? (cs.take length) = some (kind, length) := by
  rcases lexeme?_cases hlexeme with ⟨hword, rfl⟩ | ⟨rfl, hnumber, rfl⟩ | hmark
  · have hrun := List.all_eq_true.1 (@List.all_takeWhile _ isWord cs)
    have halone := @lexeme?_word _ [] _ hrun hword (by simp)
    rw [List.append_nil] at halone
    rw [take_length_takeWhile, halone]
  · rw [(isNumeral_take hnumber).lexeme?_eq, List.length_take_of_le (numberLength_le cs)]
  · exact lexeme?_take_of_markKind? hmark

/-! ## A rest without the blanks that end it -/

theorem isStop_of_blanks {gap : List Char} (hgap : ∀ c ∈ gap, isBlank c = true) :
    ∀ c ∈ gap.head?, isStop c = true := fun c hc =>
  isStop_of_mem_padCodes (mem_padCodes_of_isBlank (hgap c (List.mem_of_mem_head? hc)))

theorem trimEnd_trimEnd (cs : List Char) : trimEnd (trimEnd cs) = trimEnd cs := by
  simp only [trimEnd, List.reverse_reverse, List.dropWhile_idempotent]

/-- Where no lexeme stands, cutting off blanks at the end lets none stand there. -/
theorem lexeme?_trimEnd {cs : List Char} (hnone : lexeme? cs = none) :
    lexeme? (trimEnd cs) = none := by
  by_contra hsome
  obtain ⟨⟨kind, length⟩, hlexeme⟩ := Option.ne_none_iff_exists'.1 hsome
  obtain ⟨gap, hcut, hgap⟩ := exists_trimEnd_append cs
  rw [hcut] at hnone
  by_cases hopen : kind = .string ∨ kind = .comment
  · -- What follows makes a string or a comment longer, but does not undo it.
    have hmark := markKind?_of_lexeme? hlexeme hopen
    rcases hopen with rfl | rfl
    · obtain ⟨rest, hrest, -⟩ := exists_cons_of_string hmark
      rw [hrest, List.cons_append, lexeme?_mark (by decide) (by decide) (by decide)] at hnone
      cases hnone
    · obtain ⟨rest, hrest⟩ := exists_cons_of_comment hmark
      rw [hrest, List.cons_append, lexeme?_mark (by decide) (by decide) (by decide)] at hnone
      cases hnone
  · have hsame := lexeme?_append (isStop_of_blanks hgap) hlexeme (fun hkind => hopen (.inr hkind))
      fun hkind => absurd (.inl hkind) hopen
    cases hnone.symm.trans hsame

namespace Token.Starts

variable {token : Token} {cs : List Char}

/-- A token is read from its own text alone. -/
theorem alone (hstarts : token.Starts cs) : token.Starts token.text.toList := by
  have hprefix := hstarts.isPrefix
  cases hstarts with
  | @lexeme c cs hblank hlexeme _ =>
    have hpos := length_pos_of_lexeme? hlexeme
    have htake := lexeme?_take hlexeme
    rw [← List.prefix_iff_eq_take.1 hprefix] at htake
    cases htext : token.text.toList with
    | nil => simp [htext] at hpos
    | cons d ds =>
      obtain ⟨rfl, -⟩ := List.cons_prefix_cons.1 (htext ▸ hprefix)
      exact .lexeme hblank (htext ▸ htake) (htext ▸ List.prefix_rfl)
  | @unexpected c cs hblank hnone hkind htrim =>
    have hne : trimEnd (c :: cs) ≠ [] := trimEnd_ne_nil (by simp [hblank]) cs
    cases htext : token.text.toList with
    | nil => exact absurd (htrim.symm.trans htext) hne
    | cons d ds =>
      obtain ⟨rfl, -⟩ := List.cons_prefix_cons.1 (htext ▸ hprefix)
      rw [htext] at htrim
      refine .unexpected hblank ?_ hkind ?_
      · rw [htrim]
        exact lexeme?_trimEnd hnone
      · rw [htext, htrim, trimEnd_trimEnd]

end Token.Starts

/-! ## Tokens that something follows -/

/-- A string that ends before its line does ends with a quotation mark. -/
theorem take_stringLength {rest : List Char} (hlength : stringLength rest < rest.length) :
    rest.take (stringLength rest) = rest.takeWhile (· != '"') ++ ['"'] := by
  have hsplit := @List.takeWhile_append_dropWhile _ (· != '"') rest
  have hquote := List.head?_dropWhile_not (· != '"') rest
  generalize hinner : rest.takeWhile (· != '"') = inner at hsplit ⊢
  have hend : stringLength rest = inner.length + 1 := by
    simp only [stringLength, hinner] at hlength ⊢
    omega
  cases hdrop : rest.dropWhile (· != '"') with
  | nil =>
    rw [hdrop, List.append_nil] at hsplit
    rw [hend, hsplit] at hlength
    omega
  | cons d more =>
    obtain rfl : d = '"' := by simpa [hdrop] using hquote
    calc rest.take (stringLength rest)
      _ = (inner ++ '"' :: more).take (inner.length + 1) := by rw [hend, ← hdrop, hsplit]
      _ = inner ++ ['"'] := by rw [List.take_length_add_append]; rfl

/-- A token that does not take the rest of its line does not depend on what follows it. -/
theorem isSettled_of_lexeme? {cs : List Char} {kind : Token.Kind} {length : Nat}
    (hlexeme : lexeme? cs = some (kind, length)) (hlength : length < cs.length)
    (line column : Nat) :
    Token.isSettled ⟨kind, String.ofList (cs.take length), line, column⟩ = true := by
  by_cases hstring : kind = .string
  · subst hstring
    obtain ⟨rest, rfl, rfl⟩ := exists_cons_of_string (markKind?_of_lexeme? hlexeme (.inl rfl))
    have hclosed : (('"' :: rest).take (1 + stringLength rest)) =
        '"' :: (rest.takeWhile (· != '"') ++ ['"']) := by
      rw [List.length_cons] at hlength
      rw [Nat.add_comm, List.take_succ_cons, take_stringLength (by omega)]
    simp only [Token.isSettled, hclosed, String.toList_ofList, ← List.cons_append,
      List.getLast?_concat]
    simp
  · have hunexpected := kind_ne_unexpected_of_lexeme? hlexeme
    unfold Token.isSettled
    grind

/-- A token that another one follows does not depend on what that is. -/
theorem isSettled_of_mem_dropLast (line passed column : Nat) (cs : List Char) :
    ∀ token ∈ (scanFrom true line passed column cs).dropLast, token.isSettled = true := by
  induction passed, column, cs using scan_induction with
  | nil passed column => cases passed <;> simp [scanFrom]
  | pass passed column c cs ih => exact ih
  | blank column c cs hblank ih => rwa [scanFrom_blank hblank]
  | token column c cs kind length hblank hlexeme ih =>
    rw [scanFrom_token hblank hlexeme]
    cases hmore : scanFrom true line (length - 1) (column + 1) cs with
    | nil => simp
    | cons next more =>
      have hlength : length < (c :: cs).length := by
        by_contra hle
        rw [List.length_cons] at hle
        rw [scanFrom_of_length_le (by omega)] at hmore
        cases hmore
      rw [List.dropLast_cons_cons]
      exact List.forall_mem_cons.2
        ⟨isSettled_of_lexeme? hlexeme hlength line column, hmore ▸ ih⟩
  | unexpected column c cs hblank hlexeme => simp [scanFrom_unexpected hblank hlexeme]

theorem dropLast_sublist_dropLast {α : Type} {xs ys : List α} (hsub : xs.Sublist ys) :
    xs.dropLast.Sublist ys.dropLast := by
  have htail := hsub.reverse.tail
  rwa [List.tail_reverse, List.tail_reverse, List.reverse_sublist] at htail

/-! ## Respacing -/

/-- The texts in order, with one blank or more between each two of them. -/
inductive Spaced : List String → List Char → Prop
  | nil : Spaced [] []
  | last (text : String) : Spaced [text] text.toList
  | cons {text next : String} {rest : List String} {cs : List Char} (gap : List Char)
      (hne : gap ≠ []) (hgap : ∀ c ∈ gap, isBlank c = true) (hrest : Spaced (next :: rest) cs) :
      Spaced (text :: next :: rest) (text.toList ++ (gap ++ cs))

/-- Kind and text of a token, without its place. -/
def Token.spelling (token : Token) : Token.Kind × String := (token.kind, token.text)

theorem scanFrom_gap {gap : List Char} (hgap : ∀ c ∈ gap, isBlank c = true) (line column : Nat)
    (cs : List Char) :
    scanFrom true line 0 column (gap ++ cs) = scanFrom true line 0 (column + gap.length) cs := by
  induction gap generalizing column with
  | nil => rfl
  | cons c gap ih =>
    obtain ⟨hc, hrest⟩ := List.forall_mem_cons.1 hgap
    rw [List.cons_append, scanFrom_blank hc, ih hrest, List.length_cons, Nat.add_right_comm,
      Nat.add_assoc]

namespace Token.Starts

variable {token : Token}

theorem exists_text_eq_cons (hstarts : token.Starts token.text.toList) :
    ∃ c cs, token.text.toList = c :: cs ∧ isBlank c = false := by
  generalize token.text.toList = text at hstarts
  cases hstarts with
  | lexeme hblank => exact ⟨_, _, rfl, hblank⟩
  | unexpected hblank => exact ⟨_, _, rfl, hblank⟩

theorem lexeme_or_unexpected {cs : List Char} (hstarts : token.Starts cs) :
    lexeme? cs = some (token.kind, token.text.toList.length) ∨
      lexeme? cs = none ∧ token.kind = .unexpected ∧ token.text.toList = trimEnd cs := by
  cases hstarts with
  | lexeme _ hlexeme => exact .inl hlexeme
  | unexpected _ hnone hkind htrim => exact .inr ⟨hnone, hkind, htrim⟩

/-- The token that starts a text is what is read first. -/
theorem scanFrom_first (hstarts : token.Starts token.text.toList) {rest : List Char}
    (hlexeme : lexeme? (token.text.toList ++ rest) =
      some (token.kind, token.text.toList.length)) (line column : Nat) :
    scanFrom true line 0 column (token.text.toList ++ rest) =
      ⟨token.kind, token.text, line, column⟩ ::
        scanFrom true line 0 (column + token.text.toList.length) rest := by
  obtain ⟨c, cs, htext, hblank⟩ := hstarts.exists_text_eq_cons
  have hstring : String.ofList (c :: cs) = token.text := by rw [← htext, String.ofList_toList]
  rw [htext] at hlexeme ⊢
  rw [scanFrom_text hblank hlexeme, hstring]

/-- A token that is all of a text is all that is read from it. -/
theorem scanFrom_alone (hstarts : token.Starts token.text.toList) (line column : Nat) :
    scanFrom true line 0 column token.text.toList = [⟨token.kind, token.text, line, column⟩] := by
  rcases hstarts.lexeme_or_unexpected with hlexeme | ⟨hnone, hkind, htrim⟩
  · have hfirst : lexeme? (token.text.toList ++ []) =
        some (token.kind, token.text.toList.length) := by rwa [List.append_nil]
    have hread := hstarts.scanFrom_first hfirst line column
    rwa [List.append_nil] at hread
  · obtain ⟨c, cs, htext, hblank⟩ := hstarts.exists_text_eq_cons
    rw [htext] at hnone htrim
    rw [htext, scanFrom_unexpected (by simp [hblank]) hnone, ← htrim, ← htext,
      String.ofList_toList, hkind]

/-- A settled token is read in front of a blank as it is read from its own text. -/
theorem scanFrom_append (hstarts : token.Starts token.text.toList)
    (hsettled : token.isSettled = true) (hcomment : token.kind ≠ .comment) {pad : List Char}
    (hpad : ∀ c ∈ pad.head?, isStop c = true) (line column : Nat) :
    scanFrom true line 0 column (token.text.toList ++ pad) =
      ⟨token.kind, token.text, line, column⟩ ::
        scanFrom true line 0 (column + token.text.toList.length) pad := by
  rcases hstarts.lexeme_or_unexpected with hlexeme | ⟨-, hkind, -⟩
  · refine hstarts.scanFrom_first (lexeme?_append hpad hlexeme hcomment fun hkind => ?_) line column
    have hclosed : Token.isSettled ⟨.string, String.ofList (token.text.toList.take
        token.text.toList.length), token.line, token.column⟩ = true := by
      rw [List.take_length, String.ofList_toList, ← hkind]
      exact hsettled
    rw [hkind] at hlexeme
    exact quote_mem_of_isSettled hlexeme hclosed
  · simp [Token.isSettled, hkind] at hsettled

end Token.Starts

/-- Tokens that are read from their own texts are read from these texts with blanks between them. -/
theorem map_spelling_scanFrom {tokens : List Token} {joined : List Char}
    (hspaced : Spaced (tokens.map Token.text) joined)
    (hstarts : ∀ token ∈ tokens, token.Starts token.text.toList)
    (hsettled : ∀ token ∈ tokens.dropLast, token.isSettled = true)
    (hcomment : ∀ token ∈ tokens, token.kind ≠ .comment) (line column : Nat) :
    (scanFrom true line 0 column joined).map Token.spelling = tokens.map Token.spelling := by
  induction tokens generalizing joined column with
  | nil =>
    cases hspaced
    rfl
  | cons token tokens ih =>
    obtain ⟨hfirst, hstarts⟩ := List.forall_mem_cons.1 hstarts
    obtain ⟨hkind, hcomment⟩ := List.forall_mem_cons.1 hcomment
    cases tokens with
    | nil =>
      cases hspaced
      rw [hfirst.scanFrom_alone]
      rfl
    | cons next tokens =>
      rw [List.dropLast_cons_cons] at hsettled
      obtain ⟨hclosed, hsettled⟩ := List.forall_mem_cons.1 hsettled
      cases hspaced with
      | @cons _ _ _ cs gap hne hgap hrest =>
        have hpad : ∀ c ∈ (gap ++ cs).head?, isStop c = true := by
          rw [List.head?_append_of_ne_nil _ hne]
          exact isStop_of_blanks hgap
        rw [hfirst.scanFrom_append hclosed hkind hpad, scanFrom_gap hgap, List.map_cons,
          ih hrest hstarts hsettled hcomment]
        rfl

/-- Reading a line again is stable. The texts of its tokens, without the comments, give tokens of
the same kinds with the same texts in the same order, with whatever blanks between them. -/
theorem tokenize_respaced {line other : Nat} {text joined : String}
    (hspaced : Spaced ((tokenize line text).map Token.text) joined.toList) :
    (tokenize other joined).map Token.spelling = (tokenize line text).map Token.spelling := by
  have hstarts : ∀ token ∈ tokenize line text, token.Starts token.text.toList := by
    intro token htoken
    obtain ⟨-, rest, -, -, hstarts⟩ := exists_starts_of_mem_scan (mem_tokenize_iff.1 htoken).1
    exact hstarts.alone
  have hsettled : ∀ token ∈ (tokenize line text).dropLast, token.isSettled = true := by
    intro token htoken
    have hsub : (tokenize line text).Sublist (scan line text) := by
      rw [tokenize_eq_filter]
      exact List.filter_sublist
    exact isSettled_of_mem_dropLast line 0 0 text.toList token
      ((dropLast_sublist_dropLast hsub).subset htoken)
  have hcomment : ∀ token ∈ tokenize line text, token.kind ≠ .comment :=
    fun token htoken => (mem_tokenize_iff.1 htoken).2
  have hread := map_spelling_scanFrom hspaced hstarts hsettled hcomment other 0
  -- No comment is read from the joined texts either, so that nothing is left out.
  have hall : tokenize other joined = scan other joined := by
    rw [tokenize_eq_filter]
    refine List.filter_eq_self.2 fun token htoken => bne_iff_ne.2 ?_
    have hspelling : token.spelling ∈ (tokenize line text).map Token.spelling := by
      rw [← hread]
      exact List.mem_map_of_mem htoken
    obtain ⟨same, hsame, heq⟩ := List.mem_map.1 hspelling
    have hkind : same.kind = token.kind := congrArg Prod.fst heq
    rw [← hkind]
    exact hcomment same hsame
  rw [hall]
  exact hread

/-- A number, a point, a reserved word, an operator, a string and a rest that cannot be read, which
touch on the line. -/
theorem tokenize_respaced_touching :
    Spaced ((tokenize 0 "1.5.If<>\"a\"? b ").map Token.text)
        "1.5\t. \n If\u3000<> \"a\"  ? b".toList ∧
      (tokenize 7 "1.5\t. \n If\u3000<> \"a\"  ? b").map Token.spelling =
        (tokenize 0 "1.5.If<>\"a\"? b ").map Token.spelling := by
  have htexts : (tokenize 0 "1.5.If<>\"a\"? b ").map Token.text =
      ["1.5", ".", "If", "<>", "\"a\"", "? b"] := by decide +kernel
  have hspaced : Spaced ["1.5", ".", "If", "<>", "\"a\"", "? b"]
      "1.5\t. \n If\u3000<> \"a\"  ? b".toList :=
    .cons ['\t'] (by simp) (List.all_eq_true.1 (by decide)) <|
    .cons [' ', '\n', ' '] (by simp) (List.all_eq_true.1 (by decide)) <|
    .cons ['\u3000'] (by simp) (List.all_eq_true.1 (by decide)) <|
    .cons [' '] (by simp) (List.all_eq_true.1 (by decide)) <|
    .cons [' ', ' '] (by simp) (List.all_eq_true.1 (by decide)) (.last "? b")
  rw [← htexts] at hspaced
  exact ⟨hspaced, tokenize_respaced hspaced⟩

end SmallBasic
