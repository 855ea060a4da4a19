import SmallBasic.Proofs.Padding

/-!
# Every character is accounted for

The tokens of a line cover all of it but blanks. Reading goes from left to right and never looks
back: a token takes up at least one character, the next one is looked for behind it, and only blanks
are passed over on the way. What starts no token is a token of its own, which takes the rest of the
line with it.

## Main definitions

* `Covers` — a text is made of tokens with blanks before, between and after them.

## Main statements

* `covers_scanFrom` — the tokens that are read cover what they are read from.
* `Covers.pairwise_endColumn_le` — tokens that cover a text stand one behind the other.
* `scan_accounts` — reading a line loses nothing.
-/

namespace SmallBasic

/-! ## Covering a text -/

/-- From a column on, the text consists of the tokens in order, with blanks before, between and
after them. No token is empty, and each has the column at which it starts. -/
inductive Covers : (column : Nat) → List Char → List Token → Prop
  | blanks {column : Nat} {gap : List Char} (hgap : ∀ c ∈ gap, isBlank c = true) :
      Covers column gap []
  | token {column : Nat} {gap rest : List Char} {token : Token} {tokens : List Token}
      (hgap : ∀ c ∈ gap, isBlank c = true) (htext : token.text ≠ "")
      (hcolumn : token.column = column + gap.length)
      (hrest : Covers token.endColumn rest tokens) :
      Covers column (gap ++ (token.text.toList ++ rest)) (token :: tokens)

namespace Covers

variable {column : Nat} {text : List Char} {tokens : List Token} {token : Token}

/-- A blank before a text adds to the first gap. -/
theorem cons_blank {c : Char} (hblank : isBlank c = true)
    (hcovers : Covers (column + 1) text tokens) : Covers column (c :: text) tokens := by
  cases hcovers with
  | blanks hgap => exact .blanks (List.forall_mem_cons.2 ⟨hblank, hgap⟩)
  | @token _ gap rest token tokens hgap htext hcolumn hrest =>
    have hlonger : Covers column ((c :: gap) ++ (token.text.toList ++ rest)) (token :: tokens) :=
      .token (List.forall_mem_cons.2 ⟨hblank, hgap⟩) htext (by grind) hrest
    exact hlonger

/-- A token before a text, with no gap before it. -/
theorem cons_token (htext : token.text ≠ "") (hcovers : Covers token.endColumn text tokens) :
    Covers token.column (token.text.toList ++ text) (token :: tokens) := by
  have hfirst : Covers token.column ([] ++ (token.text.toList ++ text)) (token :: tokens) :=
    .token (List.forall_mem_nil _) htext rfl hcovers
  exact hfirst

/-- A token starts where as many characters stand before it as its column says. -/
theorem exists_before (hcovers : Covers column text tokens) (htoken : token ∈ tokens) :
    ∃ before after, text = before ++ (token.text.toList ++ after) ∧
      token.column = column + before.length := by
  induction hcovers with
  | blanks => cases htoken
  | @token column gap rest first tokens _ _ hcolumn _ ih =>
    rcases List.mem_cons.1 htoken with rfl | hlater
    · exact ⟨gap, rest, rfl, hcolumn⟩
    · obtain ⟨before, after, rfl, hbefore⟩ := ih hlater
      refine ⟨gap ++ (first.text.toList ++ before), after, by simp, ?_⟩
      simp only [hbefore, Token.endColumn, hcolumn, List.length_append, String.length_toList]
      omega

theorem text_ne_empty (hcovers : Covers column text tokens) (htoken : token ∈ tokens) :
    token.text ≠ "" := by
  induction hcovers with
  | blanks => cases htoken
  | token _ htext _ _ ih => grind

theorem le_column (hcovers : Covers column text tokens) (htoken : token ∈ tokens) :
    column ≤ token.column := by
  obtain ⟨before, after, -, hcolumn⟩ := hcovers.exists_before htoken
  omega

/-- Tokens that cover a text stand one behind the other. -/
theorem pairwise_endColumn_le (hcovers : Covers column text tokens) :
    tokens.Pairwise fun token next => token.endColumn ≤ next.column := by
  induction hcovers with
  | blanks => exact .nil
  | token _ _ _ hrest ih => exact .cons (fun next hnext => hrest.le_column hnext) ih

end Covers

theorem Token.column_lt_endColumn {token : Token} (htext : token.text ≠ "") :
    token.column < token.endColumn := by
  have hlength : token.text.length ≠ 0 := by simpa using htext
  simp only [endColumn]
  omega

/-! ## Cutting off blanks -/

/-- What is cut off the end of a text is blank. -/
theorem exists_trimEnd_append (cs : List Char) :
    ∃ gap, cs = trimEnd cs ++ gap ∧ ∀ c ∈ gap, isBlank c = true := by
  refine ⟨(cs.reverse.takeWhile isBlank).reverse, ?_, ?_⟩
  · rw [trimEnd, ← List.reverse_append, List.takeWhile_append_dropWhile, List.reverse_reverse]
  · intro c hc
    exact List.all_eq_true.1 List.all_takeWhile c (List.mem_reverse.1 hc)

/-- A text that starts with no blank has something left after the cut. -/
theorem trimEnd_ne_nil {c : Char} (hblank : ¬isBlank c = true) (cs : List Char) :
    trimEnd (c :: cs) ≠ [] := by
  intro hnil
  obtain ⟨gap, hcut, hgap⟩ := exists_trimEnd_append (c :: cs)
  rw [hnil, List.nil_append] at hcut
  exact hblank (hgap c (hcut ▸ List.mem_cons_self))

/-! ## Reading a line -/

/-- The tokens that are read cover what comes after the characters that were passed. -/
theorem covers_scanFrom (line : Nat) {passed : Nat} {cs : List Char} (hpassed : passed ≤ cs.length)
    (column : Nat) :
    Covers (column + passed) (cs.drop passed) (scanFrom true line passed column cs) := by
  induction passed, column, cs using scan_induction with
  | nil passed column =>
    obtain rfl : passed = 0 := Nat.le_zero.1 hpassed
    exact .blanks (List.forall_mem_nil _)
  | pass passed column c cs ih =>
    have hrest := ih (Nat.le_of_succ_le_succ hpassed)
    rwa [Nat.add_right_comm, Nat.add_assoc] at hrest
  | blank column c cs hblank ih =>
    rw [scanFrom_blank hblank]
    exact (ih (Nat.zero_le _)).cons_blank hblank
  | token column c cs kind length hblank hlexeme ih =>
    have hpos := length_pos_of_lexeme? hlexeme
    have hlength := length_le_of_lexeme? hlexeme
    obtain ⟨length, rfl⟩ := Nat.exists_eq_add_one_of_ne_zero (Nat.ne_of_gt hpos)
    let token : Token := ⟨kind, String.ofList ((c :: cs).take (length + 1)), line, column⟩
    have hend : token.endColumn = column + 1 + length := by
      simp only [token, Token.endColumn, String.length_ofList]
      grind
    have hrest := ih (Nat.le_of_succ_le_succ hlength)
    rw [Nat.add_sub_cancel, ← hend] at hrest
    have hcovers : Covers column (token.text.toList ++ cs.drop length) _ :=
      .cons_token (by simp [token]) hrest
    rw [scanFrom_token hblank hlexeme, Nat.add_sub_cancel]
    rwa [String.toList_ofList, List.take_succ_cons, List.cons_append,
      List.take_append_drop] at hcovers
  | unexpected column c cs hblank hlexeme =>
    obtain ⟨gap, hcut, hgap⟩ := exists_trimEnd_append (c :: cs)
    let token : Token := ⟨.unexpected, String.ofList (trimEnd (c :: cs)), line, column⟩
    have htext : token.text ≠ "" := by simpa [token] using trimEnd_ne_nil hblank cs
    have hcovers : Covers column (token.text.toList ++ gap) [token] :=
      .cons_token htext (.blanks hgap)
    rw [scanFrom_unexpected hblank hlexeme]
    rwa [String.toList_ofList, ← hcut] at hcovers

/-- Where a line has an unexpected token, its tokens end. -/
theorem kind_ne_unexpected_of_mem_dropLast (line passed column : Nat) (cs : List Char) :
    ∀ token ∈ (scanFrom true line passed column cs).dropLast, token.kind ≠ .unexpected := by
  induction passed, column, cs using scan_induction with
  | nil passed column => cases passed <;> simp [scanFrom]
  | pass passed column c cs ih => exact ih
  | blank column c cs hblank ih => rwa [scanFrom_blank hblank]
  | token column c cs kind length hblank hlexeme ih =>
    rw [scanFrom_token hblank hlexeme]
    have hkind := kind_ne_unexpected_of_lexeme? hlexeme
    cases hmore : scanFrom true line (length - 1) (column + 1) cs with
    | nil => simp
    | cons next more =>
      rw [List.dropLast_cons_cons]
      exact List.forall_mem_cons.2 ⟨hkind, hmore ▸ ih⟩
  | unexpected column c cs hblank hlexeme => simp [scanFrom_unexpected hblank hlexeme]

/-- Reading a line, whatever it holds, loses nothing. The line is made of its tokens and of blanks:
before, between and after the tokens. No token is empty, and its column is the number of characters
before it, so that the tokens stand one behind the other. Only the last one can be unexpected. The
tokens that count are these without the comments. -/
theorem scan_accounts (line : Nat) (text : String) :
    Covers 0 text.toList (scan line text) ∧
      (∀ token ∈ scan line text, token.text ≠ "" ∧
        ∃ before after, text.toList = before ++ (token.text.toList ++ after) ∧
          before.length = token.column) ∧
      (∀ token ∈ scan line text, token.column < token.endColumn) ∧
      ((scan line text).Pairwise fun token next => token.endColumn ≤ next.column) ∧
      (∀ token ∈ (scan line text).dropLast, token.kind ≠ .unexpected) ∧
      tokenize line text = (scan line text).filter (·.kind != .comment) := by
  have hcovers : Covers 0 text.toList (scan line text) :=
    covers_scanFrom line (Nat.zero_le _) 0
  refine ⟨hcovers, fun token htoken => ?_, fun token htoken => ?_, hcovers.pairwise_endColumn_le,
    kind_ne_unexpected_of_mem_dropLast line 0 0 text.toList, tokenize_eq_filter line text⟩
  · obtain ⟨before, after, htext, hcolumn⟩ := hcovers.exists_before htoken
    exact ⟨hcovers.text_ne_empty htoken, before, after, htext, by omega⟩
  · exact Token.column_lt_endColumn (hcovers.text_ne_empty htoken)

end SmallBasic
