import SmallBasic.Proofs.Coverage

/-!
# Words

A run of word characters that starts like a name is read as a whole, and only then is it looked up
among the reserved words. So a reserved word is never a part of a longer name, and a name never
spells a reserved word. The case of ASCII letters does not matter to this. The long s does: a
reserved word that is written with one is no longer reserved, but it is still read as a whole, and
it is a name even where the long s is its first letter.

## Main definitions

* `Token.Starts` — what is read at the start of a text.

## Main statements

* `exists_starts_of_mem_scan` — every token starts what is left of its line where it stands.
* `Token.Starts.eq_word` — a word is a whole run of word characters.
* `words_kept_apart` — reserved words and names never mix.
* `symbol_spelling` — a name starts with an ASCII letter or an underscore, with two exceptions.
-/

namespace SmallBasic

/-! ## What stands at a place -/

/-- The token is what is read at the start of a text: the lexeme that stands there or, if there is
none, all of the text but the blanks that end it. -/
inductive Token.Starts (token : Token) : List Char → Prop
  | lexeme {c : Char} {cs : List Char} (hblank : isBlank c = false)
      (hlexeme : lexeme? (c :: cs) = some (token.kind, token.text.toList.length))
      (htext : token.text.toList <+: c :: cs) : Starts token (c :: cs)
  | unexpected {c : Char} {cs : List Char} (hblank : isBlank c = false)
      (hnone : lexeme? (c :: cs) = none) (hkind : token.kind = .unexpected)
      (htext : token.text.toList = trimEnd (c :: cs)) : Starts token (c :: cs)

/-- Every token starts what is left of its line where it stands. -/
theorem exists_starts_of_mem_scanFrom {line passed column : Nat} {cs : List Char} {token : Token}
    (htoken : token ∈ scanFrom true line passed column cs) :
    ∃ before rest, cs = before ++ rest ∧ token.column = column + before.length ∧
      token.Starts rest := by
  induction passed, column, cs using scan_induction with
  | nil passed column => cases passed <;> simp [scanFrom] at htoken
  | pass passed column c cs ih =>
    obtain ⟨before, rest, rfl, hcolumn, hstarts⟩ := ih htoken
    exact ⟨c :: before, rest, rfl, by grind, hstarts⟩
  | blank column c cs hblank ih =>
    rw [scanFrom_blank hblank] at htoken
    obtain ⟨before, rest, rfl, hcolumn, hstarts⟩ := ih htoken
    exact ⟨c :: before, rest, rfl, by grind, hstarts⟩
  | token column c cs kind length hblank hlexeme ih =>
    rw [scanFrom_token hblank hlexeme] at htoken
    rcases List.mem_cons.1 htoken with rfl | hlater
    · have hlength := length_le_of_lexeme? hlexeme
      refine ⟨[], c :: cs, rfl, rfl, .lexeme (by simpa using hblank) ?_ ?_⟩
      · rw [hlexeme, String.toList_ofList, List.length_take_of_le hlength]
      · rw [String.toList_ofList]
        exact List.take_prefix length _
    · obtain ⟨before, rest, rfl, hcolumn, hstarts⟩ := ih hlater
      exact ⟨c :: before, rest, rfl, by grind, hstarts⟩
  | unexpected column c cs hblank hlexeme =>
    rw [scanFrom_unexpected hblank hlexeme] at htoken
    obtain rfl := List.mem_singleton.1 htoken
    exact ⟨[], c :: cs, rfl, rfl,
      .unexpected (by simpa using hblank) hlexeme rfl String.toList_ofList⟩

theorem exists_starts_of_mem_scan {line : Nat} {text : String} {token : Token}
    (htoken : token ∈ scan line text) :
    ∃ before rest, text.toList = before ++ rest ∧ before.length = token.column ∧
      token.Starts rest := by
  obtain ⟨before, rest, htext, hcolumn, hstarts⟩ := exists_starts_of_mem_scanFrom htoken
  exact ⟨before, rest, htext, by omega, hstarts⟩

theorem Token.Starts.isPrefix {token : Token} {cs : List Char} (hstarts : token.Starts cs) :
    token.text.toList <+: cs := by
  cases hstarts with
  | lexeme _ _ htext => exact htext
  | @unexpected c cs _ _ _ htext =>
    obtain ⟨gap, hcut, -⟩ := exists_trimEnd_append (c :: cs)
    exact ⟨gap, by rw [htext, ← hcut]⟩

/-! ## The kinds of words -/

theorem sameName_comm (name other : String) : sameName name other = sameName other name := by
  grind [sameName]

/-- Two spellings of a name both start like a name, or neither does. -/
theorem isNameStart_head_congr {name other : String} (hsame : sameName name other = true) :
    name.toList.head?.any isNameStart = other.toList.head?.any isNameStart := by
  have hhead : ∀ cs : List Char,
      (cs.map Char.toLower).head?.any isNameStart = cs.head?.any isNameStart := by
    intro cs
    cases cs with
    | nil => rfl
    | cons c cs => exact isNameStart_toLower c
  rw [sameName, beq_iff_eq] at hsame
  rw [← hhead name.toList, ← hhead other.toList, ← toList_foldCase, ← toList_foldCase, hsame]

theorem Keyword.isNameStart_head (word : Keyword) :
    word.text.toList.head?.any isNameStart = true := by
  cases word <;> rfl

theorem keyword?_congr {name other : String} (hsame : sameName name other = true) :
    keyword? name = keyword? other := by
  rw [sameName, beq_iff_eq] at hsame
  simp only [keyword?, sameName, hsame]

theorem keyword?_eq_some_iff {name : String} {word : Keyword} :
    keyword? name = some word ↔ sameName name word.text = true := by
  constructor
  · intro hfind
    rw [keyword?] at hfind
    have hname := List.find?_some hfind
    rwa [sameName_comm]
  · intro hname
    rw [keyword?_congr hname]
    cases word <;> decide +kernel

section WordKinds

variable {word : List Char}

theorem wordKind?_eq_keyword_iff {keyword : Keyword} :
    wordKind? word = some (.keyword keyword) ↔
      sameName (String.ofList word) keyword.text = true := by
  rw [← keyword?_eq_some_iff]
  unfold wordKind?
  grind

/-- The words among the operators are none of the words of statements. -/
theorem wordKind?_eq_operator_iff {op : Operator} :
    wordKind? word = some (.operator op) ↔
      op = .and ∧ sameName (String.ofList word) "and" = true ∨
        op = .or ∧ sameName (String.ofList word) "or" = true := by
  have hand : sameName (String.ofList word) "and" = true →
      keyword? (String.ofList word) = none ∧ sameName (String.ofList word) "or" = false := by
    intro hname
    rw [keyword?_congr hname]
    rw [sameName, beq_iff_eq] at hname
    rw [sameName, hname]
    decide +kernel
  have hor : sameName (String.ofList word) "or" = true → keyword? (String.ofList word) = none := by
    intro hname
    rw [keyword?_congr hname]
    decide +kernel
  unfold wordKind?
  grind

theorem head_or_folds_of_symbol (hkind : wordKind? word = some .symbol) :
    word.head?.any isNameStart = true ∨ foldsToKeyword word = true := by
  unfold wordKind? at hkind
  grind

/-- What starts like a name is a word. -/
theorem isSome_wordKind? (hstart : word.head?.any isNameStart = true) :
    (wordKind? word).isSome = true := by
  unfold wordKind?
  grind

end WordKinds

/-! ## Words with a long s -/

theorem eq_longS_or_toLower_eq {c d : Char} (hfold : foldLetter c = d) :
    c = 'ſ' ∧ d = 's' ∨ c.toLower = d := by
  grind [foldLetter]

/-- Where no s comes out, no long s went in. -/
theorem map_toLower_of_map_foldLetter {cs ds : List Char} (hfold : cs.map foldLetter = ds)
    (hds : 's' ∉ ds) : cs.map Char.toLower = ds := by
  subst hfold
  refine List.map_congr_left fun c hc => ?_
  rcases eq_longS_or_toLower_eq (rfl : foldLetter c = foldLetter c) with ⟨-, hs⟩ | hlower
  · exact absurd (hs ▸ List.mem_map_of_mem hc) hds
  · exact hlower

/-- A reserved word in its folded form starts like a name. What follows an initial s is known. -/
theorem Keyword.folded_cases (word : Keyword) :
    ∃ d ds, word.text.toList.map Char.toLower = d :: ds ∧ isNameStart d = true ∧
      (d = 's' → ds = "ub".toList ∨ ds = "tep".toList) := by
  cases word <;> exact ⟨_, _, rfl, by decide, by decide⟩

/-- A folded reserved word that does not start like a name starts with a long s. -/
theorem longS_of_foldsToKeyword {word : List Char} (hfolds : foldsToKeyword word = true) :
    word.head?.any isNameStart = true ∨
      ∃ rest, word = 'ſ' :: rest ∧
        (rest.map Char.toLower = "ub".toList ∨ rest.map Char.toLower = "tep".toList) := by
  obtain ⟨keyword, -, hmap⟩ := List.any_eq_true.1 hfolds
  obtain ⟨d, ds, hfolded, hd, hs⟩ := keyword.folded_cases
  rw [beq_iff_eq, hfolded] at hmap
  obtain ⟨c, rest, rfl, hc, hrest⟩ := List.map_eq_cons_iff.1 hmap
  rcases eq_longS_or_toLower_eq hc with ⟨rfl, hds⟩ | hlower
  · right
    refine ⟨rest, rfl, ?_⟩
    rcases hs hds with rfl | rfl
    · exact .inl (map_toLower_of_map_foldLetter hrest (by decide))
    · exact .inr (map_toLower_of_map_foldLetter hrest (by decide))
  · left
    rw [← hlower, isNameStart_toLower] at hd
    exact hd

/-- A word starts like a name, or with a long s. -/
theorem head_of_wordKind? {word : List Char} {kind : Token.Kind}
    (hkind : wordKind? word = some kind) :
    ∃ c ∈ word.head?, isNameStart c = true ∨ c = 'ſ' := by
  have hname : ∀ {name : String}, sameName (String.ofList word) name = true →
      name.toList.head?.any isNameStart = true → word.head?.any isNameStart = true := by
    intro name hsame hstart
    have hcongr := isNameStart_head_congr hsame
    rwa [String.toList_ofList, hstart] at hcongr
  have hhead : word.head?.any isNameStart = true ∨ word.head? = some 'ſ' := by
    cases kind with
    | keyword keyword =>
      exact .inl (hname (wordKind?_eq_keyword_iff.1 hkind) keyword.isNameStart_head)
    | operator op =>
      rcases wordKind?_eq_operator_iff.1 hkind with ⟨-, hsame⟩ | ⟨-, hsame⟩
      · exact .inl (hname hsame rfl)
      · exact .inl (hname hsame rfl)
    | symbol =>
      rcases head_or_folds_of_symbol hkind with hstart | hfolds
      · exact .inl hstart
      · rcases longS_of_foldsToKeyword hfolds with hstart | ⟨rest, rfl, -⟩
        · exact .inl hstart
        · exact .inr rfl
    | _ => cases isWordKind_of_wordKind? hkind
  cases word with
  | nil => simp at hhead
  | cons c rest => exact ⟨c, rfl, by simpa using hhead⟩

/-! ## Words of a line -/

theorem isWord_of_isNameStart {c : Char} (hc : isNameStart c = true) : isWord c = true := by
  apply isWord_of_isAlphanum
  grind [isNameStart, Char.isAlphanum]

/-- Where a name could start, a word is read. -/
theorem exists_lexeme?_of_isNameStart {c : Char} (hc : isNameStart c = true) (cs : List Char) :
    ∃ kind length, lexeme? (c :: cs) = some (kind, length) ∧ kind.isWordKind = true := by
  have hhead : ((c :: cs).takeWhile isWord).head?.any isNameStart = true := by
    rw [List.takeWhile_cons_of_pos (isWord_of_isNameStart hc)]
    exact hc
  obtain ⟨kind, hkind⟩ := Option.isSome_iff_exists.1 (isSome_wordKind? hhead)
  refine ⟨kind, ((c :: cs).takeWhile isWord).length, ?_, isWordKind_of_wordKind? hkind⟩
  simp only [lexeme?, hkind]

namespace Token.Starts

variable {token : Token} {cs : List Char}

/-- A word is a whole run of word characters. -/
theorem eq_word (hstarts : token.Starts cs) (hkind : token.kind.isWordKind = true) :
    token.text.toList = cs.takeWhile isWord ∧ wordKind? token.text.toList = some token.kind := by
  cases hstarts with
  | @lexeme c cs _ hlexeme htext =>
    rcases lexeme?_cases hlexeme with ⟨hword, hlength⟩ | ⟨hnumber, -⟩ | hmark
    · have hrun : token.text.toList = (c :: cs).takeWhile isWord :=
        (List.prefix_of_prefix_length_le htext (List.takeWhile_prefix _) hlength.le).eq_of_length
          hlength
      exact ⟨hrun, by rw [hrun, hword]⟩
    · cases hnumber ▸ hkind
    · cases (kind_of_markKind? hmark).1.symm.trans hkind
  | unexpected _ _ hunexpected => cases hunexpected ▸ hkind

theorem isWord_of_mem (hstarts : token.Starts cs) (hkind : token.kind.isWordKind = true) :
    ∀ c ∈ token.text.toList, isWord c = true := by
  rw [(hstarts.eq_word hkind).1]
  exact List.all_eq_true.1 List.all_takeWhile

/-- No word character follows a word. -/
theorem exists_after_word (hstarts : token.Starts cs) (hkind : token.kind.isWordKind = true) :
    ∃ after, cs = token.text.toList ++ after ∧ ∀ c ∈ after.head?, isWord c = false := by
  refine ⟨cs.dropWhile isWord, ?_, fun c hc => ?_⟩
  · rw [(hstarts.eq_word hkind).1, List.takeWhile_append_dropWhile]
  · have hstop := List.head?_dropWhile_not isWord cs
    grind

/-- What starts like a name is a word. -/
theorem isWordKind_of_head (hstarts : token.Starts cs)
    (hstart : token.text.toList.head?.any isNameStart = true) : token.kind.isWordKind = true := by
  have hc : ∀ c ∈ cs.head?, isNameStart c = true := by
    obtain ⟨after, rfl⟩ := hstarts.isPrefix
    cases htext : token.text.toList <;> grind
  cases hstarts with
  | @lexeme c cs _ hlexeme _ =>
    obtain ⟨kind, length, hword, hkind⟩ := exists_lexeme?_of_isNameStart (hc c rfl) cs
    grind
  | @unexpected c cs _ hnone _ _ =>
    obtain ⟨kind, length, hword, -⟩ := exists_lexeme?_of_isNameStart (hc c rfl) cs
    cases hnone.symm.trans hword

/-- Where a kind of words is the kind of all spellings of one name, the tokens of that kind are the
spellings of that name. -/
theorem kind_eq_iff (hstarts : token.Starts cs) {kind : Token.Kind} {name : String}
    (hkind : kind.isWordKind = true) (hname : name.toList.head?.any isNameStart = true)
    (hspells : ∀ word, wordKind? word = some kind ↔ sameName (String.ofList word) name = true) :
    token.kind = kind ↔ sameName token.text name = true := by
  rw [← @String.ofList_toList token.text, ← hspells]
  constructor
  · rintro rfl
    exact (hstarts.eq_word hkind).2
  · intro hword
    have hsame := (hspells _).1 hword
    rw [String.ofList_toList] at hsame
    have hstart := (isNameStart_head_congr hsame).trans hname
    have hfirst := (hstarts.eq_word (hstarts.isWordKind_of_head hstart)).2
    exact Option.some.inj (hfirst.symm.trans hword)

end Token.Starts

/-- Reserved words and names never mix, on any line. A token is a reserved word exactly if its text
spells that word, ignoring the case of ASCII letters, so the text of a name spells none. No word
character follows a reserved word or a name, so neither is ever the start of a longer word. -/
theorem words_kept_apart (line : Nat) (text : String) :
    ∀ token ∈ scan line text,
      (∀ word : Keyword, token.kind = .keyword word ↔ sameName token.text word.text = true) ∧
      (token.kind = .operator .and ↔ sameName token.text "and" = true) ∧
      (token.kind = .operator .or ↔ sameName token.text "or" = true) ∧
      (token.kind = .symbol →
        (∀ word : Keyword, sameName token.text word.text = false) ∧
          sameName token.text "and" = false ∧ sameName token.text "or" = false) ∧
      (token.kind.isWordKind = true →
        ∃ before after, text.toList = before ++ (token.text.toList ++ after) ∧
          before.length = token.column ∧ ∀ c ∈ after.head?, isWord c = false) := by
  intro token htoken
  obtain ⟨before, rest, htext, hcolumn, hstarts⟩ := exists_starts_of_mem_scan htoken
  have hkeyword : ∀ word : Keyword,
      token.kind = .keyword word ↔ sameName token.text word.text = true :=
    fun word => hstarts.kind_eq_iff rfl word.isNameStart_head fun _ => wordKind?_eq_keyword_iff
  have hand : token.kind = .operator .and ↔ sameName token.text "and" = true :=
    hstarts.kind_eq_iff rfl rfl fun _ => by simp [wordKind?_eq_operator_iff]
  have hor : token.kind = .operator .or ↔ sameName token.text "or" = true :=
    hstarts.kind_eq_iff rfl rfl fun _ => by simp [wordKind?_eq_operator_iff]
  refine ⟨hkeyword, hand, hor, fun hsymbol => ?_, fun hkind => ?_⟩
  · simp only [hsymbol, reduceCtorEq, false_iff, Bool.not_eq_true] at hkeyword hand hor
    exact ⟨hkeyword, hand, hor⟩
  · obtain ⟨after, rfl, hafter⟩ := hstarts.exists_after_word hkind
    exact ⟨before, after, htext, hcolumn, hafter⟩

/-- A name that starts with a reserved word, right after a number. -/
theorem words_kept_apart_prefixed :
    (⟨.symbol, "Ifx", 0, 1⟩ : Token) ∈ scan 0 "1Ifx OR y" ∧
      (∀ word : Keyword, sameName "Ifx" word.text = false) ∧
      ∃ before after, "1Ifx OR y".toList = before ++ ("Ifx".toList ++ after) ∧
        before.length = 1 ∧ ∀ c ∈ after.head?, isWord c = false := by
  have htoken : (⟨.symbol, "Ifx", 0, 1⟩ : Token) ∈ scan 0 "1Ifx OR y" := by decide +kernel
  obtain ⟨-, -, -, hname, hplace⟩ := words_kept_apart 0 "1Ifx OR y" _ htoken
  exact ⟨htoken, (hname rfl).1, hplace rfl⟩

/-- A name on any line is made of word characters, and it starts with an ASCII letter or an
underscore. The only names that do not are `Sub` and `Step`, in any case, with a long s in front. -/
theorem symbol_spelling (line : Nat) (text : String) :
    ∀ token ∈ scan line text, token.kind = .symbol →
      token.text ≠ "" ∧ (∀ c ∈ token.text.toList, isWord c = true) ∧
        (token.text.toList.head?.any isNameStart = false ↔
          sameName token.text "ſub" = true ∨ sameName token.text "ſtep" = true) := by
  intro token htoken hkind
  obtain ⟨before, rest, -, -, hstarts⟩ := exists_starts_of_mem_scan htoken
  have hverbal : token.kind.isWordKind = true := by rw [hkind]; rfl
  have hword : wordKind? token.text.toList = some .symbol := by
    rw [← hkind]
    exact (hstarts.eq_word hverbal).2
  refine ⟨?_, hstarts.isWord_of_mem hverbal, ?_, ?_⟩
  · intro hempty
    obtain ⟨c, hc, -⟩ := head_of_wordKind? hword
    rw [hempty] at hc
    cases hc
  · intro hstart
    have hfolds : foldsToKeyword token.text.toList = true := by
      simpa [hstart] using head_or_folds_of_symbol hword
    obtain ⟨rest, htext, hrest⟩ : ∃ rest, token.text.toList = 'ſ' :: rest ∧ _ := by
      simpa only [hstart, Bool.false_eq_true, false_or] using longS_of_foldsToKeyword hfolds
    have hlower : 'ſ'.toLower = 'ſ' := by decide
    rcases hrest with hrest | hrest
    · left
      rw [sameName, foldCase, htext, List.map_cons, hrest, hlower]
      decide
    · right
      rw [sameName, foldCase, htext, List.map_cons, hrest, hlower]
      decide
  · rintro (hsame | hsame)
    · exact (isNameStart_head_congr hsame).trans (by decide)
    · exact (isNameStart_head_congr hsame).trans (by decide)

/-- A reserved word with a long s inside is a name that starts with a letter. -/
theorem symbol_spelling_elseIf :
    (⟨.symbol, "Elſeif", 0, 2⟩ : Token) ∈ scan 0 "x.Elſeif" ∧
      (∀ c ∈ "Elſeif".toList, isWord c = true) ∧ "Elſeif".toList.head?.any isNameStart = true := by
  have htoken : (⟨.symbol, "Elſeif", 0, 2⟩ : Token) ∈ scan 0 "x.Elſeif" := by decide +kernel
  obtain ⟨-, hword, hstart⟩ := symbol_spelling 0 "x.Elſeif" _ htoken rfl
  refine ⟨htoken, hword, ?_⟩
  by_contra hnot
  exact absurd (hstart.1 (by simpa using hnot)) (by decide +kernel)

/-- With a long s in front, `Sub` is a name that starts with no ASCII letter. -/
theorem symbol_starts_with_longS :
    ¬∀ (line : Nat) (text : String), ∀ token ∈ scan line text, token.kind = .symbol →
      token.text.toList.head?.any isNameStart = true ∧
        ∀ c ∈ token.text.toList.tail, isWord c = true := by
  intro hall
  have hstart := (hall 0 "ſub" ⟨.symbol, "ſub", 0, 0⟩ (by decide +kernel) rfl).1
  revert hstart
  decide

end SmallBasic
