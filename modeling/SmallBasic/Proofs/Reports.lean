import SmallBasic.Proofs.Coverage
import SmallBasic.Proofs.Places
import SmallBasic.Proofs.Rows

/-!
# What is reported of a source

Every error has a place in the source: a line that has tokens, and a column in it or just past its
end. What is wrong with a line by itself stands at one of its tokens, or behind the last one, and
tokens do not reach past the end of the line. What is wrong with the source as a whole, a block that
is never closed or a name that is declared twice or not at all, stands at the start of the line of a
statement. No statement comes from nowhere: each line that has tokens adds one, or is refused with
one error.

## Main definitions

* `IsPlace` — the places of a source where an error can stand.
* `Program.faults` — all that is wrong with a source, as it is found.

## Main statements

* `Program.parse_eq_error_iff` — a source is refused exactly if something is wrong with it, and all
  of that is reported.
* `Draft.stands_readLines` — the errors of lines, and the statements, have places.
* `Draft.perm_readLines` — a line that has tokens adds one statement or one error.
* `Program.errors_located` — errors are reported in order and at their places.
-/

namespace SmallBasic

/-! ## Tokens and the ends of lines -/

theorem Covers.endColumn_le {column : Nat} {text : List Char} {tokens : List Token} {token : Token}
    (hcovers : Covers column text tokens) (htoken : token ∈ tokens) :
    token.endColumn ≤ column + text.length := by
  obtain ⟨before, after, rfl, hcolumn⟩ := hcovers.exists_before htoken
  simp only [Token.endColumn, hcolumn, List.length_append, String.length_toList]
  omega

section Tokens

variable {number : Nat} {text : String} {token : Token}

theorem line_of_mem_tokenize (htoken : token ∈ tokenize number text) : token.line = number := by
  rw [tokenize_eq_map_onLine] at htoken
  obtain ⟨token, -, rfl⟩ := List.mem_map.1 htoken
  rfl

/-- A token does not reach past the end of its line. -/
theorem endColumn_le_of_mem_tokenize (htoken : token ∈ tokenize number text) :
    token.endColumn ≤ text.length := by
  have hcovers : Covers 0 text.toList (scan number text) := covers_scanFrom number (Nat.zero_le _) 0
  have hend := hcovers.endColumn_le (mem_tokenize_iff.1 htoken).1
  rwa [Nat.zero_add, String.length_toList] at hend

theorem endColumn_ofTokens_le : (Line.ofTokens number (tokenize number text)).endColumn ≤
    text.length := by
  unfold Line.ofTokens
  cases hlast : (tokenize number text).getLast? with
  | none => exact Nat.zero_le _
  | some token => exact endColumn_le_of_mem_tokenize (List.mem_of_getLast? hlast)

variable {P : Nat → Nat → Prop} (hplaces : ∀ column ≤ text.length, P number column)

include hplaces

theorem allStand_tokenize : AllStand P (tokenize number text) := by
  intro token htoken
  have hcolumn : token.column ≤ token.endColumn := Nat.le_add_right _ _
  rw [Token.Stands, line_of_mem_tokenize htoken]
  exact hplaces _ (hcolumn.trans (endColumn_le_of_mem_tokenize htoken))

end Tokens

/-! ## One line after the other -/

namespace Draft

variable {P : Nat → Nat → Prop} {draft : Draft} {number : Nat} {text : String} {texts : List String}

/-- The lines of the statements, in order. -/
def lineNumbers (draft : Draft) : List Nat := draft.statements.toList.map (·.line)

theorem lineNumbers_add (draft : Draft) (line : Nat) (clause : Clause) :
    (draft.add line clause).lineNumbers = draft.lineNumbers ++ [line] :=
  map_add (fun _ _ _ => rfl) draft line clause

/-- Every statement's line starts at one of these places. -/
def Stands (P : Nat → Nat → Prop) (draft : Draft) : Prop := ∀ line ∈ draft.lineNumbers, P line 0

/-- A line with tokens adds a statement on it, or is refused at one of its places. -/
theorem readLine_cases (draft : Draft) (htokens : tokenize number text ≠ [])
    (hplaces : ∀ column ≤ text.length, P number column) :
    (∃ clause, draft.readLine number text = .ok (draft.add number clause)) ∨
      ∃ error, draft.readLine number text = .error error ∧ error.Stands P := by
  obtain ⟨first, rest, hcons⟩ := List.exists_cons_of_ne_nil htokens
  have hstand := allStand_tokenize hplaces
  have hend : P number (Line.ofTokens number (tokenize number text)).endColumn :=
    hplaces _ endColumn_ofTokens_le
  rw [hcons] at hstand hend
  have hread := draft.locates_readTokens hend (allStand_cons.1 hstand).1 (allStand_cons.1 hstand).2
  simp only [readLine, hcons]
  cases htry : draft.readTokens number first rest with
  | ok next =>
    obtain ⟨clause, -, rfl⟩ := readClause_of_readTokens htry
    exact .inl ⟨clause, rfl⟩
  | error error =>
    rw [htry] at hread
    exact .inr ⟨error, rfl, hread⟩

theorem readLine_of_tokenize_eq_nil (draft : Draft) (htokens : tokenize number text = []) :
    draft.readLine number text = .ok draft := by
  rw [readLine, htokens]

/-- The errors of lines have places, and so do the statements. -/
theorem stands_readLines (hdraft : draft.Stands P)
    (hplaces : ∀ offset text, texts[offset]? = some text → tokenize (number + offset) text ≠ [] →
      ∀ column ≤ text.length, P (number + offset) column) :
    (draft.readLines number texts).1.Stands P ∧
      ∀ error ∈ (draft.readLines number texts).2, error.Stands P := by
  induction texts generalizing draft number with
  | nil => exact ⟨hdraft, List.forall_mem_nil _⟩
  | cons text texts ih =>
    have hlater : ∀ offset later, texts[offset]? = some later →
        tokenize (number + 1 + offset) later ≠ [] →
        ∀ column ≤ later.length, P (number + 1 + offset) column := by
      intro offset later hoffset
      rw [Nat.add_right_comm, Nat.add_assoc]
      exact hplaces (offset + 1) later hoffset
    rw [readLines]
    by_cases htokens : tokenize number text = []
    · rw [readLine_of_tokenize_eq_nil draft htokens]
      exact ih hdraft hlater
    · have hline := hplaces 0 text rfl htokens
      obtain ⟨clause, hread⟩ | ⟨error, hread, herror⟩ := draft.readLine_cases htokens hline
      · rw [hread]
        refine ih ?_ hlater
        rw [Stands, lineNumbers_add]
        exact List.forall_mem_append.2
          ⟨hdraft, List.forall_mem_singleton.2 (hline 0 (Nat.zero_le _))⟩
      · rw [hread]
        obtain ⟨hlast, herrors⟩ := ih hdraft hlater
        exact ⟨hlast, List.forall_mem_cons.2 ⟨herror, herrors⟩⟩

/-- A line that has tokens adds one statement or one error, on that line. The others add nothing. -/
theorem perm_readLines (draft : Draft) (number : Nat) (texts : List String) :
    ((draft.readLines number texts).1.lineNumbers ++
        (draft.readLines number texts).2.map (·.line)).Perm
      (draft.lineNumbers ++ (rowsFrom number texts).map Prod.fst) := by
  induction texts generalizing draft number with
  | nil => exact .refl _
  | cons text texts ih =>
    rw [readLines, map_fst_rowsFrom_cons]
    by_cases htokens : tokenize number text = []
    · rw [readLine_of_tokenize_eq_nil draft htokens, if_pos htokens]
      exact ih draft (number + 1)
    · have hread := draft.readLine_cases (P := fun line _ => line = number) htokens fun _ _ => rfl
      rw [if_neg htokens]
      obtain ⟨clause, hread⟩ | ⟨error, hread, herror⟩ := hread
      · have hrest := ih (draft.add number clause) (number + 1)
        rw [lineNumbers_add, List.append_assoc] at hrest
        rwa [hread]
      · have hrest := (ih draft (number + 1)).cons number
        rw [hread]
        simp only [List.map_cons, show error.line = number from herror]
        exact List.perm_middle.trans (hrest.trans List.perm_middle.symm)

end Draft

/-- A line is that of a row if it has tokens. -/
theorem mem_map_fst_rowsFrom {number offset : Nat} {texts : List String} {text : String}
    (htext : texts[offset]? = some text) :
    number + offset ∈ (rowsFrom number texts).map Prod.fst ↔
      tokenize (number + offset) text ≠ [] := by
  induction texts generalizing number offset with
  | nil => cases htext
  | cons first texts ih =>
    rw [map_fst_rowsFrom_cons]
    cases offset with
    | zero =>
      cases htext
      have hlater : number ∉ (rowsFrom (number + 1) texts).map Prod.fst :=
        fun hmem => Nat.not_succ_le_self _ (le_of_mem_rowsFrom hmem)
      grind
    | succ offset =>
      have hrest : number + 1 + offset ∈ (rowsFrom (number + 1) texts).map Prod.fst ↔
        tokenize (number + 1 + offset) text ≠ [] := ih htext
      rw [Nat.add_right_comm, Nat.add_assoc] at hrest
      rw [← hrest]
      grind

/-! ## The source as a whole -/

namespace Names

variable {P : Nat → Nat → Prop} {statements : List Statement}

/-- A name that is declared again is reported at the start of a statement's line. -/
theorem stands_collect (names : Names) (index : Nat)
    (hstatements : ∀ statement ∈ statements, P statement.line 0) :
    ∀ error ∈ (names.collect index statements).2, error.Stands P := by
  induction statements generalizing names index with
  | nil => exact List.forall_mem_nil _
  | cons statement statements ih =>
    obtain ⟨hstatement, hrest⟩ := List.forall_mem_cons.1 hstatements
    rw [collect]
    refine List.forall_mem_append.2 ⟨?_, ih _ _ hrest⟩
    unfold declare
    split <;> grind [SyntaxError.Stands]

/-- A name that is not declared is reported at the start of a statement's line. -/
theorem stands_resolveAll (names : Names)
    (hstatements : ∀ statement ∈ statements, P statement.line 0) :
    ∀ error ∈ (names.resolveAll statements).2, error.Stands P := by
  induction statements with
  | nil => exact List.forall_mem_nil _
  | cons statement statements ih =>
    obtain ⟨hstatement, hrest⟩ := List.forall_mem_cons.1 hstatements
    cases hresolve : names.resolve statement with
    | ok resolved =>
      simp only [resolveAll, hresolve]
      exact ih hrest
    | error cause =>
      simp only [resolveAll, hresolve]
      exact List.forall_mem_cons.2 ⟨hstatement, ih hrest⟩

end Names

/-- A block that is never closed is reported at the start of a statement's line. -/
theorem Draft.stands_unclosed {P : Nat → Nat → Prop} {draft : Draft} (hdraft : draft.Stands P) :
    ∀ error ∈ draft.unclosed, error.Stands P := by
  intro error herror
  obtain ⟨index, -, hopen⟩ := List.mem_filterMap.1 herror
  obtain ⟨statement, hstatement, hopen⟩ := Option.bind_eq_some_iff.1 hopen
  obtain ⟨opener, -, hopen⟩ := Option.bind_eq_some_iff.1 hopen
  cases hopen
  exact hdraft _ (List.mem_map_of_mem (Array.mem_toList_iff.2 (Array.mem_of_getElem? hstatement)))

namespace SyntaxError

theorem le_iff {error later : SyntaxError} :
    error.le later = true ↔
      error.line < later.line ∨ error.line = later.line ∧ error.column ≤ later.column := by
  simp [le]

theorem le_trans (a b c : SyntaxError) (hab : a.le b = true) (hbc : b.le c = true) :
    a.le c = true := by
  rw [le_iff] at hab hbc ⊢
  omega

theorem le_total (a b : SyntaxError) : (a.le b || b.le a) = true := by
  simp only [Bool.or_eq_true, le_iff]
  omega

end SyntaxError

/-- The places of a source where an error can stand: on a line that has tokens, in it or just past
its end. -/
def IsPlace (source : String) (line column : Nat) : Prop :=
  ∃ text, (lines source)[line]? = some text ∧ tokenize line text ≠ [] ∧ column ≤ text.length

namespace Program

/-- All that is wrong with a source, as it is found: in its lines, with its blocks, and with its
names. -/
def faults (source : String) : List SyntaxError :=
  let (draft, lineErrors) := ({} : Draft).readLines 0 (lines source)
  let (names, duplicates) := ({} : Names).collect 0 draft.statements.toList
  lineErrors ++ draft.unclosed ++ duplicates ++ (names.resolveAll draft.statements.toList).2

variable {source : String} {errors : List SyntaxError}

/-- A source is refused exactly if something is wrong with it, and then all of that is reported, in
order. -/
theorem parse_eq_error_iff :
    parse source = .error errors ↔
      faults source ≠ [] ∧ errors = (faults source).mergeSort SyntaxError.le := by
  unfold parse faults
  dsimp only
  generalize (_ ++ _ : List SyntaxError) = found
  cases found <;> simp [eq_comm]

theorem stands_faults (source : String) :
    ∀ error ∈ faults source, error.Stands (IsPlace source) := by
  have hempty : ({} : Draft).Stands (IsPlace source) := List.forall_mem_nil _
  have hplaces : ∀ line text, (lines source)[line]? = some text → tokenize (0 + line) text ≠ [] →
      ∀ column ≤ text.length, IsPlace source (0 + line) column := by
    intro line text htext htokens column hcolumn
    rw [Nat.zero_add] at htokens ⊢
    exact ⟨text, htext, htokens, hcolumn⟩
  obtain ⟨hdraft, hlines⟩ := Draft.stands_readLines hempty hplaces
  have hstatements := List.forall_mem_map.1 hdraft
  unfold faults
  simp only [List.forall_mem_append]
  exact ⟨⟨⟨hlines, Draft.stands_unclosed hdraft⟩, Names.stands_collect _ _ hstatements⟩,
    Names.stands_resolveAll _ hstatements⟩

/-- Each line that has tokens adds exactly one statement, or is refused with exactly one error. -/
theorem count_readLines {number : Nat} {text : String}
    (htext : (lines source)[number]? = some text) :
    (({} : Draft).readLines 0 (lines source)).1.lineNumbers.count number +
        ((({} : Draft).readLines 0 (lines source)).2.map (·.line)).count number =
      if tokenize number text = [] then 0 else 1 := by
  have hdistinct : ((rows source).map Prod.fst).Nodup := (pairwise_rows source).imp Nat.ne_of_lt
  have hrow : number ∈ (rows source).map Prod.fst ↔ tokenize number text ≠ [] := by
    rw [← Nat.zero_add number]
    exact mem_map_fst_rowsFrom htext
  have hcount := (({} : Draft).perm_readLines 0 (lines source)).count_eq number
  have hempty : ({} : Draft).lineNumbers = [] := rfl
  rw [List.count_append, hempty, List.nil_append] at hcount
  rw [hcount, ← rows, hdistinct.count]
  grind

/-- The errors of a source that is refused are all that is wrong with it, in order of their places.
Each stands on a line of the source that has tokens, in it or just past its end, and is shown below
that line with a caret under its column. Whether the source is refused or not, each line that has
tokens adds exactly one statement, or is refused with exactly one error. -/
theorem errors_located (source : String) :
    (∀ errors, parse source = .error errors →
      errors ≠ [] ∧ errors.Perm (faults source) ∧
      (errors.Pairwise fun error later => error.line < later.line ∨
        error.line = later.line ∧ error.column ≤ later.column) ∧
      (∀ error ∈ errors, ∃ text, (lines source)[error.line]? = some text ∧
        tokenize error.line text ≠ [] ∧ error.column ≤ text.length ∧
        error.excerpt (lines source) =
          text ++ "\n" ++ String.ofList (List.replicate error.column ' ') ++ "^\n" ++
            "\t" ++ error.message ++ "\n") ∧
      SyntaxError.annotate source errors =
        String.join (errors.map (SyntaxError.excerpt (lines source)))) ∧
    ∀ number text, (lines source)[number]? = some text →
      (({} : Draft).readLines 0 (lines source)).1.lineNumbers.count number +
          ((({} : Draft).readLines 0 (lines source)).2.map (·.line)).count number =
        if tokenize number text = [] then 0 else 1 := by
  refine ⟨fun errors hparse => ?_, fun number text => count_readLines⟩
  obtain ⟨hsome, rfl⟩ := parse_eq_error_iff.1 hparse
  have hperm := List.mergeSort_perm (faults source) SyntaxError.le
  refine ⟨?_, hperm, ?_, ?_, rfl⟩
  · intro hnone
    rw [hnone] at hperm
    exact hsome hperm.nil_eq.symm
  · have hsorted := List.pairwise_mergeSort SyntaxError.le_trans SyntaxError.le_total
    exact (hsorted (faults source)).imp SyntaxError.le_iff.1
  · intro error herror
    obtain ⟨text, htext, htokens, hcolumn⟩ := stands_faults source error (hperm.mem_iff.1 herror)
    refine ⟨text, htext, htokens, hcolumn, ?_⟩
    simp only [SyntaxError.excerpt, htext]

/-- A source in which a line breaks off, a block stays open, and two labels are not in order. -/
def troubled : String := "' nothing\nIf x Then\na:\ny = 1 +  ' more\nGoto b\nA: ' again\n"

theorem errors_located_troubled :
    parse troubled = .error [⟨1, 0, .unclosed .if .endIf⟩, ⟨3, 7, .expectedExpression⟩,
        ⟨4, 0, .undefinedLabel "b"⟩, ⟨5, 0, .duplicateLabel "A"⟩] ∧
      (∃ text, (lines troubled)[3]? = some text ∧ tokenize 3 text ≠ [] ∧ 7 ≤ text.length ∧
        SyntaxError.excerpt (lines troubled) ⟨3, 7, .expectedExpression⟩ =
          text ++ "\n" ++ String.ofList (List.replicate 7 ' ') ++ "^\n" ++
            "\t" ++ "line 4, col 8: expected an expression here" ++ "\n") ∧
      (lines troubled)[2]? = some "a:" ∧
      (({} : Draft).readLines 0 (lines troubled)).1.lineNumbers.count 2 +
          ((({} : Draft).readLines 0 (lines troubled)).2.map (·.line)).count 2 =
        if tokenize 2 "a:" = [] then 0 else 1 := by
  have hfaults : faults troubled = [⟨3, 7, .expectedExpression⟩, ⟨1, 0, .unclosed .if .endIf⟩,
      ⟨5, 0, .duplicateLabel "A"⟩, ⟨4, 0, .undefinedLabel "b"⟩] := by decide +kernel
  have hparse : parse troubled = .error [⟨1, 0, .unclosed .if .endIf⟩, ⟨3, 7, .expectedExpression⟩,
      ⟨4, 0, .undefinedLabel "b"⟩, ⟨5, 0, .duplicateLabel "A"⟩] := by
    refine parse_eq_error_iff.2 ⟨hfaults ▸ List.cons_ne_nil _ _, ?_⟩
    rw [hfaults]
    simp [List.mergeSort, SyntaxError.le]
  have hlabel : (lines troubled)[2]? = some "a:" := by decide +kernel
  obtain ⟨hreported, hcounted⟩ := errors_located troubled
  obtain ⟨-, -, -, hplaces, -⟩ := hreported _ hparse
  refine ⟨hparse, hplaces ⟨3, 7, .expectedExpression⟩ ?_, hlabel, hcounted 2 "a:" hlabel⟩
  decide +kernel

end Program

end SmallBasic
