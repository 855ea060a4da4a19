import Mathlib.Logic.Relation
import SmallBasic.Proofs.Padding
import SmallBasic.Proofs.Rows

/-!
# Layout

How a source is laid out does not matter: lines without tokens between its lines, blanks and
comments at the end of them, and how they end. Every change of layout leaves the rows of tokens as
they are, so parsing differs in the numbers of lines only.

## Main definitions

* `StartsLine`, `EndsLine` — where a line starts, and what follows it.
* `LayoutStep` — one change of layout.
* `Relaid` — sources that differ in any number of such changes, back and forth.

## Main statements

* `LayoutStep.textRows_eq` — a change of layout leaves the rows of tokens.
* `parse_of_relaid` — sources that differ in layout come to the same, up to the numbers of lines.
-/

namespace SmallBasic

/-! ## Changes of layout -/

/-- What follows the text starts a line: the text ends with a line feed, or is empty. -/
def StartsLine (before : List Char) : Prop := ∀ c ∈ before.getLast?, c = '\n'

instance (before : List Char) : Decidable (StartsLine before) :=
  decidable_of_iff (before.getLast?.all (· == '\n') = true)
    (by simp [StartsLine, all_iff_forall_mem])

/-- What can follow a line: nothing, a carriage return and a line feed, or a line feed alone, unless
the line ends with a carriage return, which would belong to the line feed. -/
inductive EndsLine (line : List Char) : List Char → Prop
  | last : EndsLine line []
  | feed (hline : line.getLast? ≠ some '\r') (after : List Char) : EndsLine line ('\n' :: after)
  | returnFeed (after : List Char) : EndsLine line ('\r' :: '\n' :: after)

/-- One change of layout. An empty last line to which `append` is applied becomes a last line
without tokens and without a line feed. After `endText`, and `returnFeed` back, the last line ends
with a line feed alone. -/
inductive LayoutStep : List Char → List Char → Prop
  /-- A line without tokens is put before any line, or behind the last one. -/
  | insertLine {before pad : List Char} (hbefore : StartsLine before) (hpad : IsPadding pad)
      (after : List Char) : LayoutStep (before ++ after) (before ++ (pad ++ '\n' :: after))
  /-- A line end is put behind the last line. -/
  | endText (text : List Char) : LayoutStep text (text ++ ['\r', '\n'])
  /-- A carriage return is put before a line feed that has none. -/
  | returnFeed {before : List Char} (hreturn : before.getLast? ≠ some '\r') (after : List Char) :
      LayoutStep (before ++ '\n' :: after) (before ++ '\r' :: '\n' :: after)
  /-- Blanks or a comment are put behind what stands on a line. -/
  | append {before line pad after : List Char} (hbefore : StartsLine before) (hfeed : '\n' ∉ line)
      (hsettled : Settled line) (hpad : IsPadding pad) (hend : EndsLine line after) :
      LayoutStep (before ++ (line ++ after)) (before ++ (line ++ (pad ++ after)))

/-- The sources differ in layout only. -/
def Relaid (source other : String) : Prop :=
  Relation.EqvGen LayoutStep source.toList other.toList

/-! ## Rows of a text -/

/-- The rows of tokens of a text. -/
def textRows (text : List Char) : List (List Token) :=
  tokenRows ((linesFrom '\n' '\r' [] text).map String.ofList)

theorem map_snd_rows (source : String) : (rows source).map Prod.snd = textRows source.toList :=
  map_snd_rowsFrom 0 (lines source)

/-- The row of a line, if it has tokens. -/
def lineRow (line : List Char) : List (List Token) := tokenRows [String.ofList line]

/-- A line as it is read, without a carriage return at its end. -/
def withoutReturn (line : List Char) : List Char := (dropReturn '\r' line.reverse).reverse

theorem tokenRows_append (texts others : List String) :
    tokenRows (texts ++ others) = tokenRows texts ++ tokenRows others := by
  simp [tokenRows]

theorem linesFrom_feed (line text rest : List Char) :
    linesFrom '\n' '\r' line (text ++ '\n' :: rest) =
      linesFrom '\n' '\r' line (text ++ ['\n']) ++ linesFrom '\n' '\r' [] rest := by
  induction text generalizing line with
  | nil => simp [linesFrom]
  | cons c text ih =>
    rw [List.cons_append, List.cons_append, linesFrom, linesFrom]
    split
    · rw [ih, List.cons_append]
    · exact ih (c :: line)

theorem textRows_append {before : List Char} (hbefore : StartsLine before) (rest : List Char) :
    textRows (before ++ rest) = textRows before ++ textRows rest := by
  rcases List.eq_nil_or_concat' before with rfl | ⟨text, c, rfl⟩
  · rfl
  · obtain rfl : c = '\n' := hbefore c (by simp)
    rw [List.append_assoc, List.singleton_append, textRows, linesFrom_feed, List.map_append,
      tokenRows_append]
    rfl

theorem textRows_feed {line : List Char} (hfeed : '\n' ∉ line) (rest : List Char) :
    textRows (line ++ '\n' :: rest) = lineRow (withoutReturn line) ++ textRows rest := by
  have hline : ∀ c ∈ line, c ≠ '\n' := fun c hc heq => hfeed (heq ▸ hc)
  rw [textRows, linesFrom_line hline, List.append_nil, List.map_cons, ← List.singleton_append,
    tokenRows_append]
  rfl

theorem textRows_last {line : List Char} (hfeed : '\n' ∉ line) : textRows line = lineRow line := by
  have hlines : ∀ start : List Char, linesFrom '\n' '\r' start line =
      if (line.reverse ++ start).isEmpty then [] else [(line.reverse ++ start).reverse] := by
    induction line with
    | nil => simp [linesFrom]
    | cons c line ih =>
      intro start
      have hc : c ≠ '\n' := fun heq => hfeed (heq ▸ List.mem_cons_self)
      rw [linesFrom, if_neg hc, ih (List.not_mem_of_not_mem_cons hfeed)]
      simp
  rw [textRows, hlines, List.append_nil, List.reverse_reverse]
  cases line with
  | nil => rfl
  | cons c line => simp [lineRow]

/-! ## Ends of lines -/

@[simp] theorem withoutReturn_return (line : List Char) :
    withoutReturn (line ++ ['\r']) = line := by
  simp [withoutReturn, dropReturn]

theorem withoutReturn_eq_self {line : List Char} (hline : line.getLast? ≠ some '\r') :
    withoutReturn line = line := by
  rw [withoutReturn, dropReturn_of_head?, List.reverse_reverse]
  intro c hc
  rw [List.head?_reverse] at hc
  rintro rfl
  exact hline hc

/-- A carriage return at the end of padding is lost. What is left of it is padding. -/
theorem exists_withoutReturn_append {line pad : List Char} (hline : line.getLast? ≠ some '\r')
    (hpad : IsPadding pad) :
    ∃ kept, IsPadding kept ∧ withoutReturn (line ++ pad) = line ++ kept := by
  rcases List.eq_nil_or_concat' pad with rfl | ⟨kept, c, rfl⟩
  · exact ⟨[], .nil, by rw [List.append_nil, withoutReturn_eq_self hline]⟩
  · by_cases hreturn : c = '\r'
    · subst hreturn
      exact ⟨kept, hpad.of_append, by rw [← List.append_assoc, withoutReturn_return]⟩
    · refine ⟨kept ++ [c], hpad, withoutReturn_eq_self ?_⟩
      simpa using hreturn

theorem lineRow_append {line pad : List Char} (hfeed : '\n' ∉ line) (hsettled : Settled line)
    (hpad : IsPadding pad) : lineRow (line ++ pad) = lineRow line := by
  simp only [lineRow, tokenRows, List.map_cons, tokenize_append hfeed hsettled hpad]

/-- Every text ends with a line, which may be empty. -/
theorem exists_lastLine (text : List Char) :
    ∃ before line, text = before ++ line ∧ StartsLine before ∧ '\n' ∉ line := by
  induction text using List.reverseRecOn with
  | nil => exact ⟨[], [], rfl, by simp [StartsLine], by simp⟩
  | append_singleton text c ih =>
    obtain ⟨before, line, rfl, hbefore, hfeed⟩ := ih
    by_cases hc : c = '\n'
    · exact ⟨before ++ line ++ [c], [], by simp, by simp [StartsLine, hc], by simp⟩
    · exact ⟨before, line ++ [c], by simp, hbefore, by simp [hfeed, Ne.symm hc]⟩

/-! ## What changes of layout leave -/

theorem textRows_insertLine {pad : List Char} (hpad : IsPadding pad) (after : List Char) :
    textRows (pad ++ '\n' :: after) = textRows after := by
  have hempty : ([] : List Char).getLast? ≠ some '\r' := by simp
  obtain ⟨kept, hkept, hread⟩ := exists_withoutReturn_append hempty hpad
  rw [List.nil_append] at hread
  have hvacant : lineRow ([] ++ kept) = lineRow [] :=
    lineRow_append (by simp) (by simp [Settled, scanFrom]) hkept
  rw [textRows_feed hpad.oneLine, hread, hvacant]
  rfl

theorem textRows_returnFeed {line : List Char} (hfeed : '\n' ∉ line) (after : List Char) :
    textRows (line ++ '\r' :: '\n' :: after) = lineRow line ++ textRows after := by
  have hreturn : '\n' ∉ line ++ ['\r'] := by simp [hfeed]
  have hread := textRows_feed hreturn after
  rwa [withoutReturn_return, List.append_assoc, List.singleton_append] at hread

theorem textRows_append_padding {line pad after : List Char} (hfeed : '\n' ∉ line)
    (hsettled : Settled line) (hpad : IsPadding pad) (hend : EndsLine line after) :
    textRows (line ++ (pad ++ after)) = textRows (line ++ after) := by
  have hboth : '\n' ∉ line ++ pad := by simp [hfeed, hpad.oneLine]
  rw [← List.append_assoc]
  cases hend with
  | last =>
    rw [List.append_nil, List.append_nil, textRows_last hboth, textRows_last hfeed,
      lineRow_append hfeed hsettled hpad]
  | feed hline after =>
    obtain ⟨kept, hkept, hread⟩ := exists_withoutReturn_append hline hpad
    rw [textRows_feed hboth, hread, textRows_feed hfeed, withoutReturn_eq_self hline,
      lineRow_append hfeed hsettled hkept]
  | returnFeed after =>
    rw [textRows_returnFeed hboth, textRows_returnFeed hfeed, lineRow_append hfeed hsettled hpad]

/-- A change of layout leaves the rows of tokens. -/
theorem LayoutStep.textRows_eq {text other : List Char} (hstep : LayoutStep text other) :
    textRows text = textRows other := by
  cases hstep with
  | insertLine hbefore hpad after =>
    rw [textRows_append hbefore, textRows_append hbefore, textRows_insertLine hpad]
  | endText =>
    obtain ⟨before, line, rfl, hbefore, hfeed⟩ := exists_lastLine text
    rw [List.append_assoc, textRows_append hbefore, textRows_append hbefore,
      textRows_returnFeed hfeed, textRows_last hfeed]
    simp [textRows, linesFrom, tokenRows]
  | @returnFeed text hreturn after =>
    obtain ⟨before, line, rfl, hbefore, hfeed⟩ := exists_lastLine text
    have hline : line.getLast? ≠ some '\r' := by
      intro hlast
      simp [List.getLast?_append, hlast] at hreturn
    rw [List.append_assoc, List.append_assoc, textRows_append hbefore, textRows_append hbefore,
      textRows_returnFeed hfeed, textRows_feed hfeed, withoutReturn_eq_self hline]
  | append hbefore hfeed hsettled hpad hend =>
    rw [textRows_append hbefore, textRows_append hbefore,
      textRows_append_padding hfeed hsettled hpad hend]

theorem Relaid.rows_eq {source other : String} (hrelaid : Relaid source other) :
    (rows source).map Prod.snd = (rows other).map Prod.snd := by
  rw [map_snd_rows, map_snd_rows]
  unfold Relaid at hrelaid
  generalize source.toList = text at hrelaid
  generalize other.toList = otherText at hrelaid
  induction hrelaid with
  | rel _ _ hstep => exact hstep.textRows_eq
  | refl _ => rfl
  | symm _ _ _ ih => exact ih.symm
  | trans _ _ _ _ _ hfirst hsecond => exact hfirst.trans hsecond

/-- Sources that differ in layout have the same lines with tokens, one by one. They come to the
same, up to the numbers of these lines, and statements come in the order of their lines. -/
theorem parse_of_relaid {source other : String} (hrelaid : Relaid source other) :
    (rows source).map Prod.snd = (rows other).map Prod.snd ∧
      SameUpToLines (Corresponds source other) (Program.parse source) (Program.parse other) ∧
      ∀ program, Program.parse source = .ok program →
        (program.statements.toList.map (·.line)).Pairwise (· < ·) := by
  refine ⟨hrelaid.rows_eq, sameUpToLines_parse hrelaid.rows_eq, fun program hparse => ?_⟩
  rw [lines_of_parse hparse]
  exact pairwise_rows source

theorem parse_of_relaid_loop :
    Relaid "a:\nGoto a" "a:\r\n' again\nGoto a '" ∧
      (Program.parse "a:\nGoto a").isOk = true ∧
      SameUpToLines (Corresponds "a:\nGoto a" "a:\r\n' again\nGoto a '")
        (Program.parse "a:\nGoto a") (Program.parse "a:\r\n' again\nGoto a '") := by
  have hreturn : LayoutStep ("a:".toList ++ '\n' :: "Goto a".toList)
      ("a:".toList ++ '\r' :: '\n' :: "Goto a".toList) := .returnFeed (by decide) _
  have hinsert : LayoutStep ("a:\r\n".toList ++ "Goto a".toList)
      ("a:\r\n".toList ++ ("' again".toList ++ '\n' :: "Goto a".toList)) :=
    .insertLine (by decide) (by decide) _
  have happend : LayoutStep ("a:\r\n' again\n".toList ++ ("Goto a".toList ++ []))
      ("a:\r\n' again\n".toList ++ ("Goto a".toList ++ (" '".toList ++ []))) :=
    .append (by decide) (by decide) (by decide +kernel) (by decide) .last
  have hrelaid : Relaid "a:\nGoto a" "a:\r\n' again\nGoto a '" :=
    ((Relation.EqvGen.rel _ _ hreturn).trans _ _ _ (.rel _ _ hinsert)).trans _ _ _
      (.rel _ _ happend)
  exact ⟨hrelaid, by decide +kernel, (parse_of_relaid hrelaid).2.1⟩

end SmallBasic
