import Mathlib.Algebra.Order.BigOperators.Group.List
import Mathlib.Algebra.Order.Group.Nat
import SmallBasic.Proofs.Acceptance
import SmallBasic.Proofs.Spelling
import SmallBasic.Proofs.TranslatedParsing

/-!
# Rows of tokens

Of a source only the lines that have tokens count, and of these only the tokens. Two sources with
the same rows of tokens have the same program, or the same errors, up to the numbers of lines: what
stands on the line of one row stands, in the other source, on the line of the same row.

The numbers of lines are taken out of a source by a translation. The source whose rows stand on the
lines from zero on is the same for both, and numbering its rows anew keeps their order.

## Main definitions

* `rows` — the lines that have tokens, with their numbers.
* `Draft.readRows` — reading rows into a draft.
* `Corresponds` — lines with the same row of tokens in two sources.
* `SameUpToLines` — results that differ only in the numbers of lines.

## Main statements

* `carries_parse` — a source is parsed as its rows on the lines from zero on, numbered anew.
* `sameUpToLines_parse` — sources with the same rows are parsed to the same, up to lines.
* `lines_of_parse` — the statements of a program stand, in order, on the lines that have tokens.
-/

namespace SmallBasic

/-! ## Rows -/

/-- The lines from a number on that have tokens, with their numbers. The tokens are placed on line
zero. -/
def rowsFrom (number : Nat) : List String → List (Nat × List Token)
  | [] => []
  | text :: rest =>
    match tokenize 0 text with
    | [] => rowsFrom (number + 1) rest
    | first :: tokens => (number, first :: tokens) :: rowsFrom (number + 1) rest

/-- The lines of a source that have tokens, with their numbers. -/
def rows (source : String) : List (Nat × List Token) := rowsFrom 0 (lines source)

/-- The tokens of the lines that have any. -/
def tokenRows (texts : List String) : List (List Token) :=
  (texts.map (tokenize 0)).filter (· ≠ [])

theorem map_snd_rowsFrom (number : Nat) (texts : List String) :
    (rowsFrom number texts).map Prod.snd = tokenRows texts := by
  induction texts generalizing number with
  | nil => rfl
  | cons text texts ih =>
    rw [tokenRows, List.map_cons, rowsFrom]
    cases htokens : tokenize 0 text with
    | nil => simpa [htokens, tokenRows] using ih (number + 1)
    | cons first tokens => simpa [htokens, tokenRows] using ih (number + 1)

theorem le_of_mem_rowsFrom {number line : Nat} {texts : List String}
    (hline : line ∈ (rowsFrom number texts).map Prod.fst) : number ≤ line := by
  induction texts generalizing number with
  | nil => cases hline
  | cons text texts ih =>
    rw [rowsFrom] at hline
    split at hline
    · exact Nat.le_of_succ_le (ih hline)
    · rcases List.mem_cons.1 hline with rfl | hline
      · exact Nat.le_refl _
      · exact Nat.le_of_succ_le (ih hline)

/-- Rows come in the order of their lines. -/
theorem pairwise_rowsFrom (number : Nat) (texts : List String) :
    ((rowsFrom number texts).map Prod.fst).Pairwise (· < ·) := by
  induction texts generalizing number with
  | nil => exact .nil
  | cons text texts ih =>
    rw [rowsFrom]
    split
    · exact ih (number + 1)
    · exact List.pairwise_cons.2 ⟨fun line hline => le_of_mem_rowsFrom hline, ih (number + 1)⟩

theorem pairwise_rows (source : String) : ((rows source).map Prod.fst).Pairwise (· < ·) :=
  pairwise_rowsFrom 0 (lines source)

/-! ## Reading rows -/

/-- The token on another line. -/
def Token.onLine (number : Nat) (token : Token) : Token := { token with line := number }

theorem tokenize_eq_map_onLine (number : Nat) (text : String) :
    tokenize number text = (tokenize 0 text).map (Token.onLine number) := by
  rw [tokenize_eq_filter, tokenize_eq_filter, scan, scanFrom_line, List.filter_map]
  rfl

namespace Draft

/-- Reads the tokens of a line. -/
def readRow (draft : Draft) (number : Nat) (tokens : List Token) : Except SyntaxError Draft :=
  match tokens.map (Token.onLine number) with
  | [] => .ok draft
  | first :: rest => draft.readTokens number first rest

/-- Reads rows. One that is refused leaves the draft as it was. -/
def readRows (draft : Draft) : List (Nat × List Token) → Draft × List SyntaxError
  | [] => (draft, [])
  | (number, tokens) :: rest =>
    match draft.readRow number tokens with
    | .ok next => next.readRows rest
    | .error error =>
      let (last, errors) := draft.readRows rest
      (last, error :: errors)

theorem readLine_eq_readRow (draft : Draft) (number : Nat) (text : String) :
    draft.readLine number text = draft.readRow number (tokenize 0 text) := by
  rw [readRow, ← tokenize_eq_map_onLine]
  rfl

/-- Reading lines is reading their rows. -/
theorem readLines_eq_readRows (draft : Draft) (number : Nat) (texts : List String) :
    draft.readLines number texts = draft.readRows (rowsFrom number texts) := by
  induction texts generalizing draft number with
  | nil => rfl
  | cons text texts ih =>
    rw [readLines, readLine_eq_readRow, rowsFrom]
    cases tokenize 0 text with
    | nil => exact ih draft (number + 1)
    | cons first rest =>
      simp only [ih]
      rfl

end Draft

theorem map_fst_rowsFrom_cons (number : Nat) (text : String) (texts : List String) :
    (rowsFrom number (text :: texts)).map Prod.fst =
      if tokenize number text = [] then (rowsFrom (number + 1) texts).map Prod.fst
      else number :: (rowsFrom (number + 1) texts).map Prod.fst := by
  rw [rowsFrom, tokenize_eq_map_onLine number text]
  split <;> simp [*]

/-! ## Lines anew -/

namespace Translation

/-- Other lines for everything. Nothing else changes. -/
def renumbered (line : Nat → Nat) (hline : StrictMono line) : Translation where
  line := line
  name := id
  text := Token.text
  expr := id
  cause := id
  strictMono_line := hline
  foldCase_name _ := rfl
  text_symbol _ := rfl
  text_literal _ := rfl
  length_text _ := rfl
  expr_literal _ := rfl
  expr_variable _ _ := by simp
  expr_field _ := rfl
  expr_binary _ _ _ := rfl
  expr_call _ _ := by simp
  cause_unexpected _ := rfl
  cause_renamed cause := by
    cases cause with
    | member error => cases error <;> rfl
    | _ => rfl

variable (line : Nat → Nat) (hline : StrictMono line)

theorem clause_renumbered (clause : Clause) : (renumbered line hline).clause clause = clause := by
  cases clause with
  | assign place value => cases place <;> simp [Translation.clause, place, renumbered]
  | _ => simp [Translation.clause, renumbered]

theorem statement_renumbered (statement : Statement) :
    (renumbered line hline).statement statement =
      { statement with line := line statement.line } := by
  rw [Translation.statement, clause_renumbered]
  rfl

theorem carries_readRow (draft : Draft) (number : Nat) (tokens : List Token) :
    (renumbered line hline).Agree (renumbered line hline).draft (draft.readRow number tokens)
      (((renumbered line hline).draft draft).readRow (line number) tokens) := by
  cases tokens with
  | nil => exact .ok draft
  | cons first rest =>
    have hcarries := carries_readTokens (T := renumbered line hline) draft number
      (first.onLine number) (rest.map (Token.onLine number))
    rwa [List.map_map] at hcarries

/-- Rows that are numbered anew are read into the draft that is numbered anew. -/
theorem readRows_renumbered (draft : Draft) (rows : List (Nat × List Token)) :
    ((renumbered line hline).draft draft).readRows (rows.map (Prod.map line id)) =
      ((renumbered line hline).draft (draft.readRows rows).1,
        (draft.readRows rows).2.map (renumbered line hline).carried) := by
  induction rows generalizing draft with
  | nil => rfl
  | cons row rows ih =>
    obtain ⟨number, tokens⟩ := row
    have hcarries := carries_readRow line hline draft number tokens
    rw [List.map_cons, Prod.map_apply, id, Draft.readRows, Draft.readRows]
    generalize draft.readRow number tokens = read at hcarries
    generalize ((renumbered line hline).draft draft).readRow (line number) tokens = reread
      at hcarries
    cases hcarries with
    | ok next => exact ih next
    | error hsame =>
      simp only [ih draft, List.map_cons, hsame]
      rfl

end Translation

/-- The number of a row's line. Past the last row it goes on, after a gap. -/
def lineAt (numbers : List Nat) (gap index : Nat) : Nat :=
  numbers[index]?.getD (numbers.sum + gap + index + 1)

theorem strictMono_lineAt {numbers : List Nat} (hnumbers : numbers.Pairwise (· < ·)) (gap : Nat) :
    StrictMono (lineAt numbers gap) := by
  refine strictMono_nat_of_lt_succ fun index => ?_
  unfold lineAt
  by_cases hnext : index + 1 < numbers.length
  · rw [List.getElem?_eq_getElem hnext, List.getElem?_eq_getElem (Nat.lt_of_succ_lt hnext)]
    exact List.pairwise_iff_getElem.1 hnumbers _ _ _ _ (Nat.lt_succ_self index)
  · rw [List.getElem?_eq_none (Nat.le_of_not_lt hnext)]
    cases hindex : numbers[index]? with
    | none =>
      simp only [Option.getD_none]
      omega
    | some line =>
      have hle := List.le_sum_of_mem (List.mem_of_getElem? hindex)
      simp only [Option.getD_some, Option.getD_none]
      omega

/-- A row whose line does not depend on the gap is one of the source. -/
theorem getElem?_of_lineAt_eq {numbers : List Nat} {index : Nat}
    (hsame : lineAt numbers 0 index = lineAt numbers 1 index) :
    numbers[index]? = some (lineAt numbers 0 index) := by
  unfold lineAt at hsame ⊢
  cases hindex : numbers[index]? with
  | none =>
    simp only [hindex, Option.getD_none] at hsame
    omega
  | some line => rfl

/-- Rows are those of the lines from zero on, numbered anew. -/
theorem map_lineAt_mapIdx (rows : List (Nat × List Token)) (gap : Nat) :
    ((rows.map Prod.snd).mapIdx Prod.mk).map (Prod.map (lineAt (rows.map Prod.fst) gap) id) =
      rows := by
  apply List.ext_getElem?
  intro index
  simp only [List.getElem?_map, List.getElem?_mapIdx]
  cases hrow : rows[index]? with
  | none => rfl
  | some row => simp [lineAt, hrow]

/-! ## Sources -/

/-- Reads rows of tokens on the lines from zero on. -/
def readTokenRows (tokens : List (List Token)) : Draft × List SyntaxError :=
  ({} : Draft).readRows (tokens.mapIdx Prod.mk)

/-- What becomes of rows of tokens on the lines from zero on. -/
def parseRows (tokens : List (List Token)) : Except (List SyntaxError) Program :=
  (readTokenRows tokens).1.finish (readTokenRows tokens).2

section Sources

variable (source : String) (gap : Nat)

/-- The translation that puts rows on the lines of a source. -/
def Translation.ofSource : Translation :=
  .renumbered (lineAt ((rows source).map Prod.fst) gap)
    (strictMono_lineAt (pairwise_rows source) gap)

theorem readLines_eq_readTokenRows :
    ({} : Draft).readLines 0 (lines source) =
      ((Translation.ofSource source gap).draft (readTokenRows ((rows source).map Prod.snd)).1,
        (readTokenRows ((rows source).map Prod.snd)).2.map
          (Translation.ofSource source gap).carried) := by
  have hempty : (Translation.ofSource source gap).draft {} = {} := by simp [Translation.draft]
  have hread := Translation.readRows_renumbered _
    (strictMono_lineAt (pairwise_rows source) gap) {} (((rows source).map Prod.snd).mapIdx Prod.mk)
  rw [map_lineAt_mapIdx (rows source) gap] at hread
  rw [Draft.readLines_eq_readRows, ← hempty]
  exact hread

/-- A source is parsed as its rows on the lines from zero on, numbered anew. -/
theorem carries_parse :
    Carries (List.map (Translation.ofSource source gap).carried) id
      (Translation.ofSource source gap).program (parseRows ((rows source).map Prod.snd))
      (Program.parse source) := by
  have hplain : List.map (Translation.ofSource source gap).plain = id := List.map_id_fun
  rw [Program.parse_eq_finish, readLines_eq_readTokenRows source gap, ← hplain]
  exact Translation.carries_finish _ (List.map_id _).symm

end Sources

/-! ## Results -/

/-- The lines that statements or errors stand on. -/
def resultLines : Except (List SyntaxError) Program → List Nat
  | .ok program => program.statements.toList.map (·.line)
  | .error errors => errors.map (·.line)

theorem resultLines_parse (source : String) (gap : Nat) :
    resultLines (Program.parse source) =
      (resultLines (parseRows ((rows source).map Prod.snd))).map
        (lineAt ((rows source).map Prod.fst) gap) := by
  have hcarries := carries_parse source gap
  generalize parseRows ((rows source).map Prod.snd) = result at hcarries
  generalize Program.parse source = parsed at hcarries
  cases hcarries with
  | ok program =>
    simp only [resultLines, Translation.program, Array.toList_map, List.map_map]
    rfl
  | error hsame =>
    rw [id] at hsame
    simp only [resultLines, ← hsame, List.map_map]
    rfl

/-- Statements and errors stand on lines that have tokens: no choice of lines past the last row
makes a difference. -/
theorem getElem?_of_mem_resultLines {source : String} {index : Nat}
    (hindex : index ∈ resultLines (parseRows ((rows source).map Prod.snd))) :
    ((rows source).map Prod.fst)[index]? = some (lineAt ((rows source).map Prod.fst) 0 index) := by
  have hsame := (resultLines_parse source 0).symm.trans (resultLines_parse source 1)
  exact getElem?_of_lineAt_eq (List.map_inj_left.1 hsame index hindex)

/-- The lines have the same row of tokens, and it is the same row in both sources. -/
def Corresponds (source other : String) (line otherLine : Nat) : Prop :=
  ∃ (index : Nat) (tokens : List Token), (rows source)[index]? = some (line, tokens) ∧
    (rows other)[index]? = some (otherLine, tokens)

/-- Both results are programs with the same clauses, links and names, or both are errors with the
same causes and columns, in the same order. Their lines are related by `R`. -/
inductive SameUpToLines (R : Nat → Nat → Prop) :
    Except (List SyntaxError) Program → Except (List SyntaxError) Program → Prop
  | ok {program other : Program}
      (hstatements : List.Forall₂ (fun statement otherStatement =>
        R statement.line otherStatement.line ∧ statement.clause = otherStatement.clause ∧
          statement.link = otherStatement.link)
        program.statements.toList other.statements.toList)
      (hlabels : program.labels = other.labels) (hsubs : program.subs = other.subs) :
      SameUpToLines R (.ok program) (.ok other)
  | error {errors others : List SyntaxError}
      (herrors : List.Forall₂ (fun error other =>
        R error.line other.line ∧ error.column = other.column ∧ error.cause = other.cause)
        errors others) :
      SameUpToLines R (.error errors) (.error others)

/-- Rows that are numbered anew in two ways come to the same, up to the numbers. -/
theorem Carries.sameUpToLines {R : Nat → Nat → Prop} {line otherLine : Nat → Nat}
    {hline : StrictMono line} {hother : StrictMono otherLine}
    {result parsed reparsed : Except (List SyntaxError) Program}
    (hfirst : Carries (List.map (Translation.renumbered line hline).carried) id
      (Translation.renumbered line hline).program result parsed)
    (hsecond : Carries (List.map (Translation.renumbered otherLine hother).carried) id
      (Translation.renumbered otherLine hother).program result reparsed)
    (hlines : ∀ index ∈ resultLines result, R (line index) (otherLine index)) :
    SameUpToLines R parsed reparsed := by
  cases hfirst with
  | ok program =>
    rw [hsecond.eq_ok rfl]
    refine .ok ?_ rfl rfl
    simp only [Translation.program, Array.toList_map, List.forall₂_map_left_iff,
      List.forall₂_map_right_iff, List.forall₂_same, Translation.statement_renumbered]
    intro statement hstatement
    exact ⟨hlines _ (List.mem_map_of_mem hstatement), trivial, trivial⟩
  | error hsame =>
    cases hsecond with
    | error hagain =>
      rw [id] at hsame hagain
      subst hsame hagain
      refine .error ?_
      simp only [List.forall₂_map_left_iff, List.forall₂_map_right_iff, List.forall₂_same]
      intro error herror
      exact ⟨hlines _ (List.mem_map_of_mem herror), rfl, rfl⟩

/-- Sources with the same rows of tokens come to the same, up to the numbers of their lines. -/
theorem sameUpToLines_parse {source other : String}
    (hrows : (rows source).map Prod.snd = (rows other).map Prod.snd) :
    SameUpToLines (Corresponds source other) (Program.parse source) (Program.parse other) := by
  have hother := carries_parse other 0
  rw [← hrows] at hother
  refine (carries_parse source 0).sameUpToLines hother fun index hindex => ?_
  have hline := getElem?_of_mem_resultLines hindex
  have hotherLine := getElem?_of_mem_resultLines (hrows ▸ hindex)
  have htokens := congrArg (·[index]?) hrows
  simp only [List.getElem?_map, Option.map_eq_some_iff] at hline hotherLine htokens
  obtain ⟨⟨_, tokens⟩, hrow, rfl⟩ := hline
  obtain ⟨⟨_, others⟩, hotherRow, rfl⟩ := hotherLine
  rw [hrow, hotherRow] at htokens
  cases htokens
  exact ⟨index, tokens, hrow, hotherRow⟩

/-! ## The order of statements -/

/-- A line with tokens that is not refused adds one statement, on that line. -/
theorem Draft.lines_readLines {draft last : Draft} {number : Nat} {texts : List String}
    (hread : draft.readLines number texts = (last, [])) :
    last.statements.toList.map (·.line) =
      draft.statements.toList.map (·.line) ++ (rowsFrom number texts).map Prod.fst := by
  induction texts generalizing draft number with
  | nil =>
    cases hread
    simp [rowsFrom]
  | cons text texts ih =>
    rw [readLines, readLine_eq_readRow] at hread
    rw [rowsFrom]
    cases htokens : tokenize 0 text with
    | nil =>
      rw [htokens] at hread
      exact ih hread
    | cons first rest =>
      rw [htokens] at hread
      cases hrow : draft.readRow number (first :: rest) with
      | error e =>
        rw [hrow] at hread
        cases hread
      | ok next =>
        rw [hrow] at hread
        obtain ⟨clause, -, rfl⟩ := readClause_of_readTokens hrow
        rw [ih hread, map_add fun _ _ _ => rfl]
        simp

theorem Names.line_of_resolve {names : Names} {statement resolved : Statement}
    (hresolve : names.resolve statement = .ok resolved) : resolved.line = statement.line := by
  unfold resolve at hresolve
  grind

theorem Names.lines_resolveAll (names : Names) (statements : List Statement) :
    (names.resolveAll statements).1.map (·.line) = statements.map (·.line) := by
  induction statements with
  | nil => rfl
  | cons statement statements ih =>
    rw [resolveAll]
    cases hresolve : names.resolve statement with
    | ok resolved => simp [line_of_resolve hresolve, ih]
    | error cause => simp [ih]

/-- The statements of a program stand, in order, on the lines that have tokens. -/
theorem lines_of_parse {source : String} {program : Program}
    (hparse : Program.parse source = .ok program) :
    program.statements.toList.map (·.line) = (rows source).map Prod.fst := by
  obtain ⟨draft, names, hlines, -, -, hresolve, -⟩ := Program.parse_eq_ok hparse
  have hlinked := names.lines_resolveAll draft.statements.toList
  rw [hresolve] at hlinked
  exact hlinked.trans (Draft.lines_readLines hlines)

end SmallBasic
