import SmallBasic.Proofs.ArrayCodec
import SmallBasic.Proofs.Parsed

/-!
# Which sources are programs

A source in which every line makes sense by itself can still fail to be a program, for two kinds of
reasons: its blocks do not fit together, or its names do not. This file says exactly when it is one.

The blocks are given by a grammar, whose derivations are the outlines: a body is a sequence of
simple clauses, loops, subroutines and `If` chains, and no subroutine stands inside another one. The
reader does not know the grammar. It keeps a stack of open blocks, and refuses a line that does not
fit the top of it.

## Main definitions

* `Line.alone`, `Line.aloneAll` — what a line, or each of several lines, says by itself.
* `Body.apart` — no subroutine stands inside another one.
* `nestApart` — the open blocks after a clause, if it may stand there.
* `Program.WellFormed` — the clauses of a program: they derive from the grammar and their names are
  in order.

## Main statements

* `nestApartAll_body` — the stack of open blocks recognises the grammar.
* `Draft.exists_nestApartAll_of_readLines` — the reader refuses the lines that do not fit.
* `Program.parse_isOk_iff` — a source is a program exactly if its clauses are well formed.
-/

namespace SmallBasic

/-! ## The grammar -/

/-- Whether a bracket encloses the body of a subroutine. -/
def Bracket.isSub : Bracket → Bool
  | .sub _ => true
  | .while _ | .for _ _ _ => false

mutual

/-- No subroutine stands inside another one. `inside` tells whether the body is itself inside
one. -/
def Body.apart (inside : Bool) : Body → Bool
  | .nil => true
  | .step _ _ rest => rest.apart inside
  | .block bracket inner rest =>
    !(bracket.isSub && inside) && inner.apart (bracket.isSub || inside) && rest.apart inside
  | .chain _ inner branches rest =>
    inner.apart inside && branches.apart inside && rest.apart inside

/-- No subroutine stands inside another one, in the rest of a chain. -/
def Branches.apart (inside : Bool) : Branches → Bool
  | .endIf => true
  | .else inner => inner.apart inside
  | .elseIf _ inner branches => inner.apart inside && branches.apart inside

end

/-! ## The stack of open blocks -/

/-- The words of the open blocks after a clause, innermost first. There are none if the clause does
not belong to the innermost block, or starts a subroutine inside another one. -/
def nestApart (words : List Keyword) (clause : Clause) : Option (List Keyword) :=
  if clause.opener? = some .sub ∧ .sub ∈ words then none else nest words clause

/-- The words of the open blocks after a sequence of clauses. -/
def nestApartAll (words : List Keyword) : List Clause → Option (List Keyword)
  | [] => some words
  | clause :: clauses => (nestApart words clause).bind (nestApartAll · clauses)

theorem nestApartAll_append (words : List Keyword) (clauses more : List Clause) :
    nestApartAll words (clauses ++ more) =
      (nestApartAll words clauses).bind (nestApartAll · more) := by
  induction clauses generalizing words with
  | nil => rfl
  | cons clause clauses ih =>
    simp only [List.cons_append, nestApartAll, ih, Option.bind_assoc]

theorem nest_of_nestApart {words next : List Keyword} {clause : Clause}
    (hnest : nestApart words clause = some next) : nest words clause = some next := by
  unfold nestApart at hnest
  split at hnest
  · cases hnest
  · exact hnest

theorem nestAll_of_nestApartAll {words last : List Keyword} {clauses : List Clause}
    (hnest : nestApartAll words clauses = some last) : nestAll words clauses = some last := by
  induction clauses generalizing words with
  | nil => exact hnest
  | cons clause clauses ih =>
    obtain ⟨next, hnext, hrest⟩ := Option.bind_eq_some_iff.1 hnest
    exact nestAll_cons_eq_some.2 ⟨next, nest_of_nestApart hnext, ih hrest⟩

section Steps

variable (words : List Keyword)

theorem nestApart_simple {clause : Clause} (hrole : clause.role = .simple) :
    nestApart words clause = some words := by
  have hopener : clause.opener? ≠ some .sub := by
    cases clause <;> simp [Clause.opener?, Clause.role] at hrole ⊢
  rw [nestApart, if_neg (fun h => hopener h.1), nest_simple hrole]

theorem nestApart_opener (bracket : Bracket) :
    nestApart words bracket.opener =
      if bracket.isSub && words.contains .sub then none else some (bracket.word :: words) := by
  rw [nestApart, nest_opener]
  cases bracket <;> simp [Bracket.opener, Bracket.isSub, Clause.opener?]

theorem nestApart_closer (bracket : Bracket) :
    nestApart (bracket.word :: words) bracket.closer = some words := by
  cases bracket <;> rfl

theorem contains_word (bracket : Bracket) :
    (bracket.word :: words).contains .sub = (bracket.isSub || words.contains .sub) := by
  cases bracket <;> simp [Bracket.word, Bracket.isSub]

end Steps

mutual

/-- The stack recognises the grammar: a body leaves the open blocks as they were, unless a
subroutine in it stands inside another one. -/
theorem nestApartAll_body (words : List Keyword) : (body : Body) →
    nestApartAll words body.clauses =
      if body.apart (words.contains .sub) then some words else none
  | .nil => rfl
  | .step clause hrole rest => by
    rw [Body.clauses, nestApartAll, nestApart_simple words hrole, Option.bind_some,
      nestApartAll_body words rest, Body.apart]
  | .block bracket inner rest => by
    have hinner := nestApartAll_body (bracket.word :: words) inner
    have hrest := nestApartAll_body words rest
    rw [contains_word] at hinner
    rw [Body.clauses, nestApartAll, nestApart_opener, Body.apart]
    cases bracket.isSub && words.contains .sub with
    | true => simp
    | false =>
      simp only [Bool.false_eq_true, if_false, Option.bind_some, nestApartAll_append, hinner]
      cases inner.apart (bracket.isSub || words.contains .sub) with
      | true => simp [nestApartAll, nestApart_closer, hrest]
      | false => simp
  | .chain condition inner branches rest => by
    have hinner := nestApartAll_body (.if :: words) inner
    have hbranches := nestApartAll_branches words (.inl rfl) branches
    have hrest := nestApartAll_body words rest
    have hif : nestApart words (.if condition) = some (.if :: words) := rfl
    have hinside : (Keyword.if :: words).contains .sub = words.contains .sub := by simp
    rw [hinside] at hinner
    rw [Body.clauses, nestApartAll, hif, Option.bind_some, nestApartAll_append, hinner, Body.apart]
    cases inner.apart (words.contains .sub) with
    | true =>
      simp only [if_true, Option.bind_some, nestApartAll_append, hbranches]
      cases branches.apart (words.contains .sub) with
      | true => simp [hrest]
      | false => simp
    | false => simp

/-- The rest of a chain closes the branch that is open. -/
theorem nestApartAll_branches (words : List Keyword) {word : Keyword}
    (hword : word = .if ∨ word = .elseIf) : (branches : Branches) →
    nestApartAll (word :: words) branches.clauses =
      if branches.apart (words.contains .sub) then some words else none
  | .endIf => by obtain rfl | rfl := hword <;> rfl
  | .else inner => by
    have hinner := nestApartAll_body (.else :: words) inner
    have helse : nestApart (word :: words) .else = some (.else :: words) := by
      obtain rfl | rfl := hword <;> rfl
    have hinside : (Keyword.else :: words).contains .sub = words.contains .sub := by simp
    have hend : nestApart (.else :: words) .endIf = some words := rfl
    rw [hinside] at hinner
    rw [Branches.clauses, nestApartAll, helse, Option.bind_some, nestApartAll_append, hinner,
      Branches.apart]
    cases inner.apart (words.contains .sub) with
    | true => simp [nestApartAll, hend]
    | false => simp
  | .elseIf condition inner branches => by
    have hinner := nestApartAll_body (.elseIf :: words) inner
    have hbranches := nestApartAll_branches words (.inr rfl) branches
    have helseIf : nestApart (word :: words) (.elseIf condition) = some (.elseIf :: words) := by
      obtain rfl | rfl := hword <;> rfl
    have hinside : (Keyword.elseIf :: words).contains .sub = words.contains .sub := by simp
    rw [hinside] at hinner
    rw [Branches.clauses, nestApartAll, helseIf, Option.bind_some, nestApartAll_append, hinner,
      Branches.apart]
    cases inner.apart (words.contains .sub) with
    | true => simp [hbranches]
    | false => simp

end

/-- The sequences of clauses that open and close their blocks in order are those of the grammar. -/
theorem nestApartAll_eq_some_iff {clauses : List Clause} :
    nestApartAll [] clauses = some [] ↔
      ∃ body : Body, body.clauses = clauses ∧ body.apart false = true := by
  constructor
  · intro hnest
    obtain ⟨body, rfl⟩ := exists_outline (nestAll_of_nestApartAll hnest)
    rw [nestApartAll_body] at hnest
    refine ⟨body, rfl, ?_⟩
    simpa using hnest
  · rintro ⟨body, rfl, hapart⟩
    rw [nestApartAll_body]
    simpa using hapart

/-! ## Lines -/

namespace Line

/-- What a line says by itself. A line without tokens says nothing. -/
def alone (number : Nat) (text : String) : Except SyntaxError (Option Clause) :=
  match tokenize number text with
  | [] => .ok none
  | first :: rest => some <$> (ofTokens number (first :: rest)).readClause first rest

/-- What lines say, each by itself, in order. -/
def aloneAll (number : Nat) : List String → Except SyntaxError (List Clause)
  | [] => .ok []
  | text :: texts => do
    let clause? ← alone number text
    let clauses ← aloneAll (number + 1) texts
    return clause?.toList ++ clauses

theorem exists_of_isOk_aloneAll {number : Nat} {texts : List String}
    (hok : (aloneAll number texts).isOk = true) :
    ∃ clauses, aloneAll number texts = .ok clauses := by
  cases halone : aloneAll number texts with
  | ok clauses => exact ⟨clauses, rfl⟩
  | error error => simp [halone, Except.isOk, Except.toBool] at hok

/-- A line that starts with a reserved word says a clause that does. -/
theorem word?_of_readClause {line : Line} {first : Token} {rest : List Token} {clause : Clause}
    {word : Keyword} (hread : line.readClause first rest = .ok clause)
    (hkind : first.kind = .keyword word) : clause.word? = some word := by
  rw [readClause, hkind] at hread
  exact (readsAs_of_readKeyword hread).word?_eq

end Line

namespace Draft

variable {draft : Draft} {words : List Keyword} {clause : Clause}

/-- The clauses of a draft. -/
def clauses (draft : Draft) : List Clause := draft.statements.toList.map (·.clause)

/-- What does not look at links only sees that a statement is added. -/
theorem map_add {α : Type} {view : Statement → α}
    (hview : ∀ line clause link, view ⟨line, clause, link⟩ = view ⟨line, clause, none⟩)
    (draft : Draft) (line : Nat) (clause : Clause) :
    (draft.add line clause).statements.toList.map view =
      draft.statements.toList.map view ++ [view ⟨line, clause, none⟩] := by
  have hlink : ∀ (statements : Array Statement) (index target : Nat),
      (link statements index target).toList.map view = statements.toList.map view := by
    intro statements index target
    apply List.ext_getElem?
    intro i
    simp only [link, Array.toList_modify, List.getElem?_map, List.getElem?_modify]
    split
    · cases statements.toList[i]? with
      | none => rfl
      | some statement => exact congrArg some ((hview _ _ _).trans (hview _ _ statement.link).symm)
    · simp
  unfold add
  split <;> simp [hlink, hview _ _ (some _)]

theorem clauses_add (draft : Draft) (line : Nat) (clause : Clause) :
    (draft.add line clause).clauses = draft.clauses ++ [clause] :=
  map_add (fun _ _ _ => rfl) draft line clause

/-- A subroutine is open if its word is on the stack. -/
theorem Tracks.inSub_iff (htracks : draft.Tracks words) : draft.inSub = true ↔ .sub ∈ words := by
  have hmem : some .sub ∈ draft.openBlocks.map draft.openerAt? ↔ some .sub ∈ words.map some := by
    rw [htracks]
  simpa [inSub] using hmem

/-- Where no block is open, none can end. -/
theorem nest_nil_of_isEnd (hend : clause.isEnd = true) : nest [] clause = none := by
  cases clause <;> first | rfl | cases hend

/-- A clause that ends a branch or block belongs to the innermost one where it nests. -/
theorem block_of_nest {inner word : Keyword} {next : List Keyword} (hend : clause.isEnd = true)
    (hword : clause.word? = some word) (hnest : nest (inner :: words) clause = some next)
    {opener : Clause} (hopener : opener.opener? = some inner) :
    inner.block = word.block ∧ (inner = .else → word = .endIf) := by
  cases clause with
  | elseIf | «else» =>
    cases hword
    simp only [nest, Clause.role] at hnest
    split at hnest
    · rename_i hbranch
      obtain rfl | rfl := hbranch <;> simp [Keyword.block]
    · cases hnest
  | endIf | endWhile | endFor | endSub =>
    cases hword
    simp only [nest, Clause.role, Clause.word?, Option.some.injEq] at hnest
    split at hnest
    · rename_i hcloser
      cases opener <;> cases hopener <;> simp [Keyword.closer, Keyword.block] at hcloser ⊢
    · cases hnest
  | _ => cases hend

/-- A word is not refused where the clause that it starts nests. -/
theorem refusal?_of_nest {word : Keyword} {next : List Keyword} (htracks : draft.Tracks words)
    (hword : clause.word? = some word) (hnest : nest words clause = some next) (first : Token) :
    draft.refusal? first word = none := by
  unfold refusal?
  cases hneeds : word.needsBlock with
  | false => rfl
  | true =>
    have hend : clause.isEnd = true := by
      cases clause <;> cases hword <;> first | rfl | cases hneeds
    cases words with
    | nil => simp [nest_nil_of_isEnd hend] at hnest
    | cons inner outer =>
      obtain ⟨hinner, opener, hopener⟩ := htracks.innermost?_eq
      obtain ⟨hblock, helse⟩ := block_of_nest hend hword hnest hopener
      simp only [hinner, Option.map_some, hblock, Bool.not_true, Bool.false_eq_true, if_false,
        if_true, Option.some.injEq, ite_eq_right_iff, reduceCtorEq, imp_false, not_and, not_not]
      exact helse

section ReadTokens

variable {number : Nat} {first : Token} {rest : List Token}

/-- What becomes of a line that makes sense by itself and whose word is not refused. -/
theorem readTokens_eq
    (hclause : (Line.ofTokens number (first :: rest)).readClause first rest = .ok clause)
    (hrefusal : ∀ word, first.kind = .keyword word → draft.refusal? first word = none) :
    draft.readTokens number first rest =
      if clause.opener? = some .sub ∧ draft.inSub then .error (first.error .nestedSub)
      else .ok (draft.add number clause) := by
  cases hkind : first.kind with
  | keyword word =>
    simp only [readTokens, hkind, hrefusal word hkind, hclause]
    rfl
  | _ =>
    simp only [readTokens, hkind, hclause]
    rfl

theorem refusal?_of_readTokens {last : Draft}
    (hread : draft.readTokens number first rest = .ok last) (word : Keyword)
    (hkind : first.kind = .keyword word) : draft.refusal? first word = none := by
  cases hrefusal : draft.refusal? first word with
  | none => rfl
  | some error =>
    simp only [readTokens, hkind, hrefusal] at hread
    cases hread

/-- A line that makes sense by itself is read exactly where its clause may stand. -/
theorem readTokens_eq_ok_iff (htracks : draft.Tracks words)
    (hclause : (Line.ofTokens number (first :: rest)).readClause first rest = .ok clause)
    {last : Draft} :
    draft.readTokens number first rest = .ok last ↔
      last = draft.add number clause ∧ ∃ next, nestApart words clause = some next := by
  unfold nestApart
  simp only [← htracks.inSub_iff]
  constructor
  · intro hread
    have hrefusal := refusal?_of_readTokens hread
    rw [readTokens_eq hclause hrefusal] at hread
    split at hread
    · cases hread
    · rename_i hapart
      cases hread
      have hword : ∀ word, clause.word? = some word → draft.refusal? first word = none :=
        fun word hword => hrefusal word (Line.kind_of_readClause hclause hword)
      rw [if_neg hapart]
      exact ⟨rfl, exists_nest htracks hword⟩
  · rintro ⟨rfl, next, hnest⟩
    split at hnest
    · cases hnest
    · rename_i hapart
      have hrefusal : ∀ word, first.kind = .keyword word → draft.refusal? first word = none :=
        fun word hkind =>
          refusal?_of_nest htracks (Line.word?_of_readClause hclause hkind) hnest first
      rw [readTokens_eq hclause hrefusal, if_neg hapart]

end ReadTokens

/-- A line that makes sense by itself is blank, or is read as any line with tokens. -/
theorem readLine_of_alone (draft : Draft) {number : Nat} {text : String} {clause? : Option Clause}
    (halone : Line.alone number text = .ok clause?) :
    (clause? = none ∧ draft.readLine number text = .ok draft) ∨
      ∃ clause first rest, clause? = some clause ∧
        (Line.ofTokens number (first :: rest)).readClause first rest = .ok clause ∧
        draft.readLine number text = draft.readTokens number first rest := by
  unfold Line.alone at halone
  unfold readLine
  generalize tokenize number text = tokens at halone ⊢
  cases tokens with
  | nil =>
    cases halone
    exact .inl ⟨rfl, rfl⟩
  | cons first rest =>
    obtain ⟨clause, hclause, rfl⟩ := Except.map_eq_ok_iff.1 halone
    exact .inr ⟨clause, first, rest, rfl, hclause, rfl⟩

/-- Lines that make sense by themselves, and whose clauses may stand where they do, are all read. -/
theorem exists_readLines_of_nestApartAll {number : Nat} {texts : List String}
    {clauses : List Clause} {left : List Keyword} (htracks : draft.Tracks words)
    (halone : Line.aloneAll number texts = .ok clauses)
    (hnest : nestApartAll words clauses = some left) :
    ∃ last, draft.readLines number texts = (last, []) ∧ last.Tracks left ∧
      last.clauses = draft.clauses ++ clauses := by
  induction texts generalizing draft number words clauses with
  | nil =>
    cases halone
    cases hnest
    exact ⟨draft, rfl, htracks, by simp⟩
  | cons text texts ih =>
    obtain ⟨clause?, htext, halone⟩ := Except.bind_eq_ok_iff.1 halone
    obtain ⟨later, hlater, halone⟩ := Except.bind_eq_ok_iff.1 halone
    cases halone
    rw [readLines]
    obtain ⟨rfl, hline⟩ | ⟨clause, first, rest, rfl, hclause, hline⟩ :=
      draft.readLine_of_alone htext
    · rw [hline]
      exact ih htracks hlater hnest
    · obtain ⟨next, hnext, hrest⟩ := Option.bind_eq_some_iff.1 hnest
      have hread := (readTokens_eq_ok_iff htracks hclause).2 ⟨rfl, next, hnext⟩
      have hafter := htracks.add (nest_of_nestApart hnext) number
      obtain ⟨last, hlast, hleft, hclauses⟩ := ih hafter hlater hrest
      rw [hline, hread]
      refine ⟨last, hlast, hleft, ?_⟩
      rw [hclauses, clauses_add]
      simp

/-- Lines that make sense by themselves are all read only if their clauses may stand where they
do. -/
theorem exists_nestApartAll_of_readLines {number : Nat} {texts : List String}
    {clauses : List Clause} (htracks : draft.Tracks words)
    (halone : Line.aloneAll number texts = .ok clauses)
    (hread : (draft.readLines number texts).2 = []) :
    ∃ left, nestApartAll words clauses = some left := by
  induction texts generalizing draft number words clauses with
  | nil =>
    cases halone
    exact ⟨words, rfl⟩
  | cons text texts ih =>
    obtain ⟨clause?, htext, halone⟩ := Except.bind_eq_ok_iff.1 halone
    obtain ⟨later, hlater, halone⟩ := Except.bind_eq_ok_iff.1 halone
    cases halone
    rw [readLines] at hread
    obtain ⟨rfl, hline⟩ | ⟨clause, first, rest, rfl, hclause, hline⟩ :=
      draft.readLine_of_alone htext
    · rw [hline] at hread
      exact ih htracks hlater hread
    · rw [hline] at hread
      cases hresult : draft.readTokens number first rest with
      | error error => simp [hresult] at hread
      | ok after =>
        obtain ⟨rfl, next, hnext⟩ := (readTokens_eq_ok_iff htracks hclause).1 hresult
        rw [hresult] at hread
        have hafter := htracks.add (nest_of_nestApart hnext) number
        obtain ⟨left, hleft⟩ := ih hafter hlater hread
        exact ⟨left, Option.bind_eq_some_iff.2 ⟨next, hnext, hleft⟩⟩

/-- A draft has no unclosed block exactly if no word is on its stack. -/
theorem Tracks.unclosed_eq_nil_iff (htracks : draft.Tracks words) :
    draft.unclosed = [] ↔ words = [] := by
  constructor
  · exact htracks.eq_nil_of_unclosed
  · rintro rfl
    have hopen : draft.openBlocks = [] := List.map_eq_nil_iff.1 htracks
    simp [unclosed, hopen]

end Draft

/-! ## Names -/

/-- The labels that clauses declare, with their case folded. -/
def labelsOf (clauses : List Clause) : List String := clauses.filterMap Clause.labelName?

/-- The subroutines that clauses declare, with their case folded. -/
def subsOf (clauses : List Clause) : List String := clauses.filterMap Clause.subName?

theorem mem_filterMap_cons {declared : Clause → Option String} {clause : Clause}
    {clauses : List Clause} {name : String} :
    name ∈ (clause :: clauses).filterMap declared ↔
      declared clause = some name ∨ name ∈ clauses.filterMap declared := by
  simp

theorem nodup_filterMap_cons {declared : Clause → Option String} {clause : Clause}
    {clauses : List Clause} :
    ((clause :: clauses).filterMap declared).Nodup ↔
      (∀ name, declared clause = some name → name ∉ clauses.filterMap declared) ∧
        (clauses.filterMap declared).Nodup := by
  cases hdeclared : declared clause with
  | none => simp [hdeclared]
  | some name => simp [hdeclared]

/-- What a clause refers to is among these labels and subroutines, and it does not assign a
subroutine to a variable. -/
structure Clause.Refers (clause : Clause) (labels subs : List String) : Prop where
  goto : ∀ label, clause = .goto label → foldCase label ∈ labels
  called : ∀ name, clause.calledName? = some name → name ∈ subs
  value : ∀ target indices name, clause = .assign (.variable target indices) (.variable name []) →
    foldCase name ∉ subs

namespace Clause

variable {clause : Clause} {labels subs : List String} {name : String}

theorem Refers.of_mem_iff {others otherSubs : List String} (hrefers : clause.Refers labels subs)
    (hlabels : ∀ name, name ∈ labels ↔ name ∈ others)
    (hsubs : ∀ name, name ∈ subs ↔ name ∈ otherSubs) : clause.Refers others otherSubs where
  goto label hclause := (hlabels _).1 (hrefers.goto label hclause)
  called name hcalled := (hsubs _).1 (hrefers.called name hcalled)
  value target indices name hclause := mt (hsubs _).2 (hrefers.value target indices name hclause)

theorem refers_goto {label : String} :
    (goto label).Refers labels subs ↔ foldCase label ∈ labels := by
  constructor
  · intro hrefers
    exact hrefers.goto label rfl
  · intro hlabel
    refine ⟨?_, nofun, nofun⟩
    rintro _ ⟨⟩
    exact hlabel

theorem refers_of_calledName? (hcalled : clause.calledName? = some name) :
    clause.Refers labels subs ↔ name ∈ subs := by
  constructor
  · intro hrefers
    exact hrefers.called name hcalled
  · intro hname
    refine ⟨?_, ?_, ?_⟩
    · rintro _ rfl
      cases hcalled
    · intro other hother
      obtain rfl := Option.some.inj (hcalled.symm.trans hother)
      exact hname
    · rintro _ _ _ rfl
      cases hcalled

theorem refers_assign {target : String} {indices : List Expr} :
    (assign (.variable target indices) (.variable name [])).Refers labels subs ↔
      foldCase name ∉ subs := by
  constructor
  · intro hrefers
    exact hrefers.value target indices name rfl
  · intro hname
    refine ⟨nofun, nofun, ?_⟩
    rintro _ _ _ ⟨⟩
    exact hname

end Clause

namespace Names

variable {names : Names} {statement : Statement} {statements : List Statement} {index : Nat}

/-- The names of a statement are added to those that are there, and must not be there already. -/
theorem declare_spec (names : Names) (index : Nat) (statement : Statement) :
    (∀ name, name ∈ (names.declare index statement).1.labels.keys ↔
        statement.clause.labelName? = some name ∨ name ∈ names.labels.keys) ∧
      (∀ name, name ∈ (names.declare index statement).1.subs.keys ↔
        statement.clause.subName? = some name ∨ name ∈ names.subs.keys) ∧
      ((names.declare index statement).2 = [] ↔
        (∀ name, statement.clause.labelName? = some name → name ∉ names.labels.keys) ∧
          ∀ name, statement.clause.subName? = some name → name ∉ names.subs.keys) := by
  unfold declare
  split
  · rename_i name hclause
    simp [hclause, Clause.labelName?, Clause.subName?, Table.mem_keys_insert, Table.contains_iff,
      @eq_comm _ (foldCase name)]
  · rename_i name hclause
    simp [hclause, Clause.labelName?, Clause.subName?, Table.mem_keys_insert, Table.contains_iff,
      @eq_comm _ (foldCase name)]
  · rename_i hlabel hsub
    have hnoLabel : statement.clause.labelName? = none := by
      cases hclause : statement.clause <;> first | rfl | exact absurd hclause (hlabel _)
    have hnoSub : statement.clause.subName? = none := by
      cases hclause : statement.clause <;> first | rfl | exact absurd hclause (hsub _)
    simp [hnoLabel, hnoSub]

/-- The names of statements are added to those that are there. -/
theorem mem_keys_collect (names : Names) (index : Nat) (statements : List Statement)
    (name : String) :
    (name ∈ (names.collect index statements).1.labels.keys ↔
        name ∈ labelsOf (statements.map (·.clause)) ∨ name ∈ names.labels.keys) ∧
      (name ∈ (names.collect index statements).1.subs.keys ↔
        name ∈ subsOf (statements.map (·.clause)) ∨ name ∈ names.subs.keys) := by
  induction statements generalizing names index with
  | nil => simp [collect, labelsOf, subsOf]
  | cons statement statements ih =>
    obtain ⟨hlabels, hsubs, -⟩ := names.declare_spec index statement
    obtain ⟨ihLabels, ihSubs⟩ := ih (names.declare index statement).1 (index + 1)
    rw [labelsOf] at ihLabels
    rw [subsOf] at ihSubs
    simp only [collect, labelsOf, subsOf, List.map_cons, mem_filterMap_cons, ihLabels, ihSubs,
      hlabels, hsubs]
    exact ⟨or_left_comm.trans or_assoc.symm, or_left_comm.trans or_assoc.symm⟩

/-- No name is declared twice exactly if the names are distinct, and new. -/
theorem collect_eq_nil_iff (names : Names) (index : Nat) (statements : List Statement) :
    (names.collect index statements).2 = [] ↔
      ((labelsOf (statements.map (·.clause))).Nodup ∧
          ∀ name ∈ labelsOf (statements.map (·.clause)), name ∉ names.labels.keys) ∧
        (subsOf (statements.map (·.clause))).Nodup ∧
          ∀ name ∈ subsOf (statements.map (·.clause)), name ∉ names.subs.keys := by
  induction statements generalizing names index with
  | nil => simp [collect, labelsOf, subsOf]
  | cons statement statements ih =>
    obtain ⟨hlabels, hsubs, hnew⟩ := names.declare_spec index statement
    have ih := ih (names.declare index statement).1 (index + 1)
    simp only [labelsOf, subsOf] at ih
    simp only [collect, labelsOf, subsOf, List.map_cons, List.append_eq_nil_iff, hnew, ih, hlabels,
      hsubs, mem_filterMap_cons, nodup_filterMap_cons]
    grind

/-- A statement can be linked exactly if what its clause refers to is there. -/
theorem exists_resolve_iff : (∃ resolved, names.resolve statement = .ok resolved) ↔
    statement.clause.Refers names.labels.keys names.subs.keys := by
  unfold resolve
  split
  · rename_i label hclause
    rw [hclause, Clause.refers_goto]
    split
    · rename_i place hplace
      exact iff_of_true ⟨_, rfl⟩ (Table.mem_keys_of_get? hplace)
    · rename_i hnone
      exact iff_of_false nofun (Table.get?_eq_none_iff.1 hnone)
  · rename_i name hclause
    rw [Clause.refers_of_calledName? (show _ = some (foldCase name) by rw [hclause]; rfl)]
    split
    · rename_i place hplace
      exact iff_of_true ⟨_, rfl⟩ (Table.mem_keys_of_get? hplace)
    · rename_i hnone
      exact iff_of_false nofun (Table.get?_eq_none_iff.1 hnone)
  · rename_i event name hclause
    rw [Clause.refers_of_calledName? (show _ = some (foldCase name) by rw [hclause]; rfl)]
    split
    · rename_i place hplace
      exact iff_of_true ⟨_, rfl⟩ (Table.mem_keys_of_get? hplace)
    · rename_i hnone
      exact iff_of_false nofun (Table.get?_eq_none_iff.1 hnone)
  · rename_i name hclause
    rw [hclause, Clause.refers_assign, ← Table.contains_iff]
    split
    · rename_i hsub
      exact iff_of_false nofun (not_not_intro hsub)
    · rename_i hsub
      exact iff_of_true ⟨_, rfl⟩ hsub
  · rename_i hgoto hcall hbind hassign
    refine iff_of_true ⟨_, rfl⟩ ⟨fun label hclause => absurd hclause (hgoto label), ?_, ?_⟩
    · intro name hname
      cases hclause : statement.clause with
      | callSub => exact absurd hclause (hcall _)
      | bind => exact absurd hclause (hbind _ _)
      | _ => simp [hclause, Clause.calledName?] at hname
    · intro target indices name hclause
      exact absurd hclause (hassign target indices name)

/-- No reference is left open exactly if all clauses refer to what is there. -/
theorem resolveAll_eq_nil_iff : (names.resolveAll statements).2 = [] ↔
    ∀ clause ∈ statements.map (·.clause), clause.Refers names.labels.keys names.subs.keys := by
  induction statements with
  | nil => simp [resolveAll]
  | cons statement statements ih =>
    simp only [List.map_cons, List.forall_mem_cons, ← ih, ← exists_resolve_iff, resolveAll]
    cases names.resolve statement <;> simp

end Names

/-! ## Sources -/

namespace Program

/-- What the clauses of a program are like. They derive from the grammar of blocks, their names are
distinct, and what they refer to is declared. -/
structure WellFormed (clauses : List Clause) : Prop where
  /-- The grammar, in which no subroutine stands inside another one. -/
  outline : ∃ body : Body, body.clauses = clauses ∧ body.apart false = true
  labels : (labelsOf clauses).Nodup
  subs : (subsOf clauses).Nodup
  refers : ∀ clause ∈ clauses, clause.Refers (labelsOf clauses) (subsOf clauses)

/-- A source is a program exactly if nothing is wrong with its lines, its blocks and its names. -/
theorem exists_parse_iff {source : String} :
    (∃ program, parse source = .ok program) ↔
      ∃ draft : Draft, ({} : Draft).readLines 0 (lines source) = (draft, []) ∧ draft.unclosed = [] ∧
        (({} : Names).collect 0 draft.statements.toList).2 = [] ∧
        ((({} : Names).collect 0 draft.statements.toList).1.resolveAll
          draft.statements.toList).2 = [] := by
  constructor
  · rintro ⟨program, hparse⟩
    obtain ⟨draft, names, hlines, hunclosed, hcollect, hresolve, -⟩ := parse_eq_ok hparse
    exact ⟨draft, hlines, hunclosed, by rw [hcollect], by rw [hcollect, hresolve]⟩
  · rintro ⟨draft, hlines, hunclosed, hcollect, hresolve⟩
    simp only [parse, hlines, hunclosed, hcollect, hresolve, List.append_nil]
    exact ⟨_, rfl⟩

/-- A draft has its names in order exactly if its clauses do. -/
theorem names_iff (draft : Draft) :
    ((({} : Names).collect 0 draft.statements.toList).2 = [] ∧
        ((({} : Names).collect 0 draft.statements.toList).1.resolveAll
          draft.statements.toList).2 = []) ↔
      (labelsOf draft.clauses).Nodup ∧ (subsOf draft.clauses).Nodup ∧
        ∀ clause ∈ draft.clauses,
          clause.Refers (labelsOf draft.clauses) (subsOf draft.clauses) := by
  have hkeys := Names.mem_keys_collect {} 0 draft.statements.toList
  have hempty : ∀ name, name ∉ Table.keys ([] : Table Nat) := fun name => List.not_mem_nil
  rw [Names.collect_eq_nil_iff, Names.resolveAll_eq_nil_iff]
  simp only [hempty, not_false_eq_true, implies_true, and_true, or_false] at hkeys ⊢
  rw [and_assoc, Draft.clauses]
  refine and_congr_right fun _ => and_congr_right fun _ => forall₂_congr fun clause _ => ?_
  constructor
  · intro hrefers
    exact hrefers.of_mem_iff (fun name => (hkeys name).1) fun name => (hkeys name).2
  · intro hrefers
    exact hrefers.of_mem_iff (fun name => (hkeys name).1.symm) fun name => (hkeys name).2.symm

/-- A source in which every line makes sense by itself is a program exactly if what the lines say is
well formed. -/
theorem parse_isOk_iff {source : String} {clauses : List Clause}
    (halone : Line.aloneAll 0 (lines source) = .ok clauses) :
    (∃ program, parse source = .ok program) ↔ WellFormed clauses := by
  have htracks : ({} : Draft).Tracks [] := rfl
  rw [exists_parse_iff]
  constructor
  · rintro ⟨draft, hlines, hunclosed, hnames⟩
    have hread : (({} : Draft).readLines 0 (lines source)).2 = [] := by rw [hlines]
    obtain ⟨left, hnest⟩ := Draft.exists_nestApartAll_of_readLines htracks halone hread
    obtain ⟨last, hlast, hleft, hclauses⟩ :=
      Draft.exists_readLines_of_nestApartAll htracks halone hnest
    obtain rfl : last = draft := congrArg Prod.fst (hlast.symm.trans hlines)
    obtain rfl : last.clauses = clauses := hclauses
    obtain rfl := hleft.unclosed_eq_nil_iff.1 hunclosed
    obtain ⟨hlabels, hsubs, hrefers⟩ := (names_iff last).1 hnames
    exact ⟨nestApartAll_eq_some_iff.1 hnest, hlabels, hsubs, hrefers⟩
  · rintro ⟨houtline, hlabels, hsubs, hrefers⟩
    have hnest := nestApartAll_eq_some_iff.2 houtline
    obtain ⟨last, hlast, hleft, hclauses⟩ :=
      Draft.exists_readLines_of_nestApartAll htracks halone hnest
    obtain rfl : last.clauses = clauses := hclauses
    exact ⟨last, hlast, hleft.unclosed_eq_nil_iff.2 rfl,
      (names_iff last).2 ⟨hlabels, hsubs, hrefers⟩⟩

/-- A subroutine inside a chain, references to what comes later, and a blank line. -/
def chainedSub : String :=
  "If x Then\nGoto A\nSub f\nF()\nEndSub\n\nElseIf y Then\nElse\nF()\na:\nEndIf"

theorem parse_isOk_iff_chainedSub : ∃ clauses,
    Line.aloneAll 0 (lines chainedSub) = .ok clauses ∧ WellFormed clauses := by
  obtain ⟨clauses, halone⟩ := Line.exists_of_isOk_aloneAll
    (show (Line.aloneAll 0 (lines chainedSub)).isOk = true by decide +kernel)
  have hparse := exists_of_isOk chainedSub (by decide +kernel)
  exact ⟨clauses, halone, (parse_isOk_iff halone).1 hparse⟩

end Program

end SmallBasic
