import SmallBasic.Proofs.Collecting
import SmallBasic.Proofs.OpenBlocks

/-!
# Drafts edited in place

A source can also be read with one draft that is changed in place, step by step, as the tokens of a
line are met: a block is pushed on the stack before the statement that opens it is there, and a
statement is linked to one that is still to come. So two things could go wrong that a draft which is
returned as a whole rules out: that a line is refused after it has changed something, and that an
index is followed which is out of range.

Neither happens, on any source. A line that is refused leaves the draft as it was, an index that is
followed is always that of a statement, and what is read is what `Program.parse` reads.

## Main definitions

* `Edit` — work on a draft that may be refused and then leaves what it has done, or that follows an
  index out of range and then leaves nothing.
* `Edit.readKeyword`, `Edit.readLine`, `Edit.readLines` — reading in place.
* `Edit.parse?` — the program of a source, read in place.

## Main statements

* `Edit.outcome?_readLine` — a line read in place does to a draft what the line adds to it, and
  nothing if it is refused.
* `Edit.parse?_eq` — reading in place never follows an index out of range.
* `Edit.leaves_intact` — after every line of a source the open blocks go together with the
  statements, and a line that is refused has changed neither.
-/

namespace SmallBasic

/-- Whether a clause is a branch of an `If` chain. -/
def Clause.isBranch : Clause → Bool
  | .if _ | .elseIf _ | .else => true
  | _ => false

/-- The start of a subroutine opens a block. -/
theorem Clause.opener?_ne_sub {clause : Clause} (hrole : clause.role ≠ .opens) :
    clause.opener? ≠ some .sub := by
  cases clause <;> simp [Clause.role, Clause.opener?] at hrole ⊢

/-- Work on a draft. What it has changed before it is refused stays changed. Nothing comes of work
that follows an index out of range. -/
abbrev Edit (α : Type) := ExceptT SyntaxError (StateT Draft Option) α

namespace Edit

variable {α β : Type}

/-- What comes of the work, and the draft that it leaves. -/
def outcome? (edit : Edit α) (draft : Draft) : Option (Except SyntaxError α × Draft) :=
  edit.run.run draft

/-! ## Steps -/

/-- Work that has followed an index out of range. -/
def outOfRange : Edit α := ExceptT.mk fun _ => none

/-- The statement at an index. -/
def statementAt (index : Nat) : Edit Statement := do
  match (← get).statements[index]? with
  | some statement => return statement
  | none => outOfRange

/-- The clause of the innermost block, if one is open. -/
def innermost? : Edit (Option Clause) := do
  match (← get).openBlocks with
  | [] => return none
  | index :: _ => return some (← statementAt index).clause

/-- Whether one of some statements starts a subroutine. The search ends with the first that does. -/
def anySub : List Nat → Edit Bool
  | [] => return false
  | index :: indices => do
    match (← statementAt index).clause with
    | .sub _ => return true
    | _ => anySub indices

/-- Puts the index of the next statement on the stack. -/
def push : Edit Unit :=
  modify fun draft => { draft with openBlocks := draft.statements.size :: draft.openBlocks }

/-- Takes the innermost index off the stack. -/
def pop? : Edit (Option Nat) :=
  modifyGet fun draft =>
    (draft.openBlocks.head?, { draft with openBlocks := draft.openBlocks.tail })

/-- Links a statement that opens a branch or block to the next statement. Others have no such
link. -/
def link (index : Nat) : Edit Unit := do
  let statement ← statementAt index
  if statement.clause.opener?.isSome then
    modify fun draft =>
      { draft with statements := Draft.link draft.statements index draft.statements.size }

/-- Appends a statement. -/
def append (line : Nat) (clause : Clause) (link : Option Nat) : Edit Unit :=
  modify fun draft => { draft with statements := draft.statements.push ⟨line, clause, link⟩ }

/-! ## Reserved words -/

/-- Refuses a word whose block is not the innermost one. -/
def refuse (first : Token) (word opener : Keyword) : Edit α :=
  throw (first.error (.unopened word opener))

/-- Asks for the innermost block to be of a kind. -/
def needs (first : Token) (word opener : Keyword) (isOpener : Clause → Bool) : Edit Unit := do
  match ← innermost? with
  | some clause => if isOpener clause then return () else refuse first word opener
  | none => refuse first word opener

/-- Asks for the innermost block to be a branch that another one can follow. -/
def needsBranch (first : Token) (word : Keyword) : Edit Unit := do
  match ← innermost? with
  | some .else => throw first.unexpected
  | some clause => if clause.isBranch then return () else refuse first word .if
  | none => refuse first word .if

/-- Opens a block with the next statement. All changes return the next statement's own link. -/
def openBlock : Edit (Option Nat) := do
  push
  return none

/-- Opens a subroutine, unless another one is open. -/
def openSub (first : Token) : Edit (Option Nat) := do
  if ← anySub (← get).openBlocks.reverse then throw (first.error .nestedSub)
  openBlock

/-- Ends the innermost block with the next statement, if one is open. -/
def endBlock : Edit (Option Nat) := do
  if let some start := ← pop? then link start
  return none

/-- Ends the innermost branch with the next statement, and opens another one. -/
def nextBranch : Edit (Option Nat) := do
  let _ ← endBlock
  openBlock

/-- Ends the innermost loop with the next statement, which leads back to its start. If none were
open, its start would be out of range. -/
def endLoop : Edit (Option Nat) := do
  match ← pop? with
  | some start =>
    link start
    return some start
  | none => outOfRange

/-- Asks whether a clause can come next, reads it, and then changes the open blocks. -/
def around (check : Edit Unit) (read : Except SyntaxError Clause) (change : Edit (Option Nat)) :
    Edit (Clause × Option Nat) := do
  check
  let clause ← read
  return (clause, ← change)

/-- Reads the clause that a reserved word starts, together with its own link. -/
def readKeyword (first : Token) (word : Keyword) (read : Except SyntaxError Clause) :
    Edit (Clause × Option Nat) :=
  match word with
  | .if | .while | .for => around (return ()) read openBlock
  | .elseIf | .else => around (needsBranch first word) read nextBranch
  | .endIf => around (needs first word .if Clause.isBranch) read endBlock
  | .endWhile => around (needs first word .while (· matches .while _)) read endLoop
  | .endFor => around (needs first word .for (· matches .for _ _ _)) read endLoop
  | .sub => around (return ()) read (openSub first)
  | .endSub => around (needs first word .sub (· matches .sub _)) read endBlock
  | .goto | .then | .to | .step => around (return ()) read (return none)

/-! ## Lines -/

/-- Reads the clause of a line with at least one token, together with its own link. -/
def readClause (line : Line) (first : Token) (rest : List Token) : Edit (Clause × Option Nat) := do
  let read := line.readClause first rest
  match first.kind with
  | .keyword word => readKeyword first word read
  | _ => around (return ()) read (return none)

/-- Appends the statement of a clause that is read together with its own link. -/
def add (number : Nat) (read : Edit (Clause × Option Nat)) : Edit Unit := do
  let (clause, link) ← read
  append number clause link

/-- Reads a line. -/
def readLine (number : Nat) (text : String) : Edit Unit :=
  match tokenize number text with
  | [] => return ()
  | first :: rest => add number (readClause (Line.ofTokens number (first :: rest)) first rest)

/-- Reads all lines, and returns the errors of those that are refused. Each line goes on with the
draft that the one before it has left, refused or not. -/
def readLines (number : Nat) : List String → StateT Draft Option (List SyntaxError)
  | [] => return []
  | text :: rest => do
    match ← (readLine number text).run with
    | .ok () => readLines (number + 1) rest
    | .error error => return error :: (← readLines (number + 1) rest)

/-- The errors of the open blocks, outermost first. -/
def unclosed? (draft : Draft) : Option (List SyntaxError) :=
  draft.openBlocks.reverse.mapM fun index => do
    let statement ← draft.statements[index]?
    let opener ← statement.clause.opener?
    return ⟨statement.line, 0, .unclosed opener opener.closer⟩

/-- The program of a source text, or everything that is wrong with it. -/
def parse? (source : String) : Option (Except (List SyntaxError) Program) := do
  let (lineErrors, draft) ← (readLines 0 (lines source)).run {}
  let unclosed ← unclosed? draft
  let (names, duplicates) := ({} : Names).collect 0 draft.statements.toList
  let (statements, unresolved) := names.resolveAll draft.statements.toList
  match lineErrors ++ unclosed ++ duplicates ++ unresolved with
  | [] => return .ok ⟨statements.toArray, names.labels, names.subs⟩
  | errors => return .error (errors.mergeSort SyntaxError.le)

end Edit

/-! ## What comes of a line -/

namespace Draft

/-- The clause of the innermost block, if one is open. -/
def innermostClause? (draft : Draft) : Option Clause :=
  draft.openBlocks.head?.bind fun index => draft.statements[index]?.map (·.clause)

/-- Whether a reserved word can come next, as a step that may be refused. -/
def admission (draft : Draft) (first : Token) (word : Keyword) : Except SyntaxError Unit :=
  match draft.refusal? first word with
  | some error => .error error
  | none => .ok ()

/-- The draft with the clause of a line, unless that is a subroutine inside another one. -/
def accept (draft : Draft) (number : Nat) (first : Token) (read : Except SyntaxError Clause) :
    Except SyntaxError Draft := do
  let clause ← read
  if clause.opener? = some .sub ∧ draft.inSub then throw (first.error .nestedSub)
  return draft.add number clause

/-- The outcome of a line for a draft that is changed in place: one that is refused changes
nothing. -/
def settled (draft : Draft) : Except SyntaxError Draft → Except SyntaxError Unit × Draft
  | .ok next => (.ok (), next)
  | .error error => (.error error, draft)

variable {draft : Draft} {number : Nat} {first : Token} {rest : List Token} {word : Keyword}

theorem innermost?_eq (draft : Draft) :
    draft.innermost? = draft.innermostClause?.bind Clause.opener? := by
  unfold innermost? innermostClause? openerAt?
  cases draft.openBlocks.head? with
  | none => rfl
  | some index => cases h : draft.statements[index]? <;> simp [h]

theorem readTokens_keyword (hkind : first.kind = .keyword word) :
    draft.readTokens number first rest = draft.admission first word >>= fun _ =>
      draft.accept number first ((Line.ofTokens number (first :: rest)).readClause first rest) := by
  unfold readTokens admission
  simp only [hkind]
  cases draft.refusal? first word <;> rfl

theorem readTokens_of_kind (hkind : ∀ word, first.kind ≠ .keyword word) :
    draft.readTokens number first rest =
      draft.accept number first ((Line.ofTokens number (first :: rest)).readClause first rest) := by
  unfold readTokens
  split
  · exact absurd ‹_› (hkind _)
  · rfl

end Draft

namespace Edit

variable {α β : Type}

/-! ## What the steps do -/

section Steps

variable {draft next : Draft} {edit : Edit α}

theorem outcome?_bind (edit : Edit α) (f : α → Edit β) (draft : Draft) :
    (edit >>= f).outcome? draft = (edit.outcome? draft).bind fun (result, next) =>
      match result with
      | .ok value => (f value).outcome? next
      | .error error => some (.error error, next) := by
  have hunfold : (edit >>= f).outcome? draft =
      (edit.outcome? draft).bind fun (result, next) => (ExceptT.bindCont f result).run next := rfl
  rw [hunfold]
  refine congrArg (edit.outcome? draft).bind (funext fun (result, next) => ?_)
  cases result <;> rfl

theorem outcome?_bind_ok {value : α} (hedit : edit.outcome? draft = some (.ok value, next))
    (f : α → Edit β) : (edit >>= f).outcome? draft = (f value).outcome? next := by
  rw [outcome?_bind, hedit]
  rfl

theorem outcome?_bind_error {error : SyntaxError}
    (hedit : edit.outcome? draft = some (.error error, next)) (f : α → Edit β) :
    (edit >>= f).outcome? draft = some (.error error, next) := by
  rw [outcome?_bind, hedit]
  rfl

theorem outcome?_pure (value : α) (draft : Draft) :
    (pure value : Edit α).outcome? draft = some (.ok value, draft) := rfl

theorem outcome?_get (draft : Draft) : outcome? get draft = some (.ok draft, draft) := rfl

theorem outcome?_statementAt {index : Nat} {statement : Statement}
    (hstatement : draft.statements[index]? = some statement) :
    (statementAt index).outcome? draft = some (.ok statement, draft) := by
  rw [statementAt, outcome?_bind_ok (outcome?_get draft), hstatement]
  rfl

/-- The innermost block is asked for its clause within range. -/
theorem outcome?_innermost? (hsound : draft.Sound) :
    innermost?.outcome? draft = some (.ok draft.innermostClause?, draft) := by
  rw [innermost?, outcome?_bind_ok (outcome?_get draft), Draft.innermostClause?]
  cases hopen : draft.openBlocks with
  | nil => rfl
  | cons index indices =>
    obtain ⟨statement, hstatement, -⟩ := hsound.unlinked index (by simp [hopen])
    rw [outcome?_bind_ok (outcome?_statementAt hstatement), List.head?_cons, Option.bind_some,
      hstatement]
    rfl

/-- A word that closes a block is refused where it cannot come next. -/
theorem outcome?_needs (hsound : draft.Sound) (first : Token) {word : Keyword}
    (hneeds : word.needsBlock = true) {isOpener : Clause → Bool}
    (hopener : ∀ clause : Clause,
      isOpener clause = true ↔ clause.opener?.map Keyword.block = some word.block)
    (helse : word.block = .if → word = .endIf) :
    (needs first word word.block isOpener).outcome? draft =
      some (draft.admission first word, draft) := by
  rw [needs, outcome?_bind_ok (outcome?_innermost? hsound), Draft.admission, Draft.refusal?,
    draft.innermost?_eq, hneeds]
  cases draft.innermostClause? with
  | none => rfl
  | some clause =>
    have hopener := hopener clause
    by_cases hblock : clause.opener?.map Keyword.block = some word.block
    · -- A branch after the last one is refused, but no word that closes a block adds one.
      have hlast : ¬ (clause.opener? = some .else ∧ word ≠ .endIf) := by
        rintro ⟨hlast, hword⟩
        rw [hlast] at hblock
        exact hword (helse (Option.some.inj hblock).symm)
      simp only [Option.bind_some, hblock, hopener.2 hblock, hlast, if_true, if_false,
        Bool.not_true, Bool.false_eq_true]
      rfl
    · have hother : isOpener clause = false := Bool.eq_false_iff.2 (mt hopener.1 hblock)
      simp only [Option.bind_some, hblock, hother, if_false, Bool.not_true, Bool.false_eq_true]
      rfl

/-- A word that starts another branch is refused where it cannot come next. -/
theorem outcome?_needsBranch (hsound : draft.Sound) (first : Token) {word : Keyword}
    (hword : word = .elseIf ∨ word = .else) :
    (needsBranch first word).outcome? draft = some (draft.admission first word, draft) := by
  rw [needsBranch, outcome?_bind_ok (outcome?_innermost? hsound), Draft.admission, Draft.refusal?,
    draft.innermost?_eq]
  cases draft.innermostClause? with
  | none => obtain rfl | rfl := hword <;> rfl
  | some clause => obtain rfl | rfl := hword <;> cases clause <;> rfl

/-- The search for a subroutine stays within range. -/
theorem outcome?_anySub {indices : List Nat}
    (hindices : ∀ index ∈ indices, index < draft.statements.size) :
    (anySub indices).outcome? draft =
      some (.ok (indices.any fun index => draft.openerAt? index == some .sub), draft) := by
  induction indices with
  | nil => rfl
  | cons index indices ih =>
    obtain ⟨hindex, hindices⟩ := List.forall_mem_cons.1 hindices
    have hstatement := Array.getElem?_eq_getElem hindex
    rw [anySub, outcome?_bind_ok (outcome?_statementAt hstatement), List.any_cons, Draft.openerAt?,
      hstatement, Option.bind_some]
    cases draft.statements[index].clause with
    | sub name => rfl
    | _ => exact ih hindices

/-- A subroutine is looked for in all blocks that are open. -/
theorem outcome?_anySub_openBlocks (hsound : draft.Sound) :
    (anySub draft.openBlocks.reverse).outcome? draft = some (.ok draft.inSub, draft) := by
  rw [outcome?_anySub fun index hindex => hsound.lt_size (List.mem_reverse.1 hindex),
    List.any_reverse]
  rfl

theorem outcome?_link {start : Nat} {statement : Statement}
    (hstatement : draft.statements[start]? = some statement)
    (hopener : statement.clause.opener?.isSome = true) :
    (link start).outcome? draft =
      some (.ok (), { draft with
        statements := Draft.link draft.statements start draft.statements.size }) := by
  rw [link, outcome?_bind_ok (outcome?_statementAt hstatement), if_pos hopener]
  rfl

variable {start : Nat} {blocks : List Nat}

/-- The innermost block is ended within range. -/
theorem outcome?_link_open (hsound : draft.Sound) (hopen : draft.openBlocks = start :: blocks) :
    (link start).outcome? { draft with openBlocks := blocks } =
      some (.ok (), ⟨Draft.link draft.statements start draft.statements.size, blocks⟩) := by
  obtain ⟨statement, hstatement, hopener, -⟩ := hsound.unlinked start (by simp [hopen])
  exact outcome?_link hstatement hopener

theorem outcome?_pop? (hopen : draft.openBlocks = start :: blocks) :
    pop?.outcome? draft = some (.ok (some start), { draft with openBlocks := blocks }) := by
  have hunfold : pop?.outcome? draft =
    some (.ok draft.openBlocks.head?, { draft with openBlocks := draft.openBlocks.tail }) := rfl
  rw [hunfold, hopen]
  rfl

/-! ## What the changes do -/

/-- Once a clause is read, the change and the new statement are what the clause adds. -/
def Completes (change : Edit (Option Nat)) (number : Nat) (first : Token) (clause : Clause)
    (draft : Draft) : Prop :=
  outcome? (do append number clause (← change)) draft =
    some (draft.settled (draft.accept number first (.ok clause)))

variable {number : Nat} {first : Token} {clause : Clause}

theorem accept_ok (hsub : clause.opener? ≠ some .sub) :
    draft.accept number first (.ok clause) = .ok (draft.add number clause) :=
  if_neg fun h => hsub h.1

theorem completes_none (hrole : clause.role = .simple) :
    Completes (return none) number first clause draft := by
  rw [Completes, accept_ok (Clause.opener?_ne_sub (by simp [hrole])), Draft.add, hrole]
  rfl

theorem outcome?_openBlock (draft : Draft) :
    openBlock.outcome? draft =
      some (.ok none, { draft with openBlocks := draft.statements.size :: draft.openBlocks }) := rfl

theorem completes_openBlock (hrole : clause.role = .opens) (hsub : clause.opener? ≠ some .sub) :
    Completes openBlock number first clause draft := by
  rw [Completes, accept_ok hsub, Draft.add, hrole]
  rfl

theorem completes_openSub (hsound : draft.Sound) (name : String) :
    Completes (openSub first) number first (.sub name) draft := by
  have hsearch := outcome?_anySub_openBlocks hsound
  have haccept : draft.accept number first (.ok (.sub name)) =
      if draft.inSub then .error (first.error .nestedSub)
      else .ok (draft.add number (.sub name)) := by
    cases hin : draft.inSub <;> simp [Draft.accept, Clause.opener?, hin, bind, Except.bind] <;> rfl
  have hopenSub : (openSub first).outcome? draft =
      outcome? (do
        if draft.inSub then throw (first.error .nestedSub)
        openBlock) draft := by
    rw [openSub, outcome?_bind_ok (outcome?_get draft), outcome?_bind_ok hsearch]
  rw [Completes, haccept]
  cases hin : draft.inSub with
  | true =>
    rw [hin] at hopenSub
    exact outcome?_bind_error hopenSub _
  | false =>
    rw [hin] at hopenSub
    exact outcome?_bind_ok hopenSub _

theorem outcome?_endBlock (hsound : draft.Sound) (hopen : draft.openBlocks = start :: blocks) :
    endBlock.outcome? draft =
      some (.ok none, ⟨Draft.link draft.statements start draft.statements.size, blocks⟩) := by
  rw [endBlock, outcome?_bind_ok (outcome?_pop? hopen)]
  dsimp only
  rw [outcome?_bind_ok (outcome?_link_open hsound hopen)]
  rfl

theorem completes_endBlock (hsound : draft.Sound) (hopen : draft.openBlocks = start :: blocks)
    (hrole : clause.role = .closes) :
    Completes endBlock number first clause draft := by
  rw [Completes, accept_ok (Clause.opener?_ne_sub (by simp [hrole])), Draft.add, hrole, hopen,
    outcome?_bind_ok (outcome?_endBlock hsound hopen)]
  rfl

theorem completes_nextBranch (hsound : draft.Sound) (hopen : draft.openBlocks = start :: blocks)
    (hrole : clause.role = .continues) :
    Completes nextBranch number first clause draft := by
  have hnext : nextBranch.outcome? draft =
      some (.ok none, ⟨Draft.link draft.statements start draft.statements.size,
        draft.statements.size :: blocks⟩) := by
    rw [nextBranch, outcome?_bind_ok (outcome?_endBlock hsound hopen), outcome?_openBlock,
      Draft.size_link]
  rw [Completes, accept_ok (Clause.opener?_ne_sub (by simp [hrole])), Draft.add, hrole, hopen,
    outcome?_bind_ok hnext]
  rfl

theorem completes_endLoop (hsound : draft.Sound) (hopen : draft.openBlocks = start :: blocks)
    (hrole : clause.role = .repeats) :
    Completes endLoop number first clause draft := by
  have hend : endLoop.outcome? draft =
      some (.ok (some start),
        ⟨Draft.link draft.statements start draft.statements.size, blocks⟩) := by
    rw [endLoop, outcome?_bind_ok (outcome?_pop? hopen)]
    dsimp only
    rw [outcome?_bind_ok (outcome?_link_open hsound hopen)]
    rfl
  rw [Completes, accept_ok (Clause.opener?_ne_sub (by simp [hrole])), Draft.add, hrole, hopen,
    outcome?_bind_ok hend]
  rfl

end Steps

/-! ## Lines read in place -/

section Lines

variable {draft : Draft} {number : Nat} {first : Token} {read : Except SyntaxError Clause}

/-- A clause that is refused, by the check before it or as it is read, changes nothing. -/
theorem outcome?_around {check : Edit Unit} {admitted : Except SyntaxError Unit}
    {change : Edit (Option Nat)} (hcheck : check.outcome? draft = some (admitted, draft))
    (hchange : ∀ clause, admitted = .ok () → read = .ok clause →
      Completes change number first clause draft) :
    (add number (around check read change)).outcome? draft =
      some (draft.settled (admitted >>= fun _ => draft.accept number first read)) := by
  have hassoc : add number (around check read change) = (do
      check
      let clause ← read
      append number clause (← change)) := by
    simp [add, around]
  rw [hassoc]
  cases admitted with
  | error error => exact outcome?_bind_error hcheck _
  | ok =>
    rw [outcome?_bind_ok hcheck]
    cases read with
    | error error => rfl
    | ok clause => exact hchange clause rfl rfl

/-- A word that closes or continues a block and is not refused finds one open. -/
theorem exists_open_of_admission {word : Keyword} (hneeds : word.needsBlock = true)
    (hadmitted : draft.admission first word = .ok ()) :
    ∃ start blocks, draft.openBlocks = start :: blocks := by
  unfold Draft.admission at hadmitted
  split at hadmitted
  · cases hadmitted
  · obtain ⟨inner, hinner, -⟩ := Draft.innermost?_of_refusal? hneeds ‹_›
    cases hopen : draft.openBlocks with
    | nil => simp [Draft.innermost?, hopen] at hinner
    | cons start blocks => exact ⟨start, blocks, rfl⟩

variable {word : Keyword} (hread : ∀ clause, read = .ok clause → clause.word? = some word)

include hread

/-- A clause whose word can always come next. -/
theorem outcome?_free {change : Edit (Option Nat)} (hfree : word.needsBlock = false)
    (hchange : ∀ clause : Clause, clause.word? = some word →
      Completes change number first clause draft) :
    (add number (around (return ()) read change)).outcome? draft =
      some (draft.settled
        (draft.admission first word >>= fun _ => draft.accept number first read)) := by
  have hadmitted : draft.admission first word = .ok () := by
    rw [Draft.admission, Draft.refusal?, hfree]
    rfl
  rw [hadmitted]
  exact outcome?_around (outcome?_pure () draft) fun clause _ hclause =>
    hchange clause (hread clause hclause)

/-- A clause whose word needs an open block. -/
theorem outcome?_bound {check : Edit Unit} {change : Edit (Option Nat)}
    (hneeds : word.needsBlock = true)
    (hcheck : check.outcome? draft = some (draft.admission first word, draft))
    (hchange : ∀ (clause : Clause) (start : Nat) (blocks : List Nat), clause.word? = some word →
      draft.openBlocks = start :: blocks → Completes change number first clause draft) :
    (add number (around check read change)).outcome? draft =
      some (draft.settled
        (draft.admission first word >>= fun _ => draft.accept number first read)) := by
  refine outcome?_around hcheck fun clause hadmitted hclause => ?_
  obtain ⟨start, blocks, hopen⟩ := exists_open_of_admission hneeds hadmitted
  exact hchange clause start blocks (hread clause hclause) hopen

theorem outcome?_readKeyword (hsound : draft.Sound) :
    (add number (readKeyword first word read)).outcome? draft =
      some (draft.settled
        (draft.admission first word >>= fun _ => draft.accept number first read)) := by
  cases word with
  | «if» | «while» | «for» =>
    refine outcome?_free hread rfl fun clause hword => ?_
    cases clause <;> cases hword
    exact completes_openBlock rfl (by simp [Clause.opener?])
  | sub =>
    refine outcome?_free hread rfl fun clause hword => ?_
    cases clause <;> cases hword
    exact completes_openSub hsound _
  | elseIf | «else» =>
    refine outcome?_bound hread rfl (outcome?_needsBranch hsound first (by decide)) ?_
    intro clause start blocks hword hopen
    cases clause <;> cases hword
    exact completes_nextBranch hsound hopen rfl
  | endIf | endSub =>
    refine outcome?_bound hread rfl (outcome?_needs hsound first rfl ?_ (by decide)) ?_
    · intro clause
      cases clause <;> simp [Clause.isBranch, Clause.opener?, Keyword.block]
    · intro clause start blocks hword hopen
      cases clause <;> cases hword
      exact completes_endBlock hsound hopen rfl
  | endWhile | endFor =>
    refine outcome?_bound hread rfl (outcome?_needs hsound first rfl ?_ (by decide)) ?_
    · intro clause
      cases clause <;> simp [Clause.opener?, Keyword.block]
    · intro clause start blocks hword hopen
      cases clause <;> cases hword
      exact completes_endLoop hsound hopen rfl
  | goto =>
    refine outcome?_free hread rfl fun clause hword => ?_
    cases clause <;> cases hword
    exact completes_none rfl
  | «then» | «to» | step =>
    -- No clause starts with one of these words.
    refine outcome?_free hread rfl fun clause hword => ?_
    cases clause <;> cases hword

omit hread

/-- A line read in place does what it adds to the draft. One that is refused leaves the draft as it
was. -/
theorem outcome?_readLine (hsound : draft.Sound) (number : Nat) (text : String) :
    (readLine number text).outcome? draft = some (draft.settled (draft.readLine number text)) := by
  rw [readLine, Draft.readLine]
  cases tokenize number text with
  | nil => rfl
  | cons first rest =>
    dsimp only
    unfold readClause
    split
    · rename_i word hkind
      rw [Draft.readTokens_keyword hkind]
      exact outcome?_readKeyword (fun clause hclause => Line.word?_of_readClause hclause hkind)
        hsound
    · rename_i hkind
      rw [Draft.readTokens_of_kind hkind]
      refine outcome?_around (outcome?_pure () draft) fun clause _ hclause => ?_
      cases hword : clause.word? with
      | some word => exact absurd (Line.kind_of_readClause hclause hword) (hkind word)
      | none => cases clause <;> first | exact completes_none rfl | cases hword

/-- Lines read in place add to a draft what they add one by one. -/
theorem run_readLines (hsound : draft.Sound) (number : Nat) (texts : List String) :
    (readLines number texts).run draft =
      some ((draft.readLines number texts).2, (draft.readLines number texts).1) := by
  induction texts generalizing draft number with
  | nil => rfl
  | cons text texts ih =>
    have hline : (readLine number text).run.run draft = _ := outcome?_readLine hsound number text
    rw [readLines, StateT.run_bind, hline, Draft.readLines]
    cases hread : draft.readLine number text with
    | ok next => exact ih (hsound.readLine hread) (number + 1)
    | error error =>
      have hrest := ih hsound (number + 1)
      simp [Draft.settled, hrest]

theorem mapM_eq_some_filterMap {f : α → Option β} {values : List α}
    (hvalues : ∀ value ∈ values, (f value).isSome = true) :
    values.mapM f = some (values.filterMap f) := by
  induction values with
  | nil => rfl
  | cons value values ih =>
    obtain ⟨hvalue, hvalues⟩ := List.forall_mem_cons.1 hvalues
    obtain ⟨result, hresult⟩ := Option.isSome_iff_exists.1 hvalue
    rw [List.mapM_cons, hresult, ih hvalues, List.filterMap_cons_some hresult]
    rfl

/-- The open blocks of a draft are reported within range. -/
theorem unclosed?_eq (hsound : draft.Sound) : unclosed? draft = some draft.unclosed := by
  refine mapM_eq_some_filterMap fun index hindex => ?_
  obtain ⟨statement, hstatement, hopener, -⟩ := hsound.unlinked index (List.mem_reverse.1 hindex)
  obtain ⟨opener, hopener⟩ := Option.isSome_iff_exists.1 hopener
  simp [hstatement, hopener]

/-- A source is read in place within range, as it is read otherwise. -/
theorem parse?_eq (source : String) : parse? source = some (Program.parse source) := by
  unfold parse? Program.parse
  rw [run_readLines Draft.sound_empty]
  simp only [Option.bind_some, bind, unclosed?_eq (Draft.sound_empty.readLines 0 (lines source))]
  split <;> simp_all

end Lines

end Edit

/-! ## The source as a whole -/

namespace Draft

variable {source text : String} {count : Nat}

/-- The draft after the first lines of a source. -/
def after (source : String) (count : Nat) : Draft :=
  (({} : Draft).readLines 0 ((lines source).take count)).1

theorem readLines_append (draft : Draft) (number : Nat) (texts more : List String) :
    (draft.readLines number (texts ++ more)).1 =
      ((draft.readLines number texts).1.readLines (number + texts.length) more).1 := by
  induction texts generalizing draft number with
  | nil => rfl
  | cons text texts ih =>
    rw [List.cons_append, readLines, readLines, List.length_cons, ← Nat.add_assoc,
      Nat.add_right_comm]
    split <;> exact ih _ (number + 1)

/-- Each line goes on with what the lines before it have left. -/
theorem after_succ (htext : (lines source)[count]? = some text) :
    after source (count + 1) =
      ((after source count).settled ((after source count).readLine count text)).2 := by
  obtain ⟨hcount, rfl⟩ := List.getElem?_eq_some_iff.1 htext
  have hlength : ((lines source).take count).length = count :=
    List.length_take_of_le (Nat.le_of_lt hcount)
  rw [after, List.take_succ_eq_append_getElem hcount, readLines_append, hlength, Nat.zero_add,
    ← after, readLines]
  cases (after source count).readLine count (lines source)[count] <;> rfl

theorem sound_after (source : String) (count : Nat) : (after source count).Sound :=
  sound_empty.readLines 0 ((lines source).take count)

end Draft

namespace Edit

/-- A source is read in place, whether it is well formed or not. After any number of lines the open
blocks and the statements go together. The next line is read within range and appended, or it is
refused and leaves the statements and the open blocks as they were. What is still open at the end is
reported within range, and expressions are reduced within range. In the end everything is as it is
read otherwise. -/
theorem leaves_intact (source : String) :
    (∀ count, (Draft.after source count).Sound ∧ ∃ errors,
      (readLines 0 ((lines source).take count)).run {} =
        some (errors, Draft.after source count)) ∧
    (∀ count text, (lines source)[count]? = some text →
      (readLine count text).outcome? (Draft.after source count) =
          some (.ok (), Draft.after source (count + 1)) ∨
        ∃ error, (readLine count text).outcome? (Draft.after source count) =
            some (.error error, Draft.after source count) ∧
          Draft.after source (count + 1) = Draft.after source count) ∧
    parse? source = some (Program.parse source) ∧
    ∀ line exhausted fuel ending condition tokens,
      Line.readExprWith? line exhausted fuel ending condition tokens =
        some (line.readExprWith exhausted fuel ending condition tokens) := by
  refine ⟨fun count => ⟨Draft.sound_after source count, _, run_readLines Draft.sound_empty 0 _⟩,
    fun count text htext => ?_, parse?_eq source, Line.readExprWith?_eq⟩
  rw [outcome?_readLine (Draft.sound_after source count) count text, Draft.after_succ htext]
  cases (Draft.after source count).readLine count text with
  | ok next => exact .inl rfl
  | error error => exact .inr ⟨error, rfl, rfl⟩

/-- A source with lines that are refused as they are read, for the block they close, and for the
block they stand in. -/
def interrupted : String :=
  "Sub s\nIf x Then\nElse y\nElseIf z Then\nEndSub\nSub t\nEndIf\nEndSub"

theorem leaves_intact_interrupted :
    (lines interrupted)[5]? = some "Sub t" ∧ (Draft.after interrupted 5).openBlocks = [2, 0] ∧
      (Draft.after interrupted 5).Sound ∧
      ∃ error, (readLine 5 "Sub t").outcome? (Draft.after interrupted 5) =
          some (.error error, Draft.after interrupted 5) ∧
        Draft.after interrupted 6 = Draft.after interrupted 5 := by
  have hline : (lines interrupted)[5]? = some "Sub t" := by decide +kernel
  have hrefused : ((readLine 5 "Sub t").outcome? (Draft.after interrupted 5)).map
      (fun result => result.1.isOk) = some false := by decide +kernel
  obtain ⟨hsound, hlines, -⟩ := leaves_intact interrupted
  refine ⟨hline, by decide +kernel, (hsound 5).1, ?_⟩
  obtain hread | hread := hlines 5 "Sub t" hline
  · rw [hread] at hrefused
    cases hrefused
  · exact hread

end Edit

end SmallBasic
