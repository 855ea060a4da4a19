import SmallBasic.Proofs.Acceptance

/-!
# Open blocks

While lines are read, the stack of open blocks and the links of the statements belong together: what
is on the stack has no link yet, and whatever else could be on it has one. This file shows that
every line leaves them so, whether it is read or refused, and whatever was refused before it.

## Main definitions

* `Draft.Sound` — how the open blocks of a draft go together with its statements.

## Main statements

* `Draft.Sound.add` — a clause that may stand next keeps them together.
* `Draft.Sound.readLines` — so do any lines, whichever of them are refused.
-/

namespace SmallBasic

/-- What keeps a branch or block open is a clause that opens or continues one. -/
theorem Clause.isSome_opener? (clause : Clause) :
    clause.opener?.isSome = (clause.role = .opens || clause.role = .continues) := by
  cases clause <;> rfl

namespace Draft

/-- The open blocks of a draft and its statements go together. -/
structure Sound (draft : Draft) : Prop where
  /-- The stack goes up from the outermost block to the innermost one, which stands first. -/
  ordered : draft.openBlocks.Pairwise (· > ·)
  /-- What is on the stack opens a branch or block, and leads nowhere yet. -/
  unlinked : ∀ index ∈ draft.openBlocks, ∃ statement, draft.statements[index]? = some statement ∧
    statement.clause.opener?.isSome = true ∧ statement.link = none
  /-- At most one subroutine is on the stack. -/
  sub_unique : ∀ index ∈ draft.openBlocks, ∀ other ∈ draft.openBlocks,
    draft.openerAt? index = some .sub → draft.openerAt? other = some .sub → index = other
  /-- What opens a branch or block and is not on the stack leads to a later statement. -/
  linked : ∀ index statement, draft.statements[index]? = some statement →
    statement.clause.opener?.isSome = true → index ∉ draft.openBlocks →
    ∃ target, statement.link = some target ∧ index < target ∧ target < draft.statements.size

/-- The clause may stand next: if it ends a branch or block, one is open, and if it starts a
subroutine, none is open. -/
structure Admits (draft : Draft) (clause : Clause) : Prop where
  ends : clause.isEnd = true → draft.openBlocks ≠ []
  apart : clause.opener? = some .sub → draft.inSub = false

/-- The blocks that are still open after a clause, apart from one that it opens. -/
def outer (draft : Draft) (clause : Clause) : List Nat :=
  if clause.isEnd then draft.openBlocks.tail else draft.openBlocks

/-- The index of what the clause ends. -/
def ended? (draft : Draft) (clause : Clause) : Option Nat :=
  if clause.isEnd then draft.openBlocks.head? else none

variable {draft : Draft} {clause : Clause}

/-- The statements before a clause, with what it ends linked to its place. -/
def relinked (draft : Draft) (clause : Clause) : Array Statement :=
  match draft.ended? clause with
  | some start => link draft.statements start draft.statements.size
  | none => draft.statements

/-! ## One clause -/

/-- Whatever its role, a clause is appended after what it ends has been linked to its place. -/
theorem add_eq (hadmits : draft.Admits clause) (line : Nat) :
    draft.add line clause =
      ⟨(draft.relinked clause).push
          ⟨line, clause, if clause.role = .repeats then draft.ended? clause else none⟩,
        if clause.opener?.isSome then draft.statements.size :: draft.outer clause
        else draft.outer clause⟩ := by
  have hends := hadmits.ends
  cases hopen : draft.openBlocks with
  | nil =>
    cases hrole : clause.role <;>
      simp_all [add, Clause.isSome_opener?, Clause.isEnd, relinked, ended?, outer]
  | cons start blocks =>
    cases hrole : clause.role <;>
      simp [add, Clause.isSome_opener?, Clause.isEnd, relinked, ended?, outer, hopen, hrole]

theorem size_relinked (draft : Draft) (clause : Clause) :
    (draft.relinked clause).size = draft.statements.size := by
  unfold relinked
  split
  · exact size_link _ _ _
  · rfl

/-- A statement is linked to the place of the clause that ends it, and stays as it is otherwise. -/
theorem getElem?_relinked (draft : Draft) (clause : Clause) (index : Nat) :
    (draft.relinked clause)[index]? =
      if draft.ended? clause = some index then
        draft.statements[index]?.map fun statement =>
          { statement with link := some draft.statements.size }
      else draft.statements[index]? := by
  unfold relinked
  split
  · rename_i start hended
    simp only [hended, link, Array.getElem?_modify, Option.some.injEq]
  · rename_i hended
    simp [hended]

theorem Sound.lt_size (hsound : draft.Sound) {index : Nat} (hindex : index ∈ draft.openBlocks) :
    index < draft.statements.size := by
  obtain ⟨statement, hstatement, -⟩ := hsound.unlinked index hindex
  exact (Array.getElem?_eq_some_iff.1 hstatement).1

theorem outer_sublist (draft : Draft) (clause : Clause) :
    (draft.outer clause).Sublist draft.openBlocks := by
  unfold outer
  split
  · exact List.tail_sublist _
  · exact .refl _

theorem Sound.mem_outer_iff (hsound : draft.Sound) {index : Nat} :
    index ∈ draft.outer clause ↔ index ∈ draft.openBlocks ∧ draft.ended? clause ≠ some index := by
  unfold outer ended?
  split
  · have hordered := hsound.ordered
    cases hopen : draft.openBlocks with
    | nil => simp
    | cons start blocks =>
      rw [hopen] at hordered
      have hbelow := (List.pairwise_cons.1 hordered).1
      grind
  · simp

theorem openBlocks_add (hadmits : draft.Admits clause) (line : Nat) :
    (draft.add line clause).openBlocks =
      if clause.opener?.isSome then draft.statements.size :: draft.outer clause
      else draft.outer clause := by
  rw [add_eq hadmits]

theorem size_add (hadmits : draft.Admits clause) (line : Nat) :
    (draft.add line clause).statements.size = draft.statements.size + 1 := by
  rw [add_eq hadmits, Array.size_push, size_relinked]

/-- A clause that stays on the stack has no link. -/
theorem getElem?_add_size (hadmits : draft.Admits clause) (line : Nat) :
    ∃ link, (draft.add line clause).statements[draft.statements.size]? = some ⟨line, clause, link⟩ ∧
      (clause.opener?.isSome = true → link = none) := by
  rw [add_eq hadmits]
  refine ⟨_, by rw [← size_relinked draft clause, Array.getElem?_push_size], fun hopener => ?_⟩
  rw [Clause.isSome_opener?] at hopener
  rw [if_neg]
  grind

/-- The statements before a clause stay as they are, but for the link of what it ends. -/
theorem getElem?_add_of_lt (hadmits : draft.Admits clause) (line : Nat) {index : Nat}
    (hindex : index < draft.statements.size) :
    (draft.add line clause).statements[index]? =
      if draft.ended? clause = some index then
        draft.statements[index]?.map fun statement =>
          { statement with link := some draft.statements.size }
      else draft.statements[index]? := by
  rw [add_eq hadmits, Array.getElem?_push, size_relinked, if_neg (Nat.ne_of_lt hindex),
    getElem?_relinked]

theorem mem_openBlocks_add (hadmits : draft.Admits clause) (line : Nat) {index : Nat} :
    index ∈ (draft.add line clause).openBlocks ↔
      (clause.opener?.isSome = true ∧ index = draft.statements.size) ∨
        index ∈ draft.outer clause := by
  rw [openBlocks_add hadmits]
  split <;> simp [*]

/-- A clause that may stand next leaves the open blocks and the statements together. -/
theorem Sound.add (hsound : draft.Sound) (hadmits : draft.Admits clause) (line : Nat) :
    (draft.add line clause).Sound where
  ordered := by
    have houter := hsound.ordered.sublist (draft.outer_sublist clause)
    rw [openBlocks_add hadmits]
    split
    · exact List.pairwise_cons.2
        ⟨fun index hindex => hsound.lt_size ((draft.outer_sublist clause).subset hindex), houter⟩
    · exact houter
  unlinked := by
    intro index hindex
    obtain ⟨hopener, rfl⟩ | hindex := (mem_openBlocks_add hadmits line).1 hindex
    · obtain ⟨link, hstatement, hlink⟩ := getElem?_add_size hadmits line
      exact ⟨_, hstatement, hopener, hlink hopener⟩
    · obtain ⟨hopen, hended⟩ := hsound.mem_outer_iff.1 hindex
      rw [getElem?_add_of_lt hadmits line (hsound.lt_size hopen), if_neg hended]
      exact hsound.unlinked index hopen
  sub_unique := by
    have hold {index : Nat} (hindex : index ∈ draft.outer clause) :
        index ∈ draft.openBlocks ∧
          (draft.add line clause).openerAt? index = draft.openerAt? index := by
      have hopen := (draft.outer_sublist clause).subset hindex
      exact ⟨hopen, openerAt?_add_of_lt draft line clause (hsound.lt_size hopen)⟩
    -- A new subroutine is the only one, since none was open before.
    have hnew {index : Nat} (hindex : index ∈ draft.outer clause)
        (hclause : (draft.add line clause).openerAt? draft.statements.size = some .sub) :
        (draft.add line clause).openerAt? index ≠ some .sub := by
      rw [openerAt?_add_size] at hclause
      obtain ⟨hopen, hopener⟩ := hold hindex
      intro hsub
      have hin : draft.inSub = true := List.any_eq_true.2 ⟨index, hopen, by simp [← hopener, hsub]⟩
      simp [hadmits.apart hclause] at hin
    intro index hindex other hother hsub hothersub
    obtain ⟨-, rfl⟩ | hindex := (mem_openBlocks_add hadmits line).1 hindex <;>
      obtain ⟨-, rfl⟩ | hother := (mem_openBlocks_add hadmits line).1 hother
    · rfl
    · exact absurd hothersub (hnew hother hsub)
    · exact absurd hsub (hnew hindex hothersub)
    · rw [(hold hindex).2] at hsub
      rw [(hold hother).2] at hothersub
      exact hsound.sub_unique index (hold hindex).1 other (hold hother).1 hsub hothersub
  linked := by
    intro index statement hstatement hopener hclosed
    have hindex := (Array.getElem?_eq_some_iff.1 hstatement).1
    rw [mem_openBlocks_add hadmits, not_or] at hclosed
    rw [size_add hadmits] at hindex ⊢
    obtain rfl | hindex := Nat.eq_or_lt_of_le (Nat.le_of_lt_succ hindex)
    · obtain ⟨link, hnew, -⟩ := getElem?_add_size hadmits line
      obtain rfl := Option.some.inj (hnew.symm.trans hstatement)
      exact absurd ⟨hopener, rfl⟩ hclosed.1
    · rw [getElem?_add_of_lt hadmits line hindex] at hstatement
      split at hstatement
      · obtain ⟨old, -, rfl⟩ := Option.map_eq_some_iff.1 hstatement
        exact ⟨_, rfl, hindex, Nat.lt_succ_self _⟩
      · rename_i hended
        have hnever : index ∉ draft.openBlocks := fun hopen =>
          hclosed.2 (hsound.mem_outer_iff.2 ⟨hopen, hended⟩)
        obtain ⟨target, hlink, hlater, htarget⟩ :=
          hsound.linked index statement hstatement hopener hnever
        exact ⟨target, hlink, hlater, Nat.lt_succ_of_lt htarget⟩

/-! ## All lines -/

theorem sound_empty : ({} : Draft).Sound where
  ordered := .nil
  unlinked := by simp
  sub_unique := by simp
  linked := by simp

/-- A line with tokens that is read adds a clause that may stand next. -/
theorem admits_of_readTokens {next : Draft} {number : Nat} {first : Token} {rest : List Token}
    (hread : draft.readTokens number first rest = .ok next) :
    ∃ clause, next = draft.add number clause ∧ draft.Admits clause := by
  obtain ⟨clause, hclause, rfl⟩ := readClause_of_readTokens hread
  have hrefusal := refusal?_of_readTokens hread
  refine ⟨clause, rfl, fun hend hclosed => ?_, fun hsub => ?_⟩
  · obtain ⟨word, hword, hneeds⟩ := needsBlock_of_isEnd hend
    have hkind := Line.kind_of_readClause hclause hword
    obtain ⟨inner, hinner, -⟩ := innermost?_of_refusal? hneeds (hrefusal word hkind)
    simp [innermost?, hclosed] at hinner
  · rw [readTokens_eq hclause hrefusal] at hread
    split at hread
    · cases hread
    · rename_i hapart
      exact Bool.eq_false_iff.2 fun hin => hapart ⟨hsub, hin⟩

theorem Sound.readLine (hsound : draft.Sound) {next : Draft} {number : Nat} {text : String}
    (hread : draft.readLine number text = .ok next) : next.Sound := by
  unfold Draft.readLine at hread
  split at hread
  · cases hread
    exact hsound
  · obtain ⟨clause, rfl, hadmits⟩ := admits_of_readTokens hread
    exact hsound.add hadmits number

/-- Any lines leave the open blocks and the statements together, whichever of them are refused. -/
theorem Sound.readLines (hsound : draft.Sound) (number : Nat) (texts : List String) :
    (draft.readLines number texts).1.Sound := by
  induction texts generalizing draft number with
  | nil => exact hsound
  | cons text texts ih =>
    rw [Draft.readLines]
    split
    · rename_i hread
      exact ih (hsound.readLine hread) (number + 1)
    · exact ih hsound (number + 1)

end Draft

end SmallBasic
