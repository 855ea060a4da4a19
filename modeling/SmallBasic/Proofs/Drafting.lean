import SmallBasic.Program.Draft
import SmallBasic.Proofs.Nesting
import SmallBasic.Proofs.Reading

/-!
# Drafts and outlines

A draft links its blocks while statements are still being added. This file shows what comes of it:
adding the clauses of a body appends the layout of the body, whatever was in the draft before, and
the lines of a source that are read without error are the clauses of a body once every block is
closed.

## Main statements

* `Draft.addAll_body` — the clauses of a body are linked as its layout says.
* `Draft.readLines_outline` — lines without errors and without open blocks have an outline.
-/

namespace SmallBasic

namespace Draft

/-- The clauses and links of a draft. -/
def shapes (draft : Draft) : List Shape :=
  draft.statements.toList.map fun statement => (statement.clause, statement.link)

/-- Shapes in which one of them leads to another place. -/
def relink (shapes : List Shape) (index target : Nat) : List Shape :=
  shapes.modify index fun shape => (shape.1, some target)

/-- The draft after clauses from given lines. -/
def addAll (draft : Draft) (entries : List (Nat × Clause)) : Draft :=
  entries.foldl (fun draft entry => draft.add entry.1 entry.2) draft

@[simp] theorem addAll_nil (draft : Draft) : draft.addAll [] = draft := rfl

@[simp] theorem addAll_cons (draft : Draft) (entry : Nat × Clause)
    (entries : List (Nat × Clause)) :
    draft.addAll (entry :: entries) = (draft.add entry.1 entry.2).addAll entries := rfl

@[simp] theorem addAll_append (draft : Draft) (entries more : List (Nat × Clause)) :
    draft.addAll (entries ++ more) = (draft.addAll entries).addAll more :=
  List.foldl_append

@[simp] theorem length_shapes (draft : Draft) : draft.shapes.length = draft.statements.size := by
  simp [shapes]

/-! ## One clause -/

theorem map_link (statements : Array Statement) (index target : Nat) :
    (link statements index target).toList.map
        (fun statement => (statement.clause, statement.link)) =
      relink (statements.toList.map fun statement => (statement.clause, statement.link))
        index target := by
  apply List.ext_getElem?
  intro i
  simp only [link, relink, Array.toList_modify, List.getElem?_map, List.getElem?_modify]
  split <;> simp [Function.comp_def]

/-- A block that was left open among later statements is linked where it stands. -/
theorem relink_middle (before after : List Shape) (shape : Shape) (target : Nat) :
    relink (before ++ shape :: after) before.length target =
      before ++ (shape.1, some target) :: after := by
  induction before with
  | nil => simp [relink]
  | cons first before ih => simpa [relink] using ih

variable {draft : Draft} {line start : Nat} {blocks : List Nat} {clause : Clause}

theorem add_simple (draft : Draft) (line : Nat) (hrole : clause.role = .simple) :
    (draft.add line clause).shapes = draft.shapes ++ [(clause, none)] ∧
      (draft.add line clause).openBlocks = draft.openBlocks := by
  simp [add, hrole, shapes]

theorem add_opens (draft : Draft) (line : Nat) (hrole : clause.role = .opens) :
    (draft.add line clause).shapes = draft.shapes ++ [(clause, none)] ∧
      (draft.add line clause).openBlocks = draft.statements.size :: draft.openBlocks := by
  simp [add, hrole, shapes]

theorem add_continues (line : Nat) (hrole : clause.role = .continues)
    (hopen : draft.openBlocks = start :: blocks) :
    (draft.add line clause).shapes =
        relink draft.shapes start draft.statements.size ++ [(clause, none)] ∧
      (draft.add line clause).openBlocks = draft.statements.size :: blocks := by
  simp [add, hrole, hopen, shapes, map_link]

theorem add_closes (line : Nat) (hrole : clause.role = .closes)
    (hopen : draft.openBlocks = start :: blocks) :
    (draft.add line clause).shapes =
        relink draft.shapes start draft.statements.size ++ [(clause, none)] ∧
      (draft.add line clause).openBlocks = blocks := by
  simp [add, hrole, hopen, shapes, map_link]

theorem add_repeats (line : Nat) (hrole : clause.role = .repeats)
    (hopen : draft.openBlocks = start :: blocks) :
    (draft.add line clause).shapes =
        relink draft.shapes start draft.statements.size ++ [(clause, some start)] ∧
      (draft.add line clause).openBlocks = blocks := by
  simp [add, hrole, hopen, shapes, map_link]

theorem add_opener (draft : Draft) (line : Nat) (bracket : Bracket) :
    (draft.add line bracket.opener).shapes = draft.shapes ++ [(bracket.opener, none)] ∧
      (draft.add line bracket.opener).openBlocks = draft.statements.size :: draft.openBlocks := by
  cases bracket <;> exact add_opens draft line rfl

theorem add_closer (line : Nat) (bracket : Bracket) (hopen : draft.openBlocks = start :: blocks) :
    (draft.add line bracket.closer).shapes =
        relink draft.shapes start draft.statements.size ++ [(bracket.closer, bracket.back start)] ∧
      (draft.add line bracket.closer).openBlocks = blocks := by
  cases bracket with
  | «while» condition => exact add_repeats line rfl hopen
  | «for» counter lower upper => exact add_repeats line rfl hopen
  | sub name => exact add_closes line rfl hopen

/-! ## The clauses of a body -/

@[simp] theorem length_relink (shapes : List Shape) (index target : Nat) :
    (relink shapes index target).length = shapes.length := by
  simp [relink]

/-- The draft ends with a body inside a branch or block that has no link yet. -/
structure Opened (draft : Draft) (before : List Shape) (clause : Clause) (inner : Body)
    (blocks : List Nat) : Prop where
  shapes_eq : draft.shapes = before ++ (clause, none) :: inner.layout (before.length + 1)
  openBlocks_eq : draft.openBlocks = before.length :: blocks

namespace Opened

variable {before : List Shape} {inner : Body}

theorem size_eq (hopened : draft.Opened before clause inner blocks) :
    draft.statements.size = before.length + 1 + inner.size := by
  rw [← length_shapes, hopened.shapes_eq]
  simp
  omega

/-- The next clause that ends the branch or block is what it is linked to. -/
theorem relink_eq (hopened : draft.Opened before clause inner blocks) :
    relink draft.shapes before.length draft.statements.size =
      before ++ (clause, some (before.length + 1 + inner.size)) ::
        inner.layout (before.length + 1) := by
  rw [hopened.shapes_eq, hopened.size_eq, relink_middle]

end Opened

/-- What adding the clauses of a body comes to. -/
def AddsBody (body : Body) : Prop :=
  ∀ (draft : Draft) (entries : List (Nat × Clause)), entries.map Prod.snd = body.clauses →
    (draft.addAll entries).shapes = draft.shapes ++ body.layout draft.statements.size ∧
      (draft.addAll entries).openBlocks = draft.openBlocks

/-- What adding the rest of a chain to an open branch comes to. -/
def AddsBranches (branches : Branches) : Prop :=
  ∀ (draft : Draft) (start : Nat) (blocks : List Nat), draft.openBlocks = start :: blocks →
    ∀ entries : List (Nat × Clause), entries.map Prod.snd = branches.clauses →
      (draft.addAll entries).shapes = relink draft.shapes start draft.statements.size ++
          branches.layout draft.statements.size ∧
        (draft.addAll entries).openBlocks = blocks

theorem AddsBody.opened {inner : Body} (hinner : AddsBody inner) {before : List Shape}
    (hshapes : draft.shapes = before ++ [(clause, none)])
    (hopen : draft.openBlocks = before.length :: blocks) {entries : List (Nat × Clause)}
    (hentries : entries.map Prod.snd = inner.clauses) :
    (draft.addAll entries).Opened before clause inner blocks := by
  obtain ⟨hafter, hlast⟩ := hinner draft entries hentries
  refine ⟨?_, hlast.trans hopen⟩
  rw [hafter, ← length_shapes, hshapes]
  simp

theorem addsBody_step {rest : Body} (hrole : clause.role = .simple) (hrest : AddsBody rest) :
    AddsBody (.step clause hrole rest) := by
  intro draft entries hentries
  obtain ⟨entry, tail, rfl, hentry, htail⟩ := List.map_eq_cons_iff.1 hentries
  obtain ⟨hshapes, hopen⟩ := add_simple draft entry.1 hrole
  obtain ⟨hafter, hlast⟩ := hrest _ tail htail
  rw [addAll_cons, hentry, hafter, hlast, ← length_shapes, hshapes]
  simp [Body.layout, hopen]

theorem addsBody_block (bracket : Bracket) {inner rest : Body} (hinner : AddsBody inner)
    (hrest : AddsBody rest) : AddsBody (.block bracket inner rest) := by
  intro draft entries hentries
  obtain ⟨first, tail, rfl, hfirst, htail⟩ := List.map_eq_cons_iff.1 hentries
  obtain ⟨middle, tail, rfl, hmiddle, htail⟩ := List.map_eq_append_iff.1 htail
  obtain ⟨last, tail, rfl, hlast, htail⟩ := List.map_eq_cons_iff.1 htail
  obtain ⟨hshapes, hopen⟩ := add_opener draft first.1 bracket
  rw [← length_shapes] at hopen
  have hopened := hinner.opened hshapes hopen hmiddle
  obtain ⟨hclosed, houter⟩ := add_closer last.1 bracket hopened.openBlocks_eq
  obtain ⟨hafter, hend⟩ := hrest _ tail htail
  simp only [addAll_cons, addAll_append, hfirst, hlast]
  rw [hafter, hend, ← length_shapes, hclosed, hopened.relink_eq, houter]
  simp [Body.layout, Nat.add_assoc, Nat.add_comm, Nat.add_left_comm]

theorem addsBody_chain (condition : Expr) {inner rest : Body} {branches : Branches}
    (hinner : AddsBody inner) (hbranches : AddsBranches branches) (hrest : AddsBody rest) :
    AddsBody (.chain condition inner branches rest) := by
  intro draft entries hentries
  obtain ⟨first, tail, rfl, hfirst, htail⟩ := List.map_eq_cons_iff.1 hentries
  obtain ⟨middle, tail, rfl, hmiddle, htail⟩ := List.map_eq_append_iff.1 htail
  obtain ⟨last, tail, rfl, hlast, htail⟩ := List.map_eq_append_iff.1 htail
  obtain ⟨hshapes, hopen⟩ := add_opens draft first.1 (rfl : (Clause.if condition).role = .opens)
  rw [← length_shapes] at hopen
  have hopened := hinner.opened hshapes hopen hmiddle
  obtain ⟨hclosed, houter⟩ := hbranches _ _ _ hopened.openBlocks_eq last hlast
  obtain ⟨hafter, hend⟩ := hrest _ tail htail
  simp only [addAll_cons, addAll_append, hfirst]
  rw [hafter, hend, ← length_shapes, hclosed, hopened.relink_eq, hopened.size_eq, houter]
  simp [Body.layout, Nat.add_assoc, Nat.add_comm]

theorem addsBranches_endIf : AddsBranches .endIf := by
  intro draft start blocks hopen entries hentries
  obtain ⟨entry, tail, rfl, hentry, htail⟩ := List.map_eq_cons_iff.1 hentries
  obtain rfl := List.map_eq_nil_iff.1 htail
  simpa [hentry, Branches.layout] using add_closes entry.1 rfl hopen

theorem addsBranches_else {inner : Body} (hinner : AddsBody inner) :
    AddsBranches (.else inner) := by
  intro draft start blocks hopen entries hentries
  obtain ⟨first, tail, rfl, hfirst, htail⟩ := List.map_eq_cons_iff.1 hentries
  obtain ⟨middle, tail, rfl, hmiddle, htail⟩ := List.map_eq_append_iff.1 htail
  obtain ⟨last, tail, rfl, hlast, htail⟩ := List.map_eq_cons_iff.1 htail
  obtain rfl := List.map_eq_nil_iff.1 htail
  obtain ⟨hshapes, hcontinued⟩ :=
    add_continues first.1 (rfl : Clause.else.role = .continues) hopen
  rw [← length_shapes, ← length_relink draft.shapes start draft.statements.size] at hcontinued
  have hopened := hinner.opened hshapes hcontinued hmiddle
  obtain ⟨hclosed, houter⟩ :=
    add_closes last.1 (rfl : Clause.endIf.role = .closes) hopened.openBlocks_eq
  simp only [addAll_cons, addAll_append, addAll_nil, hfirst, hlast]
  rw [hclosed, houter, hopened.relink_eq]
  simp [Branches.layout]

theorem addsBranches_elseIf (condition : Expr) {inner : Body} {branches : Branches}
    (hinner : AddsBody inner) (hbranches : AddsBranches branches) :
    AddsBranches (.elseIf condition inner branches) := by
  intro draft start blocks hopen entries hentries
  obtain ⟨first, tail, rfl, hfirst, htail⟩ := List.map_eq_cons_iff.1 hentries
  obtain ⟨middle, tail, rfl, hmiddle, htail⟩ := List.map_eq_append_iff.1 htail
  obtain ⟨hshapes, hcontinued⟩ :=
    add_continues first.1 (rfl : (Clause.elseIf condition).role = .continues) hopen
  rw [← length_shapes, ← length_relink draft.shapes start draft.statements.size] at hcontinued
  have hopened := hinner.opened hshapes hcontinued hmiddle
  obtain ⟨hclosed, houter⟩ := hbranches _ _ _ hopened.openBlocks_eq tail htail
  simp only [addAll_cons, addAll_append, hfirst]
  rw [hclosed, houter, hopened.relink_eq, hopened.size_eq]
  simp [Branches.layout]

mutual

/-- The clauses of a body are linked as its layout says, and leave the open blocks as they were. -/
theorem addAll_body : (body : Body) → AddsBody body
  | .nil => fun draft entries hentries => by
    obtain rfl := List.map_eq_nil_iff.1 hentries
    simp [Body.layout]
  | .step _ hrole rest => addsBody_step hrole (addAll_body rest)
  | .block bracket inner rest => addsBody_block bracket (addAll_body inner) (addAll_body rest)
  | .chain condition inner branches rest =>
    addsBody_chain condition (addAll_body inner) (addAll_branches branches) (addAll_body rest)

/-- The clauses of the rest of a chain link the branch that is open, and close it. -/
theorem addAll_branches : (branches : Branches) → AddsBranches branches
  | .endIf => addsBranches_endIf
  | .else inner => addsBranches_else (addAll_body inner)
  | .elseIf condition inner branches =>
    addsBranches_elseIf condition (addAll_body inner) (addAll_branches branches)

end

/-! ## Lines -/

/-- The open blocks of a draft, as a stack of words. -/
def Tracks (draft : Draft) (words : List Keyword) : Prop :=
  draft.openBlocks.map draft.openerAt? = words.map some

theorem size_link (statements : Array Statement) (index target : Nat) :
    (link statements index target).size = statements.size := by
  simp [link]

/-- Linking a statement leaves what it says. -/
theorem bind_opener?_link (statements : Array Statement) (index target i : Nat) :
    (link statements index target)[i]?.bind (·.clause.opener?) =
      statements[i]?.bind (·.clause.opener?) := by
  simp only [link, Array.getElem?_modify]
  split
  · cases statements[i]? <;> rfl
  · rfl

theorem openerAt?_add_of_lt (draft : Draft) (line : Nat) (clause : Clause) {i : Nat}
    (hi : i < draft.statements.size) :
    (draft.add line clause).openerAt? i = draft.openerAt? i := by
  unfold add openerAt?
  split <;> simp only [Array.getElem?_push, size_link, Nat.ne_of_lt hi, if_false, bind_opener?_link]

theorem openerAt?_add_size (draft : Draft) (line : Nat) (clause : Clause) :
    (draft.add line clause).openerAt? draft.statements.size = clause.opener? := by
  unfold add openerAt?
  split <;> simp only [Array.getElem?_push, size_link, if_true, Option.bind_some]

theorem lt_size_of_openerAt? {index : Nat} {word : Keyword}
    (hopener : draft.openerAt? index = some word) : index < draft.statements.size := by
  obtain ⟨statement, hstatement, _⟩ := Option.bind_eq_some_iff.1 hopener
  exact (Array.getElem?_eq_some_iff.1 hstatement).1

/-- Blocks that were open before a clause keep their words. -/
theorem Tracks.map_openerAt?_add {words : List Keyword}
    (htracks : blocks.map draft.openerAt? = words.map some) (line : Nat) (clause : Clause) :
    blocks.map (draft.add line clause).openerAt? = words.map some := by
  rw [← htracks]
  apply List.map_congr_left
  intro index hindex
  have hmem : draft.openerAt? index ∈ words.map some := htracks ▸ List.mem_map_of_mem hindex
  obtain ⟨word, _, hword⟩ := List.mem_map.1 hmem
  exact openerAt?_add_of_lt draft line clause (lt_size_of_openerAt? hword.symm)

theorem Tracks.add {words next : List Keyword} (htracks : draft.Tracks words)
    (hnest : nest words clause = some next) (line : Nat) : (draft.add line clause).Tracks next := by
  have hnew := openerAt?_add_size draft line clause
  have hold : ∀ {blocks : List Nat} {words : List Keyword},
      blocks.map draft.openerAt? = words.map some →
        blocks.map (draft.add line clause).openerAt? = words.map some :=
    fun h => Tracks.map_openerAt?_add h line clause
  unfold Tracks at htracks ⊢
  cases hrole : clause.role with
  | simple =>
    obtain rfl : words = next := by simpa [nest, hrole] using hnest
    rw [(add_simple draft line hrole).2]
    exact hold htracks
  | opens =>
    obtain ⟨word, hword, rfl⟩ : ∃ word, clause.opener? = some word ∧ word :: words = next := by
      simpa [nest, hrole] using hnest
    rw [(add_opens draft line hrole).2, List.map_cons, hnew, hword, hold htracks, List.map_cons]
  | continues =>
    obtain ⟨outer, word, words, rfl, hword, rfl⟩ := nest_continues hrole hnest
    obtain ⟨start, blocks, hopen, -, hblocks⟩ := List.map_eq_cons_iff.1 htracks
    rw [(add_continues line hrole hopen).2, List.map_cons, hnew, hword, hold hblocks, List.map_cons]
  | closes =>
    obtain ⟨word, rfl⟩ := nest_closes (.inl hrole) hnest
    obtain ⟨start, blocks, hopen, -, hblocks⟩ := List.map_eq_cons_iff.1 htracks
    rw [(add_closes line hrole hopen).2, hold hblocks]
  | repeats =>
    obtain ⟨word, rfl⟩ := nest_closes (.inr hrole) hnest
    obtain ⟨start, blocks, hopen, -, hblocks⟩ := List.map_eq_cons_iff.1 htracks
    rw [(add_repeats line hrole hopen).2, hold hblocks]

/-- An open statement says a word that keeps a block open. -/
theorem Tracks.innermost?_eq {word : Keyword} {words : List Keyword}
    (htracks : draft.Tracks (word :: words)) :
    draft.innermost? = some word ∧ ∃ clause : Clause, clause.opener? = some word := by
  obtain ⟨start, blocks, hopen, hword, -⟩ := List.map_eq_cons_iff.1 htracks
  refine ⟨by simp [innermost?, hopen, hword], ?_⟩
  obtain ⟨statement, -, hclause⟩ := Option.bind_eq_some_iff.1 hword
  exact ⟨statement.clause, hclause⟩

/-- A word that needs a block and is not refused belongs to the innermost one. -/
theorem innermost?_of_refusal? {first : Token} {word : Keyword} (hneeds : word.needsBlock = true)
    (hrefusal : draft.refusal? first word = none) :
    ∃ inner, draft.innermost? = some inner ∧ inner.block = word.block ∧
      (inner = .else → word = .endIf) := by
  simp only [refusal?, hneeds, Bool.not_true, Bool.false_eq_true, if_false] at hrefusal
  split at hrefusal
  · rename_i hblock
    obtain ⟨inner, hinner, hblock⟩ := Option.map_eq_some_iff.1 hblock
    refine ⟨inner, hinner, hblock, ?_⟩
    rintro rfl
    simpa [hinner] using hrefusal
  · cases hrefusal

/-- A clause that ends a branch or block starts with a word that needs one. -/
theorem needsBlock_of_isEnd (hend : clause.isEnd = true) :
    ∃ word, clause.word? = some word ∧ word.needsBlock = true := by
  cases clause <;> first | exact ⟨_, rfl, rfl⟩ | cases hend

/-- A clause that ends a branch or block nests where the innermost block is its own. -/
theorem nest_of_block {inner word : Keyword} (words : List Keyword) (hend : clause.isEnd = true)
    (hword : clause.word? = some word) (hblock : inner.block = word.block)
    (helse : inner = .else → word = .endIf) {opener : Clause}
    (hopener : opener.opener? = some inner) :
    ∃ next, nest (inner :: words) clause = some next := by
  have hcloser : inner.closer = word.closer := by rw [Keyword.closer, Keyword.closer, hblock]
  cases clause with
  | elseIf | «else» =>
    cases hword
    have hbranch : inner = .if ∨ inner = .elseIf := by
      cases opener <;> cases hopener <;> simp [Keyword.block] at hblock helse ⊢
    exact ⟨_, if_pos hbranch⟩
  | endIf | endWhile | endFor | endSub =>
    cases hword
    exact ⟨words, if_pos (congrArg some hcloser)⟩
  | _ => cases hend

/-- A clause whose word is not refused belongs to the innermost block. -/
theorem exists_nest {words : List Keyword} (htracks : draft.Tracks words) {first : Token}
    (hrefusal : ∀ word, clause.word? = some word → draft.refusal? first word = none) :
    ∃ next, nest words clause = some next := by
  rcases clause.simple_or_opens_or_ends with hrole | ⟨bracket, rfl⟩ | ⟨condition, rfl⟩ | hend
  · exact ⟨words, nest_simple hrole⟩
  · exact ⟨_, nest_opener words bracket⟩
  · exact ⟨_, nest_if words condition⟩
  · obtain ⟨word, hword, hneeds⟩ := needsBlock_of_isEnd hend
    obtain ⟨inner, hinner, hblock, helse⟩ := innermost?_of_refusal? hneeds (hrefusal word hword)
    cases words with
    | nil =>
      have hopen : draft.openBlocks = [] := List.map_eq_nil_iff.1 htracks
      simp [innermost?, hopen] at hinner
    | cons outer words =>
      obtain ⟨houter, opener, hopener⟩ := htracks.innermost?_eq
      obtain rfl : outer = inner := Option.some.inj (houter.symm.trans hinner)
      exact nest_of_block words hend hword hblock helse hopener

theorem readClause_of_readTokens {next : Draft} {number : Nat} {first : Token} {rest : List Token}
    (hread : draft.readTokens number first rest = .ok next) :
    ∃ clause, (Line.ofTokens number (first :: rest)).readClause first rest = .ok clause ∧
      next = draft.add number clause := by
  unfold readTokens at hread
  dsimp only at hread
  split at hread
  · split at hread
    · cases hread
    · obtain ⟨clause, hclause, hread⟩ := Except.bind_eq_ok_iff.1 hread
      split at hread <;> cases hread
      exact ⟨clause, hclause, rfl⟩
  · obtain ⟨clause, hclause, hread⟩ := Except.bind_eq_ok_iff.1 hread
    split at hread <;> cases hread
    exact ⟨clause, hclause, rfl⟩

/-- A line with tokens that is not refused adds a clause where it nests. -/
theorem readTokens_eq_ok {next : Draft} {number : Nat} {first : Token} {rest : List Token}
    (hread : draft.readTokens number first rest = .ok next) :
    ∃ clause : Clause, next = draft.add number clause ∧ clause.Fits ∧
      ∀ word, clause.word? = some word → draft.refusal? first word = none := by
  obtain ⟨clause, hclause, rfl⟩ := readClause_of_readTokens hread
  refine ⟨clause, rfl, Line.fits_of_readClause hclause, ?_⟩
  intro word hword
  have hkind := Line.kind_of_readClause hclause hword
  cases hrefusal : draft.refusal? first word with
  | none => rfl
  | some error =>
    simp only [readTokens, hkind, hrefusal] at hread
    cases hread

/-- Clauses that were added where they nest, and that fit. -/
structure Extends (draft : Draft) (words : List Keyword) (entries : List (Nat × Clause))
    (last : Draft) (left : List Keyword) : Prop where
  eq_addAll : last = draft.addAll entries
  nests : nestAll words (entries.map Prod.snd) = some left
  tracks : last.Tracks left
  fits : ∀ entry ∈ entries, entry.2.Fits

theorem Extends.cons {words next left : List Keyword} {entries : List (Nat × Clause)} {last : Draft}
    (hextends : (draft.add line clause).Extends next entries last left)
    (hnest : nest words clause = some next) (hfits : clause.Fits) :
    draft.Extends words ((line, clause) :: entries) last left where
  eq_addAll := hextends.eq_addAll
  nests := nestAll_cons_eq_some.2 ⟨next, hnest, hextends.nests⟩
  tracks := hextends.tracks
  fits := List.forall_mem_cons.2 ⟨hfits, hextends.fits⟩

/-- Lines that are read without an error add clauses where they nest. -/
theorem exists_extends_of_readLines {last : Draft} {number : Nat} {texts : List String}
    {words : List Keyword} (htracks : draft.Tracks words)
    (hread : draft.readLines number texts = (last, [])) :
    ∃ entries left, draft.Extends words entries last left := by
  induction texts generalizing draft number words with
  | nil =>
    cases hread
    exact ⟨[], words, rfl, rfl, htracks, by simp⟩
  | cons text texts ih =>
    rw [readLines] at hread
    split at hread
    · rename_i next hline
      unfold readLine at hline
      split at hline
      · cases hline
        exact ih htracks hread
      · obtain ⟨clause, rfl, hfits, hrefusal⟩ := readTokens_eq_ok hline
        obtain ⟨left, hnest⟩ := exists_nest htracks hrefusal
        obtain ⟨entries, left, hextends⟩ := ih (htracks.add hnest number) hread
        exact ⟨(number, clause) :: entries, left, hextends.cons hnest hfits⟩
    · cases hread

/-- Every open block counts as unclosed. -/
theorem Tracks.eq_nil_of_unclosed {words : List Keyword} (htracks : draft.Tracks words)
    (hunclosed : draft.unclosed = []) : words = [] := by
  cases words with
  | nil => rfl
  | cons word words =>
    obtain ⟨start, blocks, hopen, hword, -⟩ := List.map_eq_cons_iff.1 htracks
    obtain ⟨statement, hstatement, hopener⟩ := Option.bind_eq_some_iff.1 hword
    have hnone := List.filterMap_eq_nil_iff.1 hunclosed start (by simp [hopen])
    simp [hstatement, hopener] at hnone

/-- Lines that are read without an error, and leave no block open, have an outline. -/
theorem readLines_outline {last : Draft} {number : Nat} {texts : List String}
    (hread : ({} : Draft).readLines number texts = (last, [])) (hclosed : last.unclosed = []) :
    ∃ (entries : List (Nat × Clause)) (body : Body), last = ({} : Draft).addAll entries ∧
      entries.map Prod.snd = body.clauses ∧ ∀ entry ∈ entries, entry.2.Fits := by
  have htracks : ({} : Draft).Tracks [] := rfl
  obtain ⟨entries, left, hextends⟩ := exists_extends_of_readLines htracks hread
  obtain rfl := hextends.tracks.eq_nil_of_unclosed hclosed
  obtain ⟨body, hbody⟩ := exists_outline hextends.nests
  exact ⟨entries, body, hextends.eq_addAll, hbody.symm, hextends.fits⟩

end Draft

end SmallBasic
