import SmallBasic.Proofs.Parsed

/-!
# Links and blocks

Where the links of a program lead, told without its outline: by the clauses at both ends of a link,
by the nesting depth between them, and by the names that are declared.

## Main definitions

* `Program.depth` — the number of blocks that are open before a statement.
* `Program.Ends` — the next clause that ends the branch or block which a statement opens.
* `Program.WellLinked` — every link leads where the blocks and the names say.

## Main statements

* `Program.parse_wellLinked` — a program that parses is well linked.
-/

namespace SmallBasic

namespace Clause

/-- How many more blocks are open after the clause than before it. -/
def rise (clause : Clause) : Int :=
  match clause.role with
  | .opens => 1
  | .closes | .repeats => -1
  | .simple | .continues => 0

/-- Whether control may leave the clause for another place. -/
def leads : Clause → Bool
  | .bind _ _ | .goto _ | .callSub _ | .if _ | .elseIf _ | .else | .while _ | .endWhile | .for _ _ _
  | .endFor | .sub _ => true
  | .assign _ _ | .invoke _ _ | .label _ | .endIf | .endSub => false

/-- Whether a clause goes on with an `If` chain or ends it. -/
def continuesIf : Clause → Bool
  | .elseIf _ | .else | .endIf => true
  | _ => false

end Clause

theorem Bracket.rise_opener (bracket : Bracket) : bracket.opener.rise = 1 := by
  cases bracket <;> rfl

theorem Bracket.rise_closer (bracket : Bracket) : bracket.closer.rise = -1 := by
  cases bracket <;> rfl

theorem Bracket.isEnd_opener (bracket : Bracket) : bracket.opener.isEnd = false := by
  cases bracket <;> rfl

theorem Bracket.isEnd_closer (bracket : Bracket) : bracket.closer.isEnd = true := by
  cases bracket <;> rfl

/-- The rest of a chain starts with a clause that goes on with it. -/
theorem Branches.layout_eq_cons (branches : Branches) (start : Nat) :
    ∃ clause link rest, branches.layout start = (clause, link) :: rest ∧
      clause.continuesIf = true := by
  cases branches <;> exact ⟨_, _, _, rfl, rfl⟩

theorem Branches.size_pos (branches : Branches) : 0 < branches.size := by
  cases branches <;> simp

namespace Program

/-- The link of the statement at an index. -/
def link? (program : Program) (index : Nat) : Option Nat := (program.get? index).bind (·.link)

/-- The number of blocks that are open before the statement at an index. -/
def depth (program : Program) : Nat → Int
  | 0 => 0
  | index + 1 => program.depth index + ((program.clause? index).map Clause.rise).getD 0

/-- The statement at `last` is the first one after `first` that ends a branch or block without
having another block between it and `first`. -/
def Ends (program : Program) (first last : Nat) : Prop :=
  (∃ clause, program.clause? last = some clause ∧ clause.isEnd = true) ∧
    program.depth last = program.depth (first + 1) ∧
    ∀ index clause, first < index → index < last → program.clause? index = some clause →
      clause.isEnd = true → program.depth (first + 1) < program.depth index

/-- The link of a clause that takes part in a block. -/
def BlockLink (program : Program) (first last : Nat) : Prop :=
  (∃ clause, program.clause? first = some clause ∧ clause.role ≠ .simple) ∧
    program.link? first = some last

/-- The statement at an index declares a label with this name. -/
def LabelAt (program : Program) (index : Nat) (name : String) : Prop :=
  ∃ written, program.clause? index = some (.label written) ∧ sameName written name = true

/-- The statement at an index starts a subroutine with this name. -/
def SubAt (program : Program) (index : Nat) (name : String) : Prop :=
  ∃ written, program.clause? index = some (.sub written) ∧ sameName written name = true

/-- Every link leads where the blocks and the names of the program say. -/
structure WellLinked (program : Program) : Prop where
  /-- No link is missing or leads past the program. -/
  linked : ∀ index clause, program.clause? index = some clause → clause.leads = true →
    ∃ target, program.link? index = some target ∧ target < program.size
  while_iff : ∀ first last,
    ((∃ condition, program.clause? first = some (.while condition)) ∧
        program.link? first = some last) ↔
      (program.clause? last = some .endWhile ∧ program.link? last = some first)
  for_iff : ∀ first last,
    ((∃ counter lower upper, program.clause? first = some (.for counter lower upper)) ∧
        program.link? first = some last) ↔
      (program.clause? last = some .endFor ∧ program.link? last = some first)
  sub : ∀ first name, program.clause? first = some (.sub name) →
    ∃ last, program.link? first = some last ∧ program.clause? last = some .endSub
  /-- A branch with a condition leads to another branch, or to the end of the chain. -/
  branch : ∀ first condition, (program.clause? first = some (.if condition) ∨
      program.clause? first = some (.elseIf condition)) →
    ∃ last clause, program.link? first = some last ∧ program.clause? last = some clause ∧
      clause.continuesIf = true
  /-- The last branch leads to the end of the chain. -/
  lastBranch : ∀ first, program.clause? first = some .else →
    ∃ last, program.link? first = some last ∧ program.clause? last = some .endIf
  /-- Whatever opens a branch or block leads forward, to the next clause that ends this very branch
  or block. -/
  ends : ∀ first clause, program.clause? first = some clause → clause.opener?.isSome = true →
    ∀ last, program.link? first = some last → first < last ∧ program.Ends first last
  /-- What stands inside a link leads inside it. -/
  nested : ∀ first last, program.BlockLink first last → ∀ inner target,
    min first last < inner → inner < max first last → program.BlockLink inner target →
      min first last < target ∧ target < max first last
  goto : ∀ index name, program.clause? index = some (.goto name) →
    ∃ target, program.link? index = some target ∧ program.label? name = some target ∧
      ∀ other, program.LabelAt other name ↔ other = target
  call : ∀ index name, (program.clause? index = some (.callSub name) ∨
      ∃ event, program.clause? index = some (.bind event name)) →
    ∃ start, program.link? index = some (start + 1) ∧ start + 1 < program.size ∧
      program.sub? name = some (start + 1) ∧ ∀ other, program.SubAt other name ↔ other = start
  label?_iff : ∀ name index, program.label? name = some index ↔ program.LabelAt index name
  sub?_iff : ∀ name index, program.sub? name = some index ↔
    ∃ start, index = start + 1 ∧ program.SubAt start name

/-! ## Places in an outline -/

/-- What stands strictly between two indices is a body of its own. -/
def Spans (program : Program) (first last : Nat) : Prop :=
  ∃ inner : Body, program.Holds (first + 1) (inner.layout (first + 1)) ∧
    last = first + 1 + inner.size

/-- What a stretch of the program that is an outline says of a statement in it, and of where its
link leads. -/
inductive Placed (program : Program) (lower upper index : Nat) : Clause → Option Nat → Prop
  | simple {clause : Clause} (hrole : clause.role = .simple) :
      Placed program lower upper index clause none
  | opener {clause : Clause} {last : Nat} (bracket : Bracket) (hclause : clause = bracket.opener)
      (hlast : program.shape? last = some (bracket.closer, bracket.back index))
      (hspans : program.Spans index last) (hupper : last < upper) :
      Placed program lower upper index clause (some last)
  | closer {clause : Clause} {link : Option Nat} {first : Nat} (bracket : Bracket)
      (hclause : clause = bracket.closer) (hlink : link = bracket.back first)
      (hfirst : program.shape? first = some (bracket.opener, some index))
      (hspans : program.Spans first index) (hlower : lower ≤ first) :
      Placed program lower upper index clause link
  | branch {clause next : Clause} {last : Nat} {link : Option Nat}
      (hclause : (∃ condition, clause = .if condition) ∨ ∃ condition, clause = .elseIf condition)
      (hlast : program.shape? last = some (next, link)) (hnext : next.continuesIf = true)
      (hspans : program.Spans index last) (hupper : last < upper) :
      Placed program lower upper index clause (some last)
  | else {last : Nat} (hlast : program.shape? last = some (.endIf, none))
      (hspans : program.Spans index last) (hupper : last < upper) :
      Placed program lower upper index .else (some last)
  | endIf : Placed program lower upper index .endIf none

variable {program : Program} {lower upper : Nat}

theorem Placed.mono {lower' upper' index : Nat} {clause : Clause} {link : Option Nat}
    (hplaced : program.Placed lower upper index clause link) (hlower : lower' ≤ lower)
    (hupper : upper ≤ upper') : program.Placed lower' upper' index clause link := by
  cases hplaced with
  | simple hrole => exact .simple hrole
  | opener bracket hclause hlast hspans hu =>
    exact .opener bracket hclause hlast hspans (by omega)
  | closer bracket hclause hlink hfirst hspans hl =>
    exact .closer bracket hclause hlink hfirst hspans (by omega)
  | branch hclause hlast hnext hspans hu => exact .branch hclause hlast hnext hspans (by omega)
  | «else» hlast hspans hu => exact .else hlast hspans (by omega)
  | endIf => exact .endIf

/-- The program has a statement at the index, placed within these bounds. -/
def PlacedAt (program : Program) (lower upper index : Nat) : Prop :=
  ∃ clause link, program.shape? index = some (clause, link) ∧
    program.Placed lower upper index clause link

/-- All statements from `start` on, as many as said, are placed within these bounds. -/
def AllPlaced (program : Program) (start count : Nat) : Prop :=
  ∀ index, start ≤ index → index < start + count → program.PlacedAt start (start + count) index

theorem AllPlaced.within {start count : Nat} (hplaced : program.AllPlaced start count) {index : Nat}
    (hindex : start ≤ index ∧ index < start + count) (hlower : lower ≤ start)
    (hupper : start + count ≤ upper) : program.PlacedAt lower upper index := by
  obtain ⟨clause, link, hshape, hplaced⟩ := hplaced index hindex.1 hindex.2
  exact ⟨clause, link, hshape, hplaced.mono hlower hupper⟩

mutual

theorem allPlaced_body : (body : Body) → (start : Nat) →
    program.Holds start (body.layout start) → program.AllPlaced start body.size
  | .nil, start, _ => by
    intro index hlower hupper
    rw [Body.size_nil] at hupper
    omega
  | .step clause hrole rest, start, hholds => by
    intro index hlower hupper
    obtain ⟨hfirst, hrest⟩ := hholds
    rw [Body.size_step] at hupper ⊢
    rcases Nat.eq_or_lt_of_le hlower with rfl | hlt
    · exact ⟨_, _, hfirst, .simple hrole⟩
    · exact (allPlaced_body rest _ hrest).within (by omega) (by omega) (by omega)
  | .block bracket inner rest, start, hholds => by
    intro index hlower hupper
    simp only [Body.layout, holds_cons, holds_append, Body.length_layout] at hholds
    obtain ⟨hfirst, hinner, hlast, hrest⟩ := hholds
    have hspans : program.Spans start (start + 1 + inner.size) := ⟨inner, hinner, rfl⟩
    rw [Body.size_block] at hupper ⊢
    have hcases : index = start ∨ (start + 1 ≤ index ∧ index < start + 1 + inner.size) ∨
        index = start + 1 + inner.size ∨ start + 1 + inner.size + 1 ≤ index := by omega
    rcases hcases with rfl | hindex | rfl | hindex
    · exact ⟨_, _, hfirst, .opener bracket rfl hlast hspans (by omega)⟩
    · exact (allPlaced_body inner _ hinner).within hindex (by omega) (by omega)
    · exact ⟨_, _, hlast, .closer bracket rfl rfl hfirst hspans (by omega)⟩
    · exact (allPlaced_body rest _ hrest).within (by omega) (by omega) (by omega)
  | .chain condition inner branches rest, start, hholds => by
    intro index hlower hupper
    simp only [Body.layout, holds_cons, holds_append, Body.length_layout,
      Branches.length_layout] at hholds
    obtain ⟨hfirst, hinner, hbranches, hrest⟩ := hholds
    have hspans : program.Spans start (start + 1 + inner.size) := ⟨inner, hinner, rfl⟩
    obtain ⟨next, link, tail, hlayout, hnext⟩ := branches.layout_eq_cons (start + 1 + inner.size)
    have hlast := (holds_cons.1 (hlayout ▸ hbranches)).1
    have hpos := branches.size_pos
    rw [Body.size_chain] at hupper ⊢
    have hcases : index = start ∨ (start + 1 ≤ index ∧ index < start + 1 + inner.size) ∨
        (start + 1 + inner.size ≤ index ∧ index < start + 1 + inner.size + branches.size) ∨
        start + 1 + inner.size + branches.size ≤ index := by omega
    rcases hcases with rfl | hindex | hindex | hindex
    · exact ⟨_, _, hfirst, .branch (.inl ⟨condition, rfl⟩) hlast hnext hspans (by omega)⟩
    · exact (allPlaced_body inner _ hinner).within hindex (by omega) (by omega)
    · exact (allPlaced_branches branches _ hbranches).within hindex (by omega) (by omega)
    · exact (allPlaced_body rest _ hrest).within (by omega) (by omega) (by omega)

theorem allPlaced_branches : (branches : Branches) → (start : Nat) →
    program.Holds start (branches.layout start) → program.AllPlaced start branches.size
  | .endIf, start, hholds => by
    intro index hlower hupper
    rw [Branches.size_endIf] at hupper
    obtain rfl : index = start := by omega
    exact ⟨_, _, hholds.1, .endIf⟩
  | .else inner, start, hholds => by
    intro index hlower hupper
    simp only [Branches.layout, holds_cons, holds_append, Body.length_layout] at hholds
    obtain ⟨hfirst, hinner, hlast, -⟩ := hholds
    rw [Branches.size_else] at hupper ⊢
    have hcases : index = start ∨ (start + 1 ≤ index ∧ index < start + 1 + inner.size) ∨
        index = start + 1 + inner.size := by omega
    rcases hcases with rfl | hindex | rfl
    · exact ⟨_, _, hfirst, .else hlast ⟨inner, hinner, rfl⟩ (by omega)⟩
    · exact (allPlaced_body inner _ hinner).within hindex (by omega) (by omega)
    · exact ⟨_, _, hlast, .endIf⟩
  | .elseIf condition inner branches, start, hholds => by
    intro index hlower hupper
    simp only [Branches.layout, holds_cons, holds_append, Body.length_layout] at hholds
    obtain ⟨hfirst, hinner, hbranches⟩ := hholds
    have hspans : program.Spans start (start + 1 + inner.size) := ⟨inner, hinner, rfl⟩
    obtain ⟨next, link, tail, hlayout, hnext⟩ := branches.layout_eq_cons (start + 1 + inner.size)
    have hlast := (holds_cons.1 (hlayout ▸ hbranches)).1
    have hpos := branches.size_pos
    rw [Branches.size_elseIf] at hupper ⊢
    have hcases : index = start ∨ (start + 1 ≤ index ∧ index < start + 1 + inner.size) ∨
        (start + 1 + inner.size ≤ index ∧ index < start + 1 + inner.size + branches.size) := by
      omega
    rcases hcases with rfl | hindex | hindex
    · exact ⟨_, _, hfirst, .branch (.inr ⟨condition, rfl⟩) hlast hnext hspans (by omega)⟩
    · exact (allPlaced_body inner _ hinner).within hindex (by omega) (by omega)
    · exact (allPlaced_branches branches _ hbranches).within hindex (by omega) (by omega)

end

/-! ## Depth -/

theorem clause?_of_shape? {index : Nat} {clause : Clause} {link : Option Nat}
    (hshape : program.shape? index = some (clause, link)) :
    program.clause? index = some clause := by
  obtain ⟨statement, hstatement, hshape⟩ := shape?_eq_some_iff.1 hshape
  have hclause : statement.clause = clause := congrArg Prod.fst hshape
  simp [clause?, hstatement, hclause]

theorem depth_succ {index : Nat} {clause : Clause} {link : Option Nat}
    (hshape : program.shape? index = some (clause, link)) :
    program.depth (index + 1) = program.depth index + clause.rise := by
  simp [depth, clause?_of_shape? hshape]

/-- A stretch that leaves so many blocks open, and closes none of these. -/
structure Above (program : Program) (start count : Nat) (level : Int) : Prop where
  depth_eq : program.depth (start + count) = level
  lt_depth : ∀ index clause, start ≤ index → index < start + count →
    program.clause? index = some clause → clause.isEnd = true → level < program.depth index

namespace Above

variable {start count more : Nat} {level inner : Int}

theorem nil (start : Nat) : program.Above start 0 (program.depth start) :=
  ⟨rfl, fun index clause hlower hupper => by omega⟩

theorem cons {clause : Clause} {link : Option Nat}
    (hshape : program.shape? start = some (clause, link))
    (hend : clause.isEnd = true → level < program.depth start)
    (habove : program.Above (start + 1) count level) : program.Above start (count + 1) level := by
  refine ⟨?_, ?_⟩
  · rw [← habove.depth_eq, Nat.add_right_comm, Nat.add_assoc]
  · intro index other hlower hupper hother hisEnd
    rcases Nat.eq_or_lt_of_le hlower with rfl | hlt
    · rw [clause?_of_shape? hshape, Option.some.injEq] at hother
      exact hend (hother ▸ hisEnd)
    · exact habove.lt_depth index other hlt (by omega) hother hisEnd

theorem append (hfirst : program.Above start count inner)
    (hrest : program.Above (start + count) more level) (hle : level ≤ inner) :
    program.Above start (count + more) level := by
  refine ⟨?_, ?_⟩
  · rw [← hrest.depth_eq, Nat.add_assoc]
  · intro index clause hlower hupper hclause hisEnd
    by_cases hindex : index < start + count
    · have hlt := hfirst.lt_depth index clause hlower hindex hclause hisEnd
      omega
    · exact hrest.lt_depth index clause (by omega) (by omega) hclause hisEnd

end Above

theorem above_endIf {start : Nat} (hshape : program.shape? start = some (.endIf, none)) :
    program.Above start 1 (program.depth start - 1) := by
  have hclosed : program.depth (start + 1) = program.depth start - 1 := depth_succ hshape
  have hnil : program.Above (start + 1) 0 (program.depth (start + 1)) := .nil (start + 1)
  rw [hclosed] at hnil
  exact .cons hshape (by omega) hnil

mutual

/-- A body closes the blocks that it opens. -/
theorem above_body : (body : Body) → (start : Nat) → program.Holds start (body.layout start) →
    program.Above start body.size (program.depth start)
  | .nil, start, _ => .nil start
  | .step clause hrole rest, start, hholds => by
    obtain ⟨hfirst, hrest⟩ := hholds
    have hdepth : program.depth (start + 1) = program.depth start := by
      simp [depth_succ hfirst, Clause.rise, hrole]
    have habove := above_body rest _ hrest
    rw [hdepth] at habove
    exact .cons hfirst (by simp [Clause.isEnd, hrole]) habove
  | .block bracket inner rest, start, hholds => by
    simp only [Body.layout, holds_cons, holds_append, Body.length_layout] at hholds
    obtain ⟨hfirst, hinner, hlast, hrest⟩ := hholds
    have hopened := depth_succ hfirst
    have hclosed := depth_succ hlast
    have hinside := above_body inner _ hinner
    have hafter := above_body rest _ hrest
    rw [Bracket.rise_opener] at hopened
    rw [Bracket.rise_closer, hinside.depth_eq, hopened, Int.add_neg_cancel_right] at hclosed
    rw [hclosed] at hafter
    have hcloser := Above.cons hlast (by rw [hinside.depth_eq]; omega) hafter
    have hblock := Above.cons hfirst (by simp [Bracket.isEnd_opener])
      (hinside.append hcloser (by omega))
    rwa [Body.size_block]
  | .chain condition inner branches rest, start, hholds => by
    simp only [Body.layout, holds_cons, holds_append, Body.length_layout,
      Branches.length_layout] at hholds
    obtain ⟨hfirst, hinner, hbranches, hrest⟩ := hholds
    have hopened : program.depth (start + 1) = program.depth start + 1 := depth_succ hfirst
    have hinside := above_body inner _ hinner
    have hchain := above_branches branches _ hbranches
    have hafter := above_body rest _ hrest
    rw [hchain.depth_eq] at hafter
    rw [hinside.depth_eq, hopened, Int.add_sub_cancel] at hchain hafter
    have hblock := Above.cons hfirst (by simp [Clause.isEnd, Clause.role])
      (hinside.append (hchain.append hafter (Int.le_refl _)) (by omega))
    rwa [Body.size_chain, Nat.add_assoc inner.size]

/-- The rest of a chain closes one block more than it opens. -/
theorem above_branches : (branches : Branches) → (start : Nat) →
    program.Holds start (branches.layout start) →
      program.Above start branches.size (program.depth start - 1)
  | .endIf, start, hholds => above_endIf hholds.1
  | .else inner, start, hholds => by
    simp only [Branches.layout, holds_cons, holds_append, Body.length_layout] at hholds
    obtain ⟨hfirst, hinner, hlast, -⟩ := hholds
    have hsame : program.depth (start + 1) = program.depth start := by
      simpa [Clause.rise, Clause.role] using depth_succ hfirst
    have hinside := above_body inner _ hinner
    have hchain := above_endIf hlast
    rw [hinside.depth_eq, hsame] at hchain
    have hblock := Above.cons hfirst (by omega) (hinside.append hchain (by omega))
    rwa [Branches.size_else]
  | .elseIf condition inner branches, start, hholds => by
    simp only [Branches.layout, holds_cons, holds_append, Body.length_layout] at hholds
    obtain ⟨hfirst, hinner, hbranches⟩ := hholds
    have hsame : program.depth (start + 1) = program.depth start := by
      simpa [Clause.rise, Clause.role] using depth_succ hfirst
    have hinside := above_body inner _ hinner
    have hchain := above_branches branches _ hbranches
    rw [hinside.depth_eq, hsame] at hchain
    have hblock := Above.cons hfirst (by omega) (hinside.append hchain (by omega))
    rwa [Branches.size_elseIf]

end

/-! ## What a place says of its link -/

/-- A clause with its link, seen from the statement. -/
theorem shape?_of_clause? {index : Nat} {clause : Clause}
    (hclause : program.clause? index = some clause) (hrole : clause.role ≠ .simple) :
    program.shape? index = some (clause, program.link? index) := by
  obtain ⟨statement, hstatement, rfl⟩ := Option.map_eq_some_iff.1 hclause
  simp [shape?, link?, hstatement, Statement.shape, hrole]

theorem link?_of_shape? {index : Nat} {clause : Clause} {link : Option Nat}
    (hshape : program.shape? index = some (clause, link)) (hrole : clause.role ≠ .simple) :
    program.link? index = link := by
  have hsame := shape?_of_clause? (clause?_of_shape? hshape) hrole
  simpa [hshape] using hsame.symm

theorem Spans.lt {first last : Nat} (hspans : program.Spans first last) : first < last := by
  obtain ⟨inner, -, rfl⟩ := hspans
  omega

/-- What follows a body inside a block is the next clause that ends the block. -/
theorem Spans.ends {first last : Nat} {clause : Clause} (hspans : program.Spans first last)
    (hclause : program.clause? last = some clause) (hend : clause.isEnd = true) :
    program.Ends first last := by
  obtain ⟨inner, hholds, rfl⟩ := hspans
  have habove := above_body inner _ hholds
  refine ⟨⟨clause, hclause, hend⟩, habove.depth_eq, ?_⟩
  intro index other hfirst hlast hother hisEnd
  exact habove.lt_depth index other hfirst hlast hother hisEnd

theorem isEnd_of_continuesIf {clause : Clause} (hcontinues : clause.continuesIf = true) :
    clause.isEnd = true := by
  cases clause <;> first | rfl | cases hcontinues

/-- A program that is linked is placed all over. -/
theorem Linked.placed (hlinked : program.Linked) {index : Nat} {clause : Clause}
    (hclause : program.clause? index = some clause) (hrole : clause.role ≠ .simple) :
    program.Placed 0 program.size index clause (program.link? index) := by
  obtain ⟨body, hbody⟩ := hlinked.outline
  have hsize : body.size = program.size := by
    rw [Body.size, hbody]
    simp [clauses, size]
  have hindex : index < program.size := by
    obtain ⟨statement, hstatement, -⟩ := Option.map_eq_some_iff.1 hclause
    exact (Array.getElem?_eq_some_iff.1 hstatement).1
  have hplaced := allPlaced_body body 0 (hlinked.holds body hbody)
  obtain ⟨other, link, hshape, hplaced⟩ := hplaced index (Nat.zero_le _) (by omega)
  have hsame := hshape.symm.trans (shape?_of_clause? hclause hrole)
  simp only [Option.some.injEq, Prod.mk.injEq] at hsame
  obtain ⟨rfl, rfl⟩ := hsame
  rwa [Nat.zero_add, hsize] at hplaced

namespace Placed

variable {index : Nat} {link : Option Nat}

theorem of_opener (bracket : Bracket)
    (hplaced : program.Placed lower upper index bracket.opener link) :
    ∃ last, link = some last ∧ program.shape? last = some (bracket.closer, bracket.back index) ∧
      program.Spans index last ∧ last < upper := by
  generalize hclause : bracket.opener = clause at hplaced
  cases hplaced with
  | opener other hother hlast hspans hupper =>
    subst hclause
    obtain rfl : bracket = other := by cases bracket <;> cases other <;> cases hother <;> rfl
    exact ⟨_, rfl, hlast, hspans, hupper⟩
  | simple hrole => exact absurd (hclause ▸ hrole) bracket.role_opener
  | closer other hother =>
    subst hclause
    cases bracket <;> cases other <;> cases hother
  | branch hother =>
    subst hclause
    obtain ⟨_, hother⟩ | ⟨_, hother⟩ := hother <;> cases bracket <;> cases hother
  | «else» | endIf => cases bracket <;> cases hclause

theorem of_repeats {clause : Clause} (hplaced : program.Placed lower upper index clause link)
    (hrole : clause.role = .repeats) :
    ∃ (bracket : Bracket) (first : Nat), clause = bracket.closer ∧ link = bracket.back first ∧
      program.shape? first = some (bracket.opener, some index) := by
  cases hplaced with
  | closer bracket hclause hlink hfirst => exact ⟨bracket, _, hclause, hlink, hfirst⟩
  | simple hother => cases hrole.symm.trans hother
  | opener bracket hclause =>
    subst hclause
    cases bracket <;> cases hrole
  | branch hclause => obtain ⟨_, rfl⟩ | ⟨_, rfl⟩ := hclause <;> cases hrole
  | «else» | endIf => cases hrole

theorem of_branch {clause : Clause} (hplaced : program.Placed lower upper index clause link)
    (hbranch : (∃ condition, clause = .if condition) ∨ ∃ condition, clause = .elseIf condition) :
    ∃ last next other, link = some last ∧ program.shape? last = some (next, other) ∧
      next.continuesIf = true := by
  cases hplaced with
  | branch _ hlast hnext => exact ⟨_, _, _, rfl, hlast, hnext⟩
  | simple hrole => obtain ⟨_, rfl⟩ | ⟨_, rfl⟩ := hbranch <;> cases hrole
  | opener other hother | closer other hother =>
    obtain ⟨_, rfl⟩ | ⟨_, rfl⟩ := hbranch <;> cases other <;> cases hother
  | «else» | endIf => simp at hbranch

theorem of_else (hplaced : program.Placed lower upper index .else link) :
    ∃ last, link = some last ∧ program.shape? last = some (.endIf, none) := by
  generalize hclause : Clause.else = clause at hplaced
  cases hplaced with
  | «else» hlast => exact ⟨_, rfl, hlast⟩
  | simple hrole => cases hclause; cases hrole
  | opener other hother | closer other hother => cases hclause; cases other <;> cases hother
  | branch hother => simp [← hclause] at hother
  | endIf => cases hclause

/-- A link stays within the stretch, and what it encloses is a body. -/
theorem spans {clause : Clause} {target : Nat}
    (hplaced : program.Placed lower upper index clause (some target)) (hlower : lower ≤ index)
    (hupper : index < upper) :
    program.Spans (min index target) (max index target) ∧ lower ≤ target ∧ target < upper := by
  generalize hlink : some target = link at hplaced
  cases hplaced with
  | simple | endIf => cases hlink
  | opener _ _ _ hspans hu | branch _ _ _ hspans hu | «else» _ hspans hu =>
    cases hlink
    have hlt := hspans.lt
    rw [Nat.min_eq_left (by omega), Nat.max_eq_right (by omega)]
    exact ⟨hspans, by omega, hu⟩
  | closer bracket hclause hback hfirst hspans hl =>
    have hlt := hspans.lt
    obtain rfl : target = _ := by
      cases bracket <;> simp [hback, Bracket.back] at hlink
      all_goals exact hlink
    rw [Nat.min_eq_right (by omega), Nat.max_eq_left (by omega)]
    exact ⟨hspans, hl, by omega⟩

/-- Whatever takes part in a block and has somewhere to lead does so. -/
theorem exists_link {clause : Clause} (hplaced : program.Placed lower upper index clause link)
    (hrole : clause.role ≠ .simple) (hleads : clause.leads = true) :
    ∃ target, link = some target := by
  cases hplaced with
  | simple hsimple => exact absurd hsimple hrole
  | opener | branch | «else» => exact ⟨_, rfl⟩
  | closer bracket hclause hlink =>
    subst hclause hlink
    cases bracket with
    | «while» | «for» => exact ⟨_, rfl⟩
    | sub => cases hleads
  | endIf => cases hleads

/-- What opens a branch or block leads forward to the end of it. -/
theorem ends {clause : Clause} {target : Nat}
    (hplaced : program.Placed lower upper index clause (some target))
    (hopener : clause.opener?.isSome = true) : index < target ∧ program.Ends index target := by
  generalize hlink : some target = link at hplaced
  cases hplaced with
  | simple | endIf => cases hlink
  | opener bracket _ hlast hspans =>
    cases hlink
    exact ⟨hspans.lt, hspans.ends (clause?_of_shape? hlast) bracket.isEnd_closer⟩
  | branch _ hlast hnext hspans =>
    cases hlink
    exact ⟨hspans.lt, hspans.ends (clause?_of_shape? hlast) (isEnd_of_continuesIf hnext)⟩
  | «else» hlast hspans =>
    cases hlink
    exact ⟨hspans.lt, hspans.ends (clause?_of_shape? hlast) rfl⟩
  | closer bracket hclause =>
    subst hclause
    cases bracket <;> cases hopener

end Placed

/-! ## Names -/

section Names

variable {index : Nat} {name : String}

theorem lt_size_of_clause? {clause : Clause} (hclause : program.clause? index = some clause) :
    index < program.size := by
  obtain ⟨statement, hstatement, -⟩ := Option.map_eq_some_iff.1 hclause
  exact (Array.getElem?_eq_some_iff.1 hstatement).1

theorem Linked.label?_iff (hlinked : program.Linked) :
    program.label? name = some index ↔ program.LabelAt index name := by
  rw [label?, hlinked.labels]
  simp only [getElem?_clauses, LabelAt, sameName, beq_iff_eq]
  constructor
  · rintro ⟨index, clause, hclause, hname, rfl⟩
    cases clause <;> simp only [Clause.labelName?, Option.some.injEq, reduceCtorEq] at hname
    exact ⟨_, hclause, hname⟩
  · rintro ⟨written, hclause, hname⟩
    exact ⟨index, _, hclause, congrArg some hname, rfl⟩

theorem Linked.sub?_iff (hlinked : program.Linked) :
    program.sub? name = some index ↔ ∃ start, index = start + 1 ∧ program.SubAt start name := by
  rw [sub?, hlinked.subs]
  simp only [getElem?_clauses, SubAt, sameName, beq_iff_eq]
  constructor
  · rintro ⟨start, clause, hclause, hname, rfl⟩
    cases clause <;> simp only [Clause.subName?, Option.some.injEq, reduceCtorEq] at hname
    exact ⟨start, rfl, _, hclause, hname⟩
  · rintro ⟨start, rfl, written, hclause, hname⟩
    exact ⟨start, _, hclause, congrArg some hname, rfl⟩

/-- The body of a subroutine is not empty: at least its end is there. -/
theorem Linked.lt_size_of_sub? (hlinked : program.Linked) (hsub : program.sub? name = some index) :
    index < program.size := by
  obtain ⟨start, rfl, written, hwritten, -⟩ := hlinked.sub?_iff.1 hsub
  have hplaced := hlinked.placed hwritten (by simp [Clause.role])
  obtain ⟨last, -, -, hspans, hlast⟩ := hplaced.of_opener (.sub written)
  have hlt := hspans.lt
  omega

/-- A reference to a subroutine leads to its body. -/
theorem Linked.exists_sub (hlinked : program.Linked) {clause : Clause}
    (hclause : program.clause? index = some clause)
    (hcalled : clause.calledName? = some (foldCase name)) :
    ∃ start, program.link? index = some (start + 1) ∧ start + 1 < program.size ∧
      program.sub? name = some (start + 1) ∧
      ∀ other, program.SubAt other name ↔ other = start := by
  obtain ⟨statement, hstatement, rfl⟩ := Option.map_eq_some_iff.1 hclause
  obtain ⟨place, hplace, hlink⟩ := hlinked.called hstatement hcalled
  obtain ⟨start, rfl, hsub⟩ := hlinked.sub?_iff.1 hplace
  have hlt := hlinked.lt_size_of_sub? hplace
  refine ⟨start, by simp [link?, hstatement, hlink], hlt, hplace, ?_⟩
  intro other
  constructor
  · intro hother
    have hsame := (hlinked.sub?_iff.2 ⟨other, rfl, hother⟩).symm.trans hplace
    simpa using hsame
  · rintro rfl
    exact hsub

theorem Linked.exists_label (hlinked : program.Linked)
    (hclause : program.clause? index = some (.goto name)) :
    ∃ target, program.link? index = some target ∧ program.label? name = some target ∧
      ∀ other, program.LabelAt other name ↔ other = target := by
  obtain ⟨statement, hstatement, hgoto⟩ := Option.map_eq_some_iff.1 hclause
  obtain ⟨target, htarget, hlink⟩ := hlinked.goto hstatement hgoto
  refine ⟨target, by simp [link?, hstatement, hlink], htarget, ?_⟩
  intro other
  rw [← hlinked.label?_iff, htarget, Option.some.injEq]
  exact eq_comm

end Names

/-! ## All links -/

theorem Linked.linked (hlinked : program.Linked) {index : Nat} {clause : Clause}
    (hclause : program.clause? index = some clause) (hleads : clause.leads = true) :
    ∃ target, program.link? index = some target ∧ target < program.size := by
  by_cases hrole : clause.role = .simple
  · cases clause with
    | goto name =>
      obtain ⟨target, hlink, hlabel, -⟩ := hlinked.exists_label hclause
      obtain ⟨written, hwritten, -⟩ := hlinked.label?_iff.1 hlabel
      exact ⟨target, hlink, lt_size_of_clause? hwritten⟩
    | bind event name | callSub name =>
      obtain ⟨start, hlink, hstart, -⟩ := hlinked.exists_sub hclause rfl
      exact ⟨start + 1, hlink, hstart⟩
    | assign | invoke | label => cases hleads
    | _ => cases hrole
  · have hplaced := hlinked.placed hclause hrole
    obtain ⟨target, hlink⟩ := hplaced.exists_link hrole hleads
    rw [hlink] at hplaced
    exact ⟨target, hlink, (hplaced.spans (Nat.zero_le _) (lt_size_of_clause? hclause)).2.2⟩

theorem Linked.nested (hlinked : program.Linked) {first last inner target : Nat}
    (hlink : program.BlockLink first last) (hlower : min first last < inner)
    (hupper : inner < max first last) (hinner : program.BlockLink inner target) :
    min first last < target ∧ target < max first last := by
  obtain ⟨⟨clause, hclause, hrole⟩, hlast⟩ := hlink
  obtain ⟨⟨other, hother, hotherRole⟩, htarget⟩ := hinner
  have hplaced := hlinked.placed hclause hrole
  rw [hlast] at hplaced
  obtain ⟨⟨body, hholds, hmax⟩, -⟩ := hplaced.spans (Nat.zero_le _) (lt_size_of_clause? hclause)
  -- The body between the two ends is a stretch of its own, so its links stay in it.
  obtain ⟨found, link, hshape, hinside⟩ :=
    allPlaced_body body _ hholds inner hlower (by omega)
  have hsame := hshape.symm.trans (shape?_of_clause? hother hotherRole)
  simp only [Option.some.injEq, Prod.mk.injEq] at hsame
  rw [hsame.2, htarget] at hinside
  have hbounds := (hinside.spans hlower (by omega)).2
  omega

/-- A loop or subroutine leads to its closer. -/
theorem Linked.exists_closer (hlinked : program.Linked) {first : Nat} (bracket : Bracket)
    (hclause : program.clause? first = some bracket.opener) :
    ∃ last, program.link? first = some last ∧ program.clause? last = some bracket.closer ∧
      program.link? last = bracket.back first := by
  obtain ⟨last, hlink, hlast, -⟩ := (hlinked.placed hclause bracket.role_opener).of_opener bracket
  exact ⟨last, hlink, clause?_of_shape? hlast, link?_of_shape? hlast bracket.role_closer⟩

/-- What repeats a loop leads back to the loop that leads to it. -/
theorem Linked.exists_opener (hlinked : program.Linked) {last : Nat} {clause : Clause}
    (hclause : program.clause? last = some clause) (hrole : clause.role = .repeats) :
    ∃ (bracket : Bracket) (first : Nat), clause = bracket.closer ∧
      program.link? last = bracket.back first ∧ program.clause? first = some bracket.opener ∧
      program.link? first = some last := by
  have hplaced := hlinked.placed hclause (by simp [hrole])
  obtain ⟨bracket, first, hcloser, hlink, hfirst⟩ := hplaced.of_repeats hrole
  exact ⟨bracket, first, hcloser, hlink, clause?_of_shape? hfirst,
    link?_of_shape? hfirst bracket.role_opener⟩

theorem Linked.wellLinked (hlinked : program.Linked) : program.WellLinked := by
  constructor
  case linked =>
    intro index clause hclause hleads
    exact hlinked.linked hclause hleads
  case while_iff =>
    intro first last
    constructor
    · rintro ⟨⟨condition, hclause⟩, hlink⟩
      obtain ⟨target, htarget, hcloser, hback⟩ :=
        hlinked.exists_closer (.while condition) hclause
      obtain rfl := Option.some.inj (htarget.symm.trans hlink)
      exact ⟨hcloser, hback⟩
    · rintro ⟨hclause, hlink⟩
      obtain ⟨bracket, start, hcloser, hback, hopener, hlast⟩ :=
        hlinked.exists_opener hclause rfl
      cases bracket with
      | «while» condition =>
        obtain rfl := Option.some.inj (hlink.symm.trans hback)
        exact ⟨⟨condition, hopener⟩, hlast⟩
      | «for» | sub => cases hcloser
  case for_iff =>
    intro first last
    constructor
    · rintro ⟨⟨counter, lower, upper, hclause⟩, hlink⟩
      obtain ⟨target, htarget, hcloser, hback⟩ :=
        hlinked.exists_closer (.for counter lower upper) hclause
      obtain rfl := Option.some.inj (htarget.symm.trans hlink)
      exact ⟨hcloser, hback⟩
    · rintro ⟨hclause, hlink⟩
      obtain ⟨bracket, start, hcloser, hback, hopener, hlast⟩ :=
        hlinked.exists_opener hclause rfl
      cases bracket with
      | «for» counter lower upper =>
        obtain rfl := Option.some.inj (hlink.symm.trans hback)
        exact ⟨⟨counter, lower, upper, hopener⟩, hlast⟩
      | «while» | sub => cases hcloser
  case sub =>
    intro first name hclause
    obtain ⟨last, hlink, hcloser, -⟩ := hlinked.exists_closer (.sub name) hclause
    exact ⟨last, hlink, hcloser⟩
  case branch =>
    intro first condition hclause
    obtain ⟨clause, hclause, hbranch⟩ : ∃ clause, program.clause? first = some clause ∧
        ((∃ condition, clause = .if condition) ∨ ∃ condition, clause = .elseIf condition) := by
      rcases hclause with hclause | hclause
      · exact ⟨_, hclause, .inl ⟨condition, rfl⟩⟩
      · exact ⟨_, hclause, .inr ⟨condition, rfl⟩⟩
    have hrole : clause.role ≠ .simple := by
      obtain ⟨_, rfl⟩ | ⟨_, rfl⟩ := hbranch <;> simp [Clause.role]
    obtain ⟨last, next, other, hlink, hlast, hnext⟩ :=
      (hlinked.placed hclause hrole).of_branch hbranch
    exact ⟨last, next, hlink, clause?_of_shape? hlast, hnext⟩
  case lastBranch =>
    intro first hclause
    obtain ⟨last, hlink, hlast⟩ := (hlinked.placed hclause (by simp [Clause.role])).of_else
    exact ⟨last, hlink, clause?_of_shape? hlast⟩
  case ends =>
    intro first clause hclause hopener last hlink
    have hrole : clause.role ≠ .simple := by cases clause <;> simp_all [Clause.role, Clause.opener?]
    have hplaced := hlinked.placed hclause hrole
    exact (hlink ▸ hplaced).ends hopener
  case nested =>
    intro first last hlink inner target hlower hupper hinner
    exact hlinked.nested hlink hlower hupper hinner
  case goto =>
    intro index name hclause
    exact hlinked.exists_label hclause
  case call =>
    intro index name hclause
    obtain hclause | ⟨event, hclause⟩ := hclause <;> exact hlinked.exists_sub hclause rfl
  case label?_iff =>
    intro name index
    exact hlinked.label?_iff
  case sub?_iff =>
    intro name index
    exact hlinked.sub?_iff

/-- The links of a program that parses are exactly those of its blocks and names. -/
theorem parse_wellLinked {source : String} (hparse : parse source = .ok program) :
    program.WellLinked :=
  (linked_of_parse hparse).wellLinked

theorem parse_wellLinked_loop : ∃ program,
    parse "Goto a\nWhile x\na:\nEndWhile\nSub f\nf()\nEndSub" = .ok program ∧
      program.WellLinked := by
  obtain ⟨program, hparse⟩ :=
    exists_of_isOk "Goto a\nWhile x\na:\nEndWhile\nSub f\nf()\nEndSub" (by decide +kernel)
  exact ⟨program, hparse, parse_wellLinked hparse⟩

end Program

end SmallBasic
