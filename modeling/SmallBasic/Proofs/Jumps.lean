import SmallBasic.Proofs.Safety
import SmallBasic.Proofs.Structured

/-!
# Jumps and blocks

What the statements of a flat program do with their links is what an outline does with its blocks.
Loops, chains and calls are taken apart here, one statement at a time: the action of a statement
that opens or closes a block makes the requests that the outline makes there, and its direction
leads to where the outline goes on.

## Main definitions

* `Program.Finishes` — a thread at an index finishes the program after so many statements.
* `Program.Encloses`, `Program.Stretch` — where a block and a branch stand.

## Main statements

* `Program.Encloses.opener_matches`, `Program.Encloses.closer_for` — the two ends of a block.
* `Program.if_matches` — a chain leads to the branch that is selected.
* `Program.Linked.exists_call` — a call leads to the body that its name stands for.
-/

namespace SmallBasic

/-! ## Numbers -/

theorem Number.ofSize_ne_undefined (negative : Bool) (size? : Option Magnitude) :
    Number.ofSize negative size? ≠ .undefined := by
  cases size? <;> simp [Number.ofSize]

theorem Decimal.toNumber_ne_undefined (decimal : Decimal) : decimal.toNumber ≠ .undefined := by
  unfold Decimal.toNumber
  repeat' split
  all_goals first | exact Number.ofSize_ne_undefined _ _ | simp [Number.zero]

theorem Number.exists_rank?_ofText (text : String) : ∃ rank, (ofText text).rank? = some rank := by
  have hdefined : ofText text ≠ .undefined := by
    unfold ofText ofText?
    cases Decimal.ofText? text with
    | none => simp [Number.zero]
    | some decimal => exact decimal.toNumber_ne_undefined
  cases hnumber : ofText text with
  | finite negative size => exact ⟨_, rfl⟩
  | infinite negative => exact ⟨_, rfl⟩
  | undefined => exact absurd hnumber hdefined

/-- Not to be above is to be less or equal, since every text has a number. -/
theorem not_isAbove (counter bound : String) :
    (!isAbove counter bound) = (Number.ofText counter).le (Number.ofText bound) := by
  obtain ⟨a, ha⟩ := Number.exists_rank?_ofText counter
  obtain ⟨b, hb⟩ := Number.exists_rank?_ofText bound
  simp only [isAbove, Number.lt, Number.le, Number.compareBy, ha, hb]
  by_cases hle : a ≤ b
  · simp [hle]
  · simp [hle, Int.not_le.1 hle]

/-! ## Finishing -/

namespace Program

/-- Where a direction leads from an index with return addresses. -/
def follow (program : Program) (index : Nat) (returns : List Nat) : Flow → Nat × List Nat
  | .next => (index + 1, returns)
  | .jump target => (target, returns)
  | .enter target => (target, (index + 1) :: returns)
  | .leave =>
    match returns with
    | address :: rest => (address, rest)
    | [] => (program.size, [])

/-- A thread that runs alone, and stands at an index, finishes the program in the last scene after
so many statements. -/
def Finishes (program : Program) (clock : Nat → String) (last : Scene) :
    (count index : Nat) → List Nat → Scene → Prop
  | 0, index, _, scene => program.size ≤ index ∧ scene = last
  | count + 1, index, returns, scene =>
    ∃ statement, program.get? index = some statement ∧
      ((program.execute index statement).evaluate clock scene).Ends (fun flow next =>
        let place := program.follow index returns flow
        program.Finishes clock last count place.1 place.2 next) last

/-- A thread that runs alone, and stands at an index, finishes the program in the last scene. -/
def Halts (program : Program) (clock : Nat → String) (last : Scene) (index : Nat)
    (returns : List Nat) (scene : Scene) : Prop :=
  ∃ count, program.Finishes clock last count index returns scene

variable {program : Program} {clock : Nat → String} {last scene : Scene} {index count : Nat}
  {returns : List Nat} {statement : Statement}

theorem lt_size_of_get? (hstatement : program.get? index = some statement) :
    index < program.size := (Array.getElem?_eq_some_iff.1 hstatement).1

/-- A thread past the program has finished it. -/
theorem Finishes.eq_last (hfinishes : program.Finishes clock last count index returns scene)
    (hpast : program.size ≤ index) : scene = last := by
  cases count with
  | zero => exact hfinishes.2
  | succ count =>
    obtain ⟨statement, hstatement, -⟩ := hfinishes
    exact absurd (lt_size_of_get? hstatement) (Nat.not_lt.2 hpast)

theorem halts_of_ends (hstatement : program.get? index = some statement)
    (hends : ((program.execute index statement).evaluate clock scene).Ends (fun flow next =>
      program.Halts clock last (program.follow index returns flow).1
        (program.follow index returns flow).2 next) last) :
    program.Halts clock last index returns scene := by
  cases hverdict : (program.execute index statement).evaluate clock scene with
  | goes flow next =>
    rw [hverdict, Verdict.ends_goes_iff] at hends
    obtain ⟨count, hcount⟩ := hends
    exact ⟨count + 1, statement, hstatement, hverdict ▸ .goes hcount⟩
  | stops after =>
    rw [hverdict, Verdict.ends_stops_iff] at hends
    subst hends
    exact ⟨1, statement, hstatement, hverdict ▸ .stops⟩
  | stuck =>
    rw [hverdict] at hends
    cases hends

theorem Finishes.ends (hfinishes : program.Finishes clock last count index returns scene)
    (hstatement : program.get? index = some statement) :
    ((program.execute index statement).evaluate clock scene).Ends (fun flow next =>
      ∃ fewer < count, program.Finishes clock last fewer (program.follow index returns flow).1
        (program.follow index returns flow).2 next) last := by
  cases count with
  | zero =>
    have hlt := lt_size_of_get? hstatement
    have hle := hfinishes.1
    omega
  | succ count =>
    obtain ⟨found, hfound, hends⟩ := hfinishes
    obtain rfl := Option.some.inj (hstatement.symm.trans hfound)
    exact hends.mono fun flow next _ hnext => ⟨count, by omega, hnext⟩

/-- A statement that only directs the thread. -/
def Directs (program : Program) (index : Nat) (flow : Flow) : Prop :=
  ∃ statement, program.get? index = some statement ∧ program.execute index statement = pure flow

theorem Directs.halts {flow : Flow} (hdirects : program.Directs index flow)
    (hrunning : scene.Running)
    (hhalts : program.Halts clock last (program.follow index returns flow).1
      (program.follow index returns flow).2 scene) :
    program.Halts clock last index returns scene := by
  obtain ⟨statement, hstatement, hexecute⟩ := hdirects
  apply halts_of_ends hstatement
  rw [hexecute, Action.evaluate_pure hrunning]
  exact .goes hhalts

theorem Directs.finishes {flow : Flow} (hdirects : program.Directs index flow)
    (hrunning : scene.Running)
    (hfinishes : program.Finishes clock last count index returns scene) :
    ∃ fewer < count, program.Finishes clock last fewer (program.follow index returns flow).1
      (program.follow index returns flow).2 scene := by
  obtain ⟨statement, hstatement, hexecute⟩ := hdirects
  have hends := hfinishes.ends hstatement
  rw [hexecute, Action.evaluate_pure hrunning] at hends
  exact Verdict.ends_goes_iff.1 hends

/-! ## Statements of blocks -/

/-- A statement with its clause and its link. -/
theorem exists_of_shape? {clause : Clause} {link : Option Nat}
    (hshape : program.shape? index = some (clause, link)) (hrole : clause.role ≠ .simple) :
    ∃ statement, program.get? index = some statement ∧ statement.clause = clause ∧
      statement.link = link := by
  obtain ⟨statement, hstatement, hsame⟩ := shape?_eq_some_iff.1 hshape
  have hclause : statement.clause = clause := congrArg Prod.fst hsame
  have hlink := congrArg Prod.snd hsame
  simp only [Statement.shape, hclause, hrole, if_false] at hlink
  exact ⟨statement, hstatement, hclause, hlink⟩

/-- A statement of a block leads where its link says. -/
theorem exists_target {clause : Clause} {target : Nat}
    (hshape : program.shape? index = some (clause, some target)) (hrole : clause.role ≠ .simple) :
    ∃ statement, program.get? index = some statement ∧ statement.clause = clause ∧
      program.target statement = target := by
  obtain ⟨statement, hstatement, hclause, hlink⟩ := exists_of_shape? hshape hrole
  exact ⟨statement, hstatement, hclause, by simp [Program.target, hlink]⟩

/-- A block with these brackets and this body starts at an index. -/
structure Encloses (program : Program) (start : Nat) (bracket : Bracket) (inner : Body) : Prop where
  opener : program.shape? start = some (bracket.opener, some (start + 1 + inner.size))
  body : program.Holds (start + 1) (inner.layout (start + 1))
  closer : program.shape? (start + 1 + inner.size) = some (bracket.closer, bracket.back start)

namespace Encloses

variable {start : Nat} {bracket : Bracket} {inner : Body}

/-- What opens a block does what the bracket says, and passes over the body unless it is entered.
Only loops are entered this way. -/
theorem opener_matches (hblock : program.Encloses start bracket inner) :
    ∃ statement, program.get? start = some statement ∧
      (program.execute start statement).Matches (fun flow inside =>
        (flow = if inside then .next else .jump (start + 1 + inner.size + 1)) ∧
          (inside = true → bracket.isLoop = true)) bracket.enter := by
  obtain ⟨statement, hstatement, hclause, htarget⟩ :=
    exists_target hblock.opener bracket.role_opener
  refine ⟨statement, hstatement, ?_⟩
  unfold execute
  cases bracket with
  | «while» condition =>
    simp only [hclause, Bracket.opener, htarget]
    refine .step condition.eval ?_
    intro value
    by_cases hvalue : isTrue value = true
    · rw [if_pos hvalue, hvalue]
      exact .pure ⟨rfl, fun _ => rfl⟩
    · rw [if_neg hvalue, Bool.eq_false_iff.2 hvalue]
      exact .pure ⟨rfl, fun _ => rfl⟩
  | «for» counter lower upper =>
    simp only [hclause, Bracket.opener, htarget]
    refine .step lower.eval fun first => .step _ fun _ => .step upper.eval ?_
    intro bound
    by_cases habove : (Number.ofText bound).lt (Number.ofText first) = true
    · rw [if_pos habove, isAbove, habove]
      exact .pure ⟨rfl, fun _ => rfl⟩
    · rw [if_neg habove, isAbove, Bool.eq_false_iff.2 habove]
      exact .pure ⟨rfl, fun _ => rfl⟩
  | sub name =>
    simp only [hclause, Bracket.opener, htarget]
    exact .pure ⟨rfl, fun hinside => by cases hinside⟩

/-- The end of a conditional loop leads back to its start. -/
theorem closer_while {condition : Expr} (hblock : program.Encloses start (.while condition) inner) :
    program.Directs (start + 1 + inner.size) (.jump start) := by
  obtain ⟨statement, hstatement, hclause, htarget⟩ :=
    exists_target hblock.closer (Bracket.while condition).role_closer
  refine ⟨statement, hstatement, ?_⟩
  simp only [execute, hclause, Bracket.closer, htarget]

/-- The end of a counting loop does what the bracket says, and leads back into the body for another
pass. -/
theorem closer_for {counter : String} {lower upper : Expr}
    (hblock : program.Encloses start (.for counter lower upper) inner) :
    ∃ statement, program.get? (start + 1 + inner.size) = some statement ∧
      (program.execute (start + 1 + inner.size) statement).Matches (fun flow more =>
        flow = if more then .jump (start + 1) else .next)
        (Bracket.for counter lower upper).again := by
  obtain ⟨statement, hstatement, hclause, htarget⟩ :=
    exists_target hblock.closer (Bracket.for counter lower upper).role_closer
  have hopener : (program.get? start).map Statement.clause = some (.for counter lower upper) :=
    clause?_of_shape? hblock.opener
  refine ⟨statement, hstatement, ?_⟩
  simp only [execute, hclause, Bracket.closer, htarget, repeatFor, hopener]
  refine .step _ fun held => .step _ fun _ => .step upper.eval ?_
  intro bound
  rw [not_isAbove]
  by_cases hle : (Number.ofText (Operator.addition held "1")).le (Number.ofText bound) = true
  · rw [if_pos hle, hle]
    exact .pure rfl
  · rw [if_neg hle, Bool.eq_false_iff.2 hle]
    exact .pure rfl

/-- The end of a subroutine leaves it. -/
theorem closer_sub {name : String} (hblock : program.Encloses start (.sub name) inner) :
    program.Directs (start + 1 + inner.size) .leave := by
  obtain ⟨statement, hstatement, hclause, -⟩ :=
    exists_of_shape? hblock.closer (Bracket.sub name).role_closer
  refine ⟨statement, hstatement, ?_⟩
  simp only [execute, hclause, Bracket.closer]

end Encloses

/-! ## Chains -/

/-- A thread at an index goes on after a chain, at once or by one statement. -/
def Passes (program : Program) (index after : Nat) : Prop :=
  index = after ∨ ∃ flow, program.Directs index flow ∧
    ∀ returns, program.follow index returns flow = (after, returns)

theorem Passes.halts {after : Nat} (hpasses : program.Passes index after)
    (hrunning : scene.Running) (hhalts : program.Halts clock last after returns scene) :
    program.Halts clock last index returns scene := by
  rcases hpasses with rfl | ⟨flow, hdirects, hfollow⟩
  · exact hhalts
  · apply hdirects.halts hrunning
    rw [hfollow]
    exact hhalts

theorem Passes.finishes {after : Nat} (hpasses : program.Passes index after)
    (hrunning : scene.Running)
    (hfinishes : program.Finishes clock last count index returns scene) :
    ∃ fewer ≤ count, program.Finishes clock last fewer after returns scene := by
  rcases hpasses with rfl | ⟨flow, hdirects, hfollow⟩
  · exact ⟨count, Nat.le_refl count, hfinishes⟩
  · obtain ⟨fewer, hfewer, hrest⟩ := hdirects.finishes hrunning hfinishes
    rw [hfollow] at hrest
    exact ⟨fewer, Nat.le_of_lt hfewer, hrest⟩

/-- A body starts at an index, and a thread that has come to its end goes on after a chain. -/
structure Stretch (program : Program) (start : Nat) (body : Body) (after : Nat) : Prop where
  holds : program.Holds start (body.layout start)
  passes : program.Passes (start + body.size) after

theorem passes_endIf (hshape : program.shape? index = some (.endIf, none)) :
    program.Passes index (index + 1) := by
  obtain ⟨statement, hstatement, hclause, -⟩ := exists_of_shape? hshape (by simp [Clause.role])
  refine .inr ⟨.next, ⟨statement, hstatement, ?_⟩, fun _ => rfl⟩
  simp only [execute, hclause]

/-- Walking along the rest of a chain leads behind it. -/
theorem skipBranches_eq : (branches : Branches) → {limit index : Nat} →
    program.Holds index (branches.layout index) → branches.size ≤ limit →
      program.skipBranches limit index = pure (index + branches.size)
  | .endIf, limit + 1, index, hholds, _ => by
    obtain ⟨statement, hstatement, hclause, -⟩ := exists_of_shape? hholds.1 (by simp [Clause.role])
    simp only [skipBranches, hstatement, hclause, Branches.size_endIf]
  | .else inner, 0, index, _, hlimit => by simp at hlimit
  | .else inner, 1, index, _, hlimit => by simp at hlimit
  | .else inner, limit + 2, index, hholds, _ => by
    simp only [Branches.layout, holds_cons, holds_append, Body.length_layout] at hholds
    obtain ⟨helse, -, hend, -⟩ := hholds
    obtain ⟨statement, hstatement, hclause, htarget⟩ := exists_target helse (by simp [Clause.role])
    obtain ⟨closer, hcloser, hendIf, -⟩ := exists_of_shape? hend (by simp [Clause.role])
    simp only [skipBranches, hstatement, hclause, htarget, hcloser, hendIf, Branches.size_else]
    congr 1
    omega
  | .elseIf condition inner branches, 0, index, _, hlimit => by simp at hlimit
  | .elseIf condition inner branches, limit + 1, index, hholds, hlimit => by
    simp only [Branches.layout, holds_cons, holds_append, Body.length_layout] at hholds
    obtain ⟨helseIf, -, hbranches⟩ := hholds
    obtain ⟨statement, hstatement, hclause, htarget⟩ :=
      exists_target helseIf (by simp [Clause.role])
    rw [Branches.size_elseIf] at hlimit
    simp only [skipBranches, hstatement, hclause, htarget]
    rw [skipBranches_eq branches hbranches (by omega), Branches.size_elseIf]
    congr 1
    omega


/-- What a program holds is no longer than the program. -/
theorem add_length_le_of_holds {shapes : List Shape} (hholds : program.Holds index shapes)
    (hindex : index ≤ program.size) : index + shapes.length ≤ program.size := by
  induction shapes generalizing index with
  | nil => simpa using hindex
  | cons shape shapes ih =>
    obtain ⟨statement, hstatement, -⟩ := shape?_eq_some_iff.1 hholds.1
    have hle := ih hholds.2 (lt_size_of_get? hstatement)
    rw [List.length_cons]
    omega

theorem size_le_walkLimit {branches : Branches}
    (hholds : program.Holds index (branches.layout index)) :
    branches.size ≤ program.walkLimit := by
  have hindex : index ≤ program.size := by
    obtain ⟨clause, link, rest, hlayout, -⟩ := branches.layout_eq_cons index
    rw [hlayout] at hholds
    exact Nat.le_of_lt (lt_size_of_clause? (clause?_of_shape? hholds.1))
  have hle := add_length_le_of_holds hholds hindex
  rw [Branches.length_layout] at hle
  unfold walkLimit
  omega

/-- A thread that comes to the rest of a chain has run a branch, and goes on behind the chain. -/
theorem passes_branches {branches : Branches}
    (hholds : program.Holds index (branches.layout index)) :
    program.Passes index (index + branches.size) := by
  cases branches with
  | endIf => exact passes_endIf hholds.1
  | «else» inner =>
    simp only [Branches.layout, holds_cons, holds_append, Body.length_layout] at hholds
    obtain ⟨helse, -, hend⟩ := hholds
    obtain ⟨statement, hstatement, hclause, htarget⟩ := exists_target helse (by simp [Clause.role])
    have hskip : program.skipBranches program.walkLimit (index + 1 + inner.size) =
        pure (index + (Branches.else inner).size) := by
      rw [skipBranches_eq .endIf hend (size_le_walkLimit hend), Branches.size_endIf,
        Branches.size_else]
      congr 1
      omega
    refine .inr ⟨.jump _, ⟨statement, hstatement, ?_⟩, fun _ => rfl⟩
    simp only [execute, hclause, htarget, hskip]
    rfl
  | elseIf condition inner branches =>
    simp only [Branches.layout, holds_cons, holds_append, Body.length_layout] at hholds
    obtain ⟨helseIf, -, hrest⟩ := hholds
    obtain ⟨statement, hstatement, hclause, htarget⟩ :=
      exists_target helseIf (by simp [Clause.role])
    have hskip : program.skipBranches program.walkLimit (index + 1 + inner.size) =
        pure (index + (Branches.elseIf condition inner branches).size) := by
      rw [skipBranches_eq branches hrest (size_le_walkLimit hrest), Branches.size_elseIf]
      congr 1
      omega
    refine .inr ⟨.jump _, ⟨statement, hstatement, ?_⟩, fun _ => rfl⟩
    simp only [execute, hclause, htarget, hskip]
    rfl

/-- A condition, and whether it is true. -/
theorem eval_matches_test (condition : Expr) :
    condition.eval.Matches (fun value holds => holds = isTrue value) condition.test :=
  ((Action.Matches.refl condition.eval).map isTrue fun _ _ hsame => congrArg isTrue hsame).symm

/-- Looking for a branch finds the one that is selected. -/
theorem selectBranch_matches : (branches : Branches) → {limit index : Nat} →
    program.Holds index (branches.layout index) → branches.size ≤ limit →
      (program.selectBranch limit index).Matches
        (fun start body => program.Stretch start body (index + branches.size)) branches.select
  | .endIf, limit + 1, index, hholds, _ => by
    obtain ⟨statement, hstatement, hclause, -⟩ := exists_of_shape? hholds.1 (by simp [Clause.role])
    simp only [selectBranch, hstatement, hclause]
    exact .pure ⟨holds_nil, .inl rfl⟩
  | .else inner, 0, index, _, hlimit => by simp at hlimit
  | .else inner, limit + 1, index, hholds, _ => by
    simp only [Branches.layout, holds_cons, holds_append, Body.length_layout] at hholds
    obtain ⟨helse, hinner, hend, -⟩ := hholds
    obtain ⟨statement, hstatement, hclause, -⟩ := exists_target helse (by simp [Clause.role])
    simp only [selectBranch, hstatement, hclause]
    refine .pure ⟨hinner, ?_⟩
    have hpasses := passes_endIf hend
    rwa [show index + (Branches.else inner).size = index + 1 + inner.size + 1 by
      rw [Branches.size_else]; omega]
  | .elseIf condition inner branches, 0, index, _, hlimit => by simp at hlimit
  | .elseIf condition inner branches, limit + 1, index, hholds, hlimit => by
    simp only [Branches.layout, holds_cons, holds_append, Body.length_layout] at hholds
    obtain ⟨helseIf, hinner, hrest⟩ := hholds
    obtain ⟨statement, hstatement, hclause, htarget⟩ :=
      exists_target helseIf (by simp [Clause.role])
    rw [Branches.size_elseIf] at hlimit
    have hafter : index + (Branches.elseIf condition inner branches).size =
        index + 1 + inner.size + branches.size := by
      rw [Branches.size_elseIf]
      omega
    have hlimit : branches.size ≤ limit := by omega
    have hmore := selectBranch_matches branches hrest hlimit
    rw [hafter]
    simp only [selectBranch, hstatement, hclause, htarget]
    refine (eval_matches_test condition).bind ?_
    intro value holds hholds
    by_cases hvalue : isTrue value = true
    · rw [if_pos hvalue, if_pos (hholds.trans hvalue)]
      exact .pure ⟨hinner, passes_branches hrest⟩
    · rw [if_neg hvalue, if_neg (hholds ▸ hvalue)]
      exact hmore

/-- What starts a chain finds the branch that is selected. -/
theorem if_matches {condition : Expr} {inner : Body} {branches : Branches} {start : Nat}
    (hif : program.shape? start = some (.if condition, some (start + 1 + inner.size)))
    (hinner : program.Holds (start + 1) (inner.layout (start + 1)))
    (hbranches : program.Holds (start + 1 + inner.size)
      (branches.layout (start + 1 + inner.size))) :
    ∃ statement, program.get? start = some statement ∧
      (program.execute start statement).Matches (fun flow body =>
        ∃ place, (∀ returns, program.follow start returns flow = (place, returns)) ∧
          program.Stretch place body (start + 1 + inner.size + branches.size))
        (Branches.elseIf condition inner branches).select := by
  obtain ⟨statement, hstatement, hclause, htarget⟩ := exists_target hif (by simp [Clause.role])
  refine ⟨statement, hstatement, ?_⟩
  have hmore := selectBranch_matches branches hbranches (size_le_walkLimit hbranches)
  simp only [execute, hclause, htarget]
  refine (eval_matches_test condition).bind ?_
  intro value holds hholds
  by_cases hvalue : isTrue value = true
  · rw [if_pos hvalue, if_pos (hholds.trans hvalue)]
    exact .pure ⟨start + 1, fun _ => rfl, hinner, passes_branches hbranches⟩
  · rw [if_neg hvalue, if_neg (hholds ▸ hvalue)]
    exact hmore.map Flow.jump fun place body hstretch => ⟨place, fun _ => rfl, hstretch⟩

/-! ## Layouts -/

/-- A block of an outline stands where its layout says. -/
theorem encloses_of_holds {bracket : Bracket} {inner rest : Body} {start : Nat}
    (hholds : program.Holds start ((Body.block bracket inner rest).layout start)) :
    program.Encloses start bracket inner ∧
      program.Holds (start + 1 + inner.size + 1) (rest.layout (start + 1 + inner.size + 1)) := by
  simp only [Body.layout, holds_cons, holds_append, Body.length_layout] at hholds
  obtain ⟨hopener, hinner, hcloser, hrest⟩ := hholds
  exact ⟨⟨hopener, hinner, hcloser⟩, hrest⟩

theorem add_size_block (start : Nat) (bracket : Bracket) (inner rest : Body) :
    start + (Body.block bracket inner rest).size = start + 1 + inner.size + 1 + rest.size := by
  rw [Body.size_block]
  omega

/-- A chain of an outline stands where its layout says. -/
theorem chain_of_holds {condition : Expr} {inner rest : Body} {branches : Branches} {start : Nat}
    (hholds : program.Holds start ((Body.chain condition inner branches rest).layout start)) :
    program.shape? start = some (.if condition, some (start + 1 + inner.size)) ∧
      program.Holds (start + 1) (inner.layout (start + 1)) ∧
      program.Holds (start + 1 + inner.size) (branches.layout (start + 1 + inner.size)) ∧
      program.Holds (start + 1 + inner.size + branches.size)
        (rest.layout (start + 1 + inner.size + branches.size)) := by
  simpa only [Body.layout, holds_cons, holds_append, Body.length_layout,
    Branches.length_layout] using hholds

theorem add_size_chain (start : Nat) (condition : Expr) (inner rest : Body) (branches : Branches) :
    start + (Body.chain condition inner branches rest).size =
      start + 1 + inner.size + branches.size + rest.size := by
  rw [Body.size_chain]
  omega

/-! ## Calls -/

mutual

/-- The body that a name is looked up to is the body of a subroutine with this name. -/
theorem encloses_of_sub? {name : String} {inner : Body} : (body : Body) → {start : Nat} →
    program.Holds start (body.layout start) → body.sub? name = some inner →
      ∃ place written, program.Encloses place (.sub written) inner ∧ sameName written name = true
  | .nil, _, _, hsub => by cases hsub
  | .step clause _ rest, _, hholds, hsub => encloses_of_sub? rest hholds.2 hsub
  | .block bracket body rest, start, hholds, hsub => by
    obtain ⟨hblock, hrest⟩ := encloses_of_holds hholds
    rw [Body.sub?] at hsub
    split at hsub
    · rename_i hdeclares
      obtain rfl := Option.some.inj hsub
      cases bracket with
      | sub written => exact ⟨start, written, hblock, hdeclares⟩
      | «while» | «for» => cases hdeclares
    · rcases Option.or_eq_some_iff.1 hsub with hbody | ⟨-, hlater⟩
      · exact encloses_of_sub? body hblock.body hbody
      · exact encloses_of_sub? rest hrest hlater
  | .chain condition body branches rest, start, hholds, hsub => by
    obtain ⟨-, hbody, hbranches, hrest⟩ := chain_of_holds hholds
    rcases Option.or_eq_some_iff.1 hsub with hfound | ⟨-, hlater⟩
    · exact encloses_of_sub? body hbody hfound
    · rcases Option.or_eq_some_iff.1 hlater with hfound | ⟨-, hlater⟩
      · exact encloses_of_branches branches hbranches hfound
      · exact encloses_of_sub? rest hrest hlater

theorem encloses_of_branches {name : String} {inner : Body} : (branches : Branches) →
    {start : Nat} → program.Holds start (branches.layout start) →
      branches.sub? name = some inner →
        ∃ place written, program.Encloses place (.sub written) inner ∧
          sameName written name = true
  | .endIf, _, _, hsub => by cases hsub
  | .else body, start, hholds, hsub => by
    simp only [Branches.layout, holds_cons, holds_append, Body.length_layout] at hholds
    exact encloses_of_sub? body hholds.2.1 hsub
  | .elseIf condition body branches, start, hholds, hsub => by
    simp only [Branches.layout, holds_cons, holds_append, Body.length_layout] at hholds
    obtain ⟨-, hbody, hbranches⟩ := hholds
    rcases Option.or_eq_some_iff.1 hsub with hfound | ⟨-, hlater⟩
    · exact encloses_of_sub? body hbody hfound
    · exact encloses_of_branches branches hbranches hlater

end

end Program

mutual

/-- A subroutine of an outline is found under its name. -/
theorem Body.isSome_sub? {name written : String} (hname : sameName written name = true) :
    (body : Body) → .sub written ∈ body.clauses → (body.sub? name).isSome = true
  | .nil, hmem => by cases hmem
  | .step clause hrole rest, hmem => by
    rw [Body.clauses, List.mem_cons] at hmem
    rcases hmem with rfl | hrest
    · cases hrole
    · exact rest.isSome_sub? hname hrest
  | .block bracket inner rest, hmem => by
    rw [Body.sub?]
    split
    · rfl
    · rename_i hdeclares
      simp only [Body.clauses, List.mem_cons, List.mem_append] at hmem
      rw [Option.isSome_or, Bool.or_eq_true]
      rcases hmem with hopener | hinner | hcloser | hrest
      · cases bracket <;> cases hopener
        exact absurd hname hdeclares
      · exact .inl (inner.isSome_sub? hname hinner)
      · cases bracket <;> cases hcloser
      · exact .inr (rest.isSome_sub? hname hrest)
  | .chain condition inner branches rest, hmem => by
    simp only [Body.clauses, List.mem_cons, List.mem_append, reduceCtorEq, false_or] at hmem
    rw [Body.sub?, Option.isSome_or, Option.isSome_or, Bool.or_eq_true, Bool.or_eq_true]
    exact hmem.imp (inner.isSome_sub? hname)
      (.imp (branches.isSome_sub? hname) (rest.isSome_sub? hname))

theorem Branches.isSome_sub? {name written : String} (hname : sameName written name = true) :
    (branches : Branches) → .sub written ∈ branches.clauses → (branches.sub? name).isSome = true
  | .endIf, hmem => by simp [Branches.clauses] at hmem
  | .else inner, hmem => by
    simp only [Branches.clauses, List.mem_cons, List.mem_append, List.not_mem_nil, reduceCtorEq,
      false_or, or_false] at hmem
    exact inner.isSome_sub? hname hmem
  | .elseIf condition inner branches, hmem => by
    simp only [Branches.clauses, List.mem_cons, List.mem_append, reduceCtorEq, false_or] at hmem
    rw [Branches.sub?, Option.isSome_or, Bool.or_eq_true]
    exact hmem.imp (inner.isSome_sub? hname) (branches.isSome_sub? hname)

end

namespace Program

variable {program : Program} {index : Nat} {outline : Body}

/-- A call enters the body that its name is looked up to. -/
theorem Linked.exists_call (hlinked : program.Linked) (houtline : outline.clauses = program.clauses)
    {name : String} (hcall : program.clause? index = some (.callSub name)) :
    ∃ place written inner, outline.sub? name = some inner ∧
      program.Encloses place (.sub written) inner ∧ program.Directs index (.enter (place + 1)) := by
  obtain ⟨place, hlink, -, -, hunique⟩ := hlinked.exists_sub hcall rfl
  obtain ⟨declared, hdeclared, hname⟩ := (hunique place).2 rfl
  have hmem : .sub declared ∈ outline.clauses := by
    rw [houtline]
    exact List.mem_of_getElem? ((getElem?_clauses program place).trans hdeclared)
  obtain ⟨inner, hinner⟩ := Option.isSome_iff_exists.1 (outline.isSome_sub? hname hmem)
  obtain ⟨found, written, hblock, hwritten⟩ :=
    encloses_of_sub? outline (hlinked.holds outline houtline) hinner
  obtain rfl := (hunique found).1 ⟨written, clause?_of_shape? hblock.opener, hwritten⟩
  obtain ⟨statement, hstatement, hclause⟩ := Option.map_eq_some_iff.1 hcall
  refine ⟨found, written, inner, hinner, hblock, statement, hstatement, ?_⟩
  simp only [execute, hclause, target_eq hstatement hlink]

end Program

/-! ## Plain programs -/

/-- Whether a clause neither jumps to a label nor binds an event. -/
def Clause.isPlain : Clause → Bool
  | .goto _ | .bind _ _ => false
  | _ => true

namespace Program

/-- The program is linked, has only plain clauses, and has this outline. -/
structure Structured (program : Program) (outline : Body) : Prop where
  linked : program.Linked
  outline : outline.clauses = program.clauses
  plain : ∀ clause ∈ program.clauses, clause.isPlain = true

variable {program : Program} {clock : Nat → String} {last scene : Scene} {index count fuel : Nat}
  {returns : List Nat} {outline : Body}

/-- A clause that takes no part in a block, calls nothing and is plain leads to the next one. -/
theorem simple_matches {statement : Statement} (hrole : statement.clause.role = .simple)
    (hplain : statement.clause.isPlain = true)
    (hcall : ¬ ∃ name, statement.clause = .callSub name) :
    (program.execute index statement).Matches (fun flow _ => flow = .next)
      statement.clause.act := by
  unfold execute
  cases hclause : statement.clause with
  | assign place value =>
    refine .step value.eval ?_
    intro text
    exact (Action.Matches.refl (place.store text)).map (fun _ => Flow.next) fun _ _ _ => rfl
  | invoke method args =>
    exact .step (Expr.evalAll args) fun values => .step _ fun _ => .pure rfl
  | label name => exact .pure rfl
  | callSub name => exact absurd ⟨name, hclause⟩ hcall
  | goto | bind => simp [hclause, Clause.isPlain] at hplain
  | _ => simp [hclause, Clause.role] at hrole

/-- Such a clause is evaluated by what it does. -/
theorem simple_evaluate (hplain : ∀ clause ∈ program.clauses, clause.isPlain = true)
    {clause : Clause} (hclause : program.clause? index = some clause)
    (hrole : clause.role = .simple) (hcall : ¬ ∃ name, clause = .callSub name) {rest : Body} :
    ∃ statement, program.get? index = some statement ∧
      (program.execute index statement).Matches (fun flow _ => flow = .next) clause.act ∧
      outline.evaluate clock (fuel + 1) (.step clause hrole rest) scene =
        (clause.act.evaluate clock scene).andThen fun _ scene =>
          outline.evaluate clock fuel rest scene := by
  have hmem := List.mem_of_getElem? ((getElem?_clauses program index).trans hclause)
  have hact : outline.evaluate clock (fuel + 1) (.step clause hrole rest) scene =
      (clause.act.evaluate clock scene).andThen fun _ scene =>
        outline.evaluate clock fuel rest scene := by
    cases clause with
    | callSub name => exact absurd ⟨name, rfl⟩ hcall
    | _ => rfl
  obtain ⟨statement, hstatement, rfl⟩ := Option.map_eq_some_iff.1 hclause
  exact ⟨statement, hstatement, simple_matches hrole (hplain _ hmem) hcall, hact⟩

/-- A thread at the end of a pass follows what is done there. -/
theorem Encloses.halts_closer {bracket : Bracket} {inner : Body} {start : Nat}
    (hblock : program.Encloses start bracket inner) (hloop : bracket.isLoop = true)
    (hrunning : scene.Running)
    (hends : (bracket.again.evaluate clock scene).Ends (fun more next => next.Running →
      program.Halts clock last (if more then start + 1 else start + 1 + inner.size + 1) returns
        next) last) :
    program.Halts clock last (start + 1 + inner.size) returns scene := by
  cases bracket with
  | sub name => cases hloop
  | «while» condition =>
    apply hblock.closer_while.halts hrunning
    obtain ⟨statement, hstatement, hmatches⟩ := hblock.opener_matches
    apply halts_of_ends hstatement
    refine hmatches.symm.ends ?_ hends
    intro more flow next hflow hnext hmore
    obtain ⟨rfl, -⟩ := hflow
    cases more <;> exact hmore hnext
  | «for» counter lower upper =>
    obtain ⟨statement, hstatement, hmatches⟩ := hblock.closer_for
    apply halts_of_ends hstatement
    refine hmatches.symm.ends ?_ hends
    intro more flow next hflow hnext hmore
    subst hflow
    cases more <;> exact hmore hnext

theorem Encloses.finishes_closer {bracket : Bracket} {inner : Body} {start : Nat}
    (hblock : program.Encloses start bracket inner) (hloop : bracket.isLoop = true)
    (hrunning : scene.Running)
    (hfinishes : program.Finishes clock last count (start + 1 + inner.size) returns scene) :
    (bracket.again.evaluate clock scene).Ends (fun more next => next.Running ∧
      ∃ fewer < count, program.Finishes clock last fewer
        (if more then start + 1 else start + 1 + inner.size + 1) returns next) last := by
  cases bracket with
  | sub name => cases hloop
  | «while» condition =>
    obtain ⟨fewer, hfewer, hrest⟩ := hblock.closer_while.finishes hrunning hfinishes
    obtain ⟨statement, hstatement, hmatches⟩ := hblock.opener_matches
    refine hmatches.ends ?_ (hrest.ends hstatement)
    intro flow more next hflow hnext hmore
    obtain ⟨least, hleast, hmore⟩ := hmore
    obtain ⟨rfl, -⟩ := hflow
    refine ⟨hnext, least, by omega, ?_⟩
    cases more <;> exact hmore
  | «for» counter lower upper =>
    obtain ⟨statement, hstatement, hmatches⟩ := hblock.closer_for
    refine hmatches.ends ?_ (hfinishes.ends hstatement)
    intro flow more next hflow hnext hmore
    obtain ⟨fewer, hfewer, hmore⟩ := hmore
    subst hflow
    refine ⟨hnext, fewer, hfewer, ?_⟩
    cases more <;> exact hmore

end Program

end SmallBasic
