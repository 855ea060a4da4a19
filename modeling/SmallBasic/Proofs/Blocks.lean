import SmallBasic.Proofs.Jumps

/-!
# Blocks

A thread that runs alone finishes the program exactly if the evaluation of its outline comes to an
end, and in the same scene. From blocks to jumps the argument goes by how deep the evaluation is,
and from jumps to blocks by how many statements the thread runs: in both directions a part of the
outline is followed from its first statement to the one after it.

## Main statements

* `Program.realizes` — threads follow evaluations.
* `Program.reflects` — evaluations follow threads.
* `Program.Structured.halts_iff` — a thread finishes where the evaluation of the outline does.
-/

namespace SmallBasic

namespace Program

variable {program : Program} {clock : Nat → String} {last scene : Scene} {index count fuel : Nat}
  {returns : List Nat} {outline : Body}

/-! ## From blocks to jumps -/

/-- As far as evaluations reach with this fuel, threads follow them: from the start of a body or of
a pass through a loop, a thread halts if it does so from the end. -/
structure Realizes (program : Program) (clock : Nat → String) (outline : Body) (last : Scene)
    (fuel : Nat) : Prop where
  body : ∀ {body : Body} {start : Nat} {returns : List Nat} {scene : Scene},
    program.Holds start (body.layout start) → scene.Running →
      (outline.evaluate clock fuel body scene).Ends (fun _ next => next.Running →
        program.Halts clock last (start + body.size) returns next) last →
      program.Halts clock last start returns scene
  loop : ∀ {bracket : Bracket} {inner : Body} {start : Nat} {returns : List Nat} {scene : Scene},
    program.Encloses start bracket inner → bracket.isLoop = true → scene.Running →
      (outline.repeat clock fuel bracket inner scene).Ends (fun _ next => next.Running →
        program.Halts clock last (start + 1 + inner.size + 1) returns next) last →
      program.Halts clock last (start + 1) returns scene

namespace Realizes

theorem zero : program.Realizes clock outline last 0 where
  body _ _ hends := by cases hends
  loop _ _ _ hends := by cases hends

variable (ih : program.Realizes clock outline last fuel)

include ih

theorem call {place : Nat} {written : String} {inner : Body}
    (hblock : program.Encloses place (.sub written) inner)
    (hdirects : program.Directs index (.enter (place + 1))) (hrunning : scene.Running)
    (hends : (outline.evaluate clock fuel inner scene).Ends (fun _ next => next.Running →
      program.Halts clock last (index + 1) returns next) last) :
    program.Halts clock last index returns scene := by
  apply hdirects.halts hrunning
  apply ih.body hblock.body hrunning
  refine hends.mono ?_
  intro _ next _ hhalts hnext
  exact hblock.closer_sub.halts hnext (hhalts hnext)

theorem step (hstructured : program.Structured outline) {clause : Clause}
    {hrole : clause.role = .simple} {rest : Body} {start : Nat}
    (hholds : program.Holds start ((Body.step clause hrole rest).layout start))
    (hrunning : scene.Running)
    (hends : (outline.evaluate clock (fuel + 1) (.step clause hrole rest) scene).Ends
      (fun _ next => next.Running →
        program.Halts clock last (start + (Body.step clause hrole rest).size) returns next) last) :
    program.Halts clock last start returns scene := by
  obtain ⟨hshape, hrest⟩ := hholds
  have hclause := clause?_of_shape? hshape
  have hafter : ∀ next : Scene, next.Running →
      (outline.evaluate clock fuel rest next).Ends (fun _ next => next.Running →
        program.Halts clock last (start + (rest.size + 1)) returns next) last →
      program.Halts clock last (start + 1) returns next := by
    intro next hnext hmore
    apply ih.body hrest hnext
    rwa [Nat.add_assoc, Nat.add_comm 1]
  rw [Body.size_step] at hends
  by_cases hcall : ∃ name, clause = .callSub name
  · obtain ⟨name, rfl⟩ := hcall
    obtain ⟨place, written, inner, hsub, hblock, hdirects⟩ :=
      hstructured.linked.exists_call hstructured.outline hclause
    simp only [Body.evaluate, hsub, Verdict.ends_andThen_iff] at hends
    exact ih.call hblock hdirects hrunning
      (hends.mono fun _ next _ hmore hnext => hafter next hnext hmore)
  · obtain ⟨statement, hstatement, hmatches, hact⟩ :=
      simple_evaluate hstructured.plain hclause hrole hcall
    rw [hact, Verdict.ends_andThen_iff] at hends
    apply halts_of_ends hstatement
    refine hmatches.symm.ends ?_ hends
    intro _ flow next hflow hnext hmore
    rw [hflow]
    exact hafter next hnext hmore

theorem block {bracket : Bracket} {inner rest : Body} {start : Nat}
    (hholds : program.Holds start ((Body.block bracket inner rest).layout start))
    (hends : (outline.evaluate clock (fuel + 1) (.block bracket inner rest) scene).Ends
      (fun _ next => next.Running →
        program.Halts clock last (start + (Body.block bracket inner rest).size) returns next)
      last) :
    program.Halts clock last start returns scene := by
  obtain ⟨hblock, hrest⟩ := encloses_of_holds hholds
  rw [add_size_block] at hends
  simp only [Body.evaluate, Verdict.ends_andThen_iff] at hends
  obtain ⟨statement, hstatement, hmatches⟩ := hblock.opener_matches
  apply halts_of_ends hstatement
  refine hmatches.symm.ends ?_ hends
  intro inside flow next hflow hnext hmore
  obtain ⟨rfl, hloop⟩ := hflow
  cases inside with
  | true =>
    simp only [if_true] at hmore ⊢
    apply ih.loop hblock (hloop rfl) hnext
    exact hmore.mono fun _ after _ hafter hrunning => ih.body hrest hrunning hafter
  | false =>
    simp only [Bool.false_eq_true, if_false, Verdict.ends_goes_iff] at hmore ⊢
    exact ih.body hrest hnext hmore

theorem chain {condition : Expr} {inner rest : Body} {branches : Branches} {start : Nat}
    (hholds : program.Holds start ((Body.chain condition inner branches rest).layout start))
    (hends : (outline.evaluate clock (fuel + 1) (.chain condition inner branches rest) scene).Ends
      (fun _ next => next.Running →
        program.Halts clock last (start + (Body.chain condition inner branches rest).size) returns
          next) last) :
    program.Halts clock last start returns scene := by
  obtain ⟨hif, hinner, hbranches, hrest⟩ := chain_of_holds hholds
  rw [add_size_chain] at hends
  simp only [Body.evaluate, Verdict.ends_andThen_iff] at hends
  obtain ⟨statement, hstatement, hmatches⟩ := if_matches hif hinner hbranches
  apply halts_of_ends hstatement
  refine hmatches.symm.ends ?_ hends
  intro body flow next hflow hnext hmore
  obtain ⟨place, hplace, hstretch⟩ := hflow
  rw [hplace]
  apply ih.body hstretch.holds hnext
  refine hmore.mono ?_
  intro _ after _ hafter hrunning
  exact hstretch.passes.halts hrunning (ih.body hrest hrunning hafter)

theorem pass {bracket : Bracket} {inner : Body} {start : Nat}
    (hblock : program.Encloses start bracket inner) (hloop : bracket.isLoop = true)
    (hrunning : scene.Running)
    (hends : (outline.repeat clock (fuel + 1) bracket inner scene).Ends
      (fun _ next => next.Running →
        program.Halts clock last (start + 1 + inner.size + 1) returns next) last) :
    program.Halts clock last (start + 1) returns scene := by
  simp only [Body.repeat, Verdict.ends_andThen_iff] at hends
  apply ih.body hblock.body hrunning
  refine hends.mono ?_
  intro _ next _ hagain hnext
  apply hblock.halts_closer hloop hnext
  refine hagain.mono ?_
  intro more after _ hmore hafter
  cases more with
  | true => exact ih.loop hblock hloop hafter hmore
  | false => exact Verdict.ends_goes_iff.1 hmore hafter

theorem succ (hstructured : program.Structured outline) :
    program.Realizes clock outline last (fuel + 1) where
  body {body _ _ _} hholds hrunning hends := by
    cases body with
    | nil => exact Verdict.ends_goes_iff.1 hends hrunning
    | step clause hrole rest => exact ih.step hstructured hholds hrunning hends
    | block bracket inner rest => exact ih.block hholds hends
    | chain condition inner branches rest => exact ih.chain hholds hends
  loop hblock hloop hrunning hends := ih.pass hblock hloop hrunning hends

end Realizes

theorem realizes (hstructured : program.Structured outline) (fuel : Nat) :
    program.Realizes clock outline last fuel := by
  induction fuel with
  | zero => exact .zero
  | succ fuel ih => exact ih.succ hstructured

/-! ## From jumps to blocks -/

/-- The program goes on, and from an index a thread finishes it after at most so many statements. -/
def FinishesWithin (program : Program) (clock : Nat → String) (last : Scene) (count index : Nat)
    (returns : List Nat) (scene : Scene) : Prop :=
  scene.Running ∧ ∃ fewer ≤ count, program.Finishes clock last fewer index returns scene

theorem FinishesWithin.mono {more : Nat}
    (hwithin : program.FinishesWithin clock last count index returns scene) (hle : count ≤ more) :
    program.FinishesWithin clock last more index returns scene := by
  obtain ⟨hrunning, fewer, hfewer, hfinishes⟩ := hwithin
  exact ⟨hrunning, fewer, Nat.le_trans hfewer hle, hfinishes⟩

/-- A thread that finishes after so many statements is followed by evaluations with enough fuel: one
that starts with a body or with a pass through a loop comes to its end, and from there the thread
finishes after no more statements. A pass uses fuel before any statement is run, so that a statement
may need two units of it. -/
structure Reflects (program : Program) (clock : Nat → String) (outline : Body) (last : Scene)
    (count : Nat) : Prop where
  body : ∀ {body : Body} {start fuel : Nat} {returns : List Nat} {scene : Scene},
    program.Holds start (body.layout start) → scene.Running → 2 * count < fuel →
      program.Finishes clock last count start returns scene →
      (outline.evaluate clock fuel body scene).Ends
        (fun _ => program.FinishesWithin clock last count (start + body.size) returns) last
  loop : ∀ {bracket : Bracket} {inner : Body} {start fuel : Nat} {returns : List Nat}
      {scene : Scene},
    program.Encloses start bracket inner → bracket.isLoop = true → scene.Running →
      2 * count + 1 < fuel → program.Finishes clock last count (start + 1) returns scene →
      (outline.repeat clock fuel bracket inner scene).Ends
        (fun _ => program.FinishesWithin clock last count (start + 1 + inner.size + 1) returns) last

section Reflects

variable (ih : ∀ fewer < count, program.Reflects clock outline last fewer)

include ih

/-- Evaluations go on where a thread finishes after fewer statements. -/
theorem FinishesWithin.rest {least : Nat} {body : Body} {start : Nat}
    (hwithin : program.FinishesWithin clock last least start returns scene) (hleast : least < count)
    (hfuel : 2 * count < fuel + 1) (hholds : program.Holds start (body.layout start)) :
    (outline.evaluate clock fuel body scene).Ends
      (fun _ => program.FinishesWithin clock last count (start + body.size) returns) last := by
  obtain ⟨hrunning, fewer, hfewer, hfinishes⟩ := hwithin
  have hfuel : 2 * fewer < fuel := by omega
  have hends := (ih fewer (by omega)).body hholds hrunning hfuel hfinishes
  exact hends.mono fun _ next _ hnext => hnext.mono (by omega)

/-- The body of a subroutine is evaluated where a thread runs it and comes back. -/
theorem reflects_call {place : Nat} {written : String} {inner : Body}
    (hblock : program.Encloses place (.sub written) inner)
    (hdirects : program.Directs index (.enter (place + 1))) (hrunning : scene.Running)
    (hfuel : 2 * count < fuel + 1)
    (hfinishes : program.Finishes clock last count index returns scene) :
    (outline.evaluate clock fuel inner scene).Ends
      (fun _ => program.FinishesWithin clock last (count - 1) (index + 1) returns) last := by
  obtain ⟨fewer, hfewer, hinside⟩ := hdirects.finishes hrunning hfinishes
  have hfuel : 2 * fewer < fuel := by omega
  have hends := (ih fewer hfewer).body hblock.body hrunning hfuel hinside
  refine hends.mono ?_
  intro _ next _ hnext
  obtain ⟨hrunning, least, hleast, hcloser⟩ := hnext
  obtain ⟨fewest, hfewest, hback⟩ := hblock.closer_sub.finishes hrunning hcloser
  exact ⟨hrunning, fewest, by omega, hback⟩

theorem reflects_step (hstructured : program.Structured outline) {clause : Clause}
    {hrole : clause.role = .simple} {rest : Body} {start : Nat}
    (hholds : program.Holds start ((Body.step clause hrole rest).layout start))
    (hrunning : scene.Running) (hfuel : 2 * count < fuel + 1)
    (hfinishes : program.Finishes clock last count start returns scene) :
    (outline.evaluate clock (fuel + 1) (.step clause hrole rest) scene).Ends
      (fun _ => program.FinishesWithin clock last count
        (start + (Body.step clause hrole rest).size) returns) last := by
  obtain ⟨hshape, hrest⟩ := hholds
  have hclause := clause?_of_shape? hshape
  have hsize : start + (Body.step clause hrole rest).size = start + 1 + rest.size := by
    rw [Body.size_step]
    omega
  have hcount : 0 < count := by
    rcases count with _ | count
    · have hlt := lt_size_of_clause? hclause
      have hle := hfinishes.1
      omega
    · omega
  rw [hsize]
  by_cases hcall : ∃ name, clause = .callSub name
  · obtain ⟨name, rfl⟩ := hcall
    obtain ⟨place, written, inner, hsub, hblock, hdirects⟩ :=
      hstructured.linked.exists_call hstructured.outline hclause
    simp only [Body.evaluate, hsub, Verdict.ends_andThen_iff]
    have hends := reflects_call ih hblock hdirects hrunning hfuel hfinishes
    exact hends.mono fun _ next _ hnext => hnext.rest ih (by omega) hfuel hrest
  · obtain ⟨statement, hstatement, hmatches, hact⟩ :=
      simple_evaluate hstructured.plain hclause hrole hcall
    rw [hact, Verdict.ends_andThen_iff]
    refine hmatches.ends ?_ (hfinishes.ends hstatement)
    intro flow _ next hflow hnext hmore
    obtain ⟨fewer, hfewer, hmore⟩ := hmore
    rw [hflow] at hmore
    exact FinishesWithin.rest ih ⟨hnext, fewer, Nat.le_refl fewer, hmore⟩ hfewer hfuel hrest

theorem reflects_block {bracket : Bracket} {inner rest : Body} {start : Nat}
    (hholds : program.Holds start ((Body.block bracket inner rest).layout start))
    (hfuel : 2 * count < fuel + 1)
    (hfinishes : program.Finishes clock last count start returns scene) :
    (outline.evaluate clock (fuel + 1) (.block bracket inner rest) scene).Ends
      (fun _ => program.FinishesWithin clock last count
        (start + (Body.block bracket inner rest).size) returns) last := by
  obtain ⟨hblock, hrest⟩ := encloses_of_holds hholds
  rw [add_size_block]
  simp only [Body.evaluate, Verdict.ends_andThen_iff]
  obtain ⟨statement, hstatement, hmatches⟩ := hblock.opener_matches
  refine hmatches.ends ?_ (hfinishes.ends hstatement)
  intro flow inside next hflow hnext hmore
  obtain ⟨fewer, hfewer, hmore⟩ := hmore
  obtain ⟨rfl, hloop⟩ := hflow
  cases inside with
  | true =>
    simp only [if_true]
    have hfuelLoop : 2 * fewer + 1 < fuel := by omega
    have hends := (ih fewer hfewer).loop hblock (hloop rfl) hnext hfuelLoop hmore
    exact hends.mono fun _ after _ hafter => hafter.rest ih hfewer hfuel hrest
  | false =>
    simp only [Bool.false_eq_true, if_false, Verdict.ends_goes_iff]
    exact FinishesWithin.rest ih ⟨hnext, fewer, Nat.le_refl fewer, hmore⟩ hfewer hfuel hrest

theorem reflects_chain {condition : Expr} {inner rest : Body} {branches : Branches} {start : Nat}
    (hholds : program.Holds start ((Body.chain condition inner branches rest).layout start))
    (hfuel : 2 * count < fuel + 1)
    (hfinishes : program.Finishes clock last count start returns scene) :
    (outline.evaluate clock (fuel + 1) (.chain condition inner branches rest) scene).Ends
      (fun _ => program.FinishesWithin clock last count
        (start + (Body.chain condition inner branches rest).size) returns) last := by
  obtain ⟨hif, hinner, hbranches, hrest⟩ := chain_of_holds hholds
  rw [add_size_chain]
  simp only [Body.evaluate, Verdict.ends_andThen_iff]
  obtain ⟨statement, hstatement, hmatches⟩ := if_matches hif hinner hbranches
  refine hmatches.ends ?_ (hfinishes.ends hstatement)
  intro flow body next hflow hnext hmore
  obtain ⟨fewer, hfewer, hmore⟩ := hmore
  obtain ⟨place, hplace, hstretch⟩ := hflow
  rw [hplace] at hmore
  have hfuelBody : 2 * fewer < fuel := by omega
  have hends := (ih fewer hfewer).body hstretch.holds hnext hfuelBody hmore
  refine hends.mono ?_
  intro _ after _ hafter
  obtain ⟨hrunning, least, hleast, hend⟩ := hafter
  obtain ⟨fewest, hfewest, hpassed⟩ := hstretch.passes.finishes hrunning hend
  exact FinishesWithin.rest ih ⟨hrunning, fewest, hfewest, hpassed⟩ (by omega) hfuel hrest

theorem reflects_body (hstructured : program.Structured outline) {body : Body} {start : Nat}
    (hholds : program.Holds start (body.layout start)) (hrunning : scene.Running)
    (hfuel : 2 * count < fuel)
    (hfinishes : program.Finishes clock last count start returns scene) :
    (outline.evaluate clock fuel body scene).Ends
      (fun _ => program.FinishesWithin clock last count (start + body.size) returns) last := by
  rcases fuel with _ | fuel
  · omega
  · cases body with
    | nil => exact .goes ⟨hrunning, count, Nat.le_refl count, hfinishes⟩
    | step clause hrole rest =>
      exact reflects_step ih hstructured hholds hrunning hfuel hfinishes
    | block bracket inner rest => exact reflects_block ih hholds hfuel hfinishes
    | chain condition inner branches rest => exact reflects_chain ih hholds hfuel hfinishes

theorem reflects_loop (hstructured : program.Structured outline) {bracket : Bracket}
    {inner : Body} {start : Nat} (hblock : program.Encloses start bracket inner)
    (hloop : bracket.isLoop = true) (hrunning : scene.Running) (hfuel : 2 * count + 1 < fuel)
    (hfinishes : program.Finishes clock last count (start + 1) returns scene) :
    (outline.repeat clock fuel bracket inner scene).Ends
      (fun _ => program.FinishesWithin clock last count (start + 1 + inner.size + 1) returns)
      last := by
  rcases fuel with _ | fuel
  · omega
  -- The first pass has the same statements before it; all that follows it has fewer.
  have hfuelBody : 2 * count < fuel := by omega
  have hends := reflects_body ih hstructured hblock.body hrunning hfuelBody hfinishes
  simp only [Body.repeat, Verdict.ends_andThen_iff]
  refine hends.mono ?_
  intro _ next _ hnext
  obtain ⟨hrunning, least, hleast, hcloser⟩ := hnext
  refine (hblock.finishes_closer hloop hrunning hcloser).mono ?_
  intro more after _ hafter
  obtain ⟨hrunning, fewer, hfewer, hmore⟩ := hafter
  cases more with
  | true =>
    have hfuelLoop : 2 * fewer + 1 < fuel := by omega
    have hends := (ih fewer (by omega)).loop hblock hloop hrunning hfuelLoop hmore
    exact hends.mono fun _ _ _ hend => hend.mono (by omega)
  | false => exact .goes ⟨hrunning, fewer, by omega, hmore⟩

end Reflects

theorem reflects (hstructured : program.Structured outline) (count : Nat) :
    program.Reflects clock outline last count := by
  induction count using Nat.strongRecOn with
  | ind count ih =>
    constructor
    case body => exact reflects_body ih hstructured
    case loop => exact reflects_loop ih hstructured

/-! ## Whole programs -/

/-- A thread that runs a plain program alone finishes it exactly if the evaluation of the outline
comes to an end, and in the same scene. -/
theorem Structured.halts_iff (hstructured : program.Structured outline)
    (hrunning : scene.Running) :
    program.Halts clock last 0 returns scene ↔
      ∃ fuel,
        (outline.evaluate clock fuel outline scene).Ends (fun _ next => next = last) last := by
  have hholds := hstructured.linked.holds outline hstructured.outline
  have hsize : 0 + outline.size = program.size := by
    rw [Nat.zero_add, Body.size, hstructured.outline]
    simp [clauses, size]
  constructor
  · rintro ⟨count, hfinishes⟩
    refine ⟨2 * count + 1, ?_⟩
    have hfuel : 2 * count < 2 * count + 1 := Nat.lt_succ_self _
    have hends := (reflects hstructured count).body hholds hrunning hfuel hfinishes
    refine hends.mono ?_
    intro _ next _ hnext
    obtain ⟨-, fewer, -, hend⟩ := hnext
    exact hend.eq_last (Nat.le_of_eq hsize.symm)
  · rintro ⟨fuel, hends⟩
    apply (realizes hstructured fuel).body hholds hrunning
    exact hends.mono fun _ next _ hnext _ => ⟨0, Nat.le_of_eq hsize.symm, hnext⟩

end Program

end SmallBasic
