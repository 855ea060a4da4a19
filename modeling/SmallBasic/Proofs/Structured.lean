import SmallBasic.Evaluation
import SmallBasic.Proofs.Outline
import SmallBasic.Proofs.Timeless

/-!
# Structured evaluation

An outline can be evaluated as it stands, with no jumps and no return addresses: a loop is a
recursion, a chain evaluates the branch it selects, and a call evaluates the body that it names. The
evaluation is alone with the world, so that a call which has to wait is repeated at once. The end of
the program is noticed after the statement that asks for it, or at a wait within this statement.

## Main definitions

* `Scene`, `Verdict` — a moment of an evaluation, and what comes of one.
* `Action.evaluate` — evaluates a statement.
* `Body.evaluate` — evaluates an outline.
* `Verdict.Ends` — the ways in which an evaluation comes to its last scene.

## Main statements

* `Verdict.ends_andThen_iff` — how one evaluation after another ends.
* `Action.Matches.ends` — actions that make the same requests end alike.
-/

namespace SmallBasic

/-! ## Verdicts -/

/-- A moment of an evaluation: the world, and how many times the clock has been read. -/
structure Scene where
  world : World
  readings : Nat := 0

/-- The program has not been told to end. -/
def Scene.Running (scene : Scene) : Prop := scene.world.library.ended = false

/-- What comes of an evaluation. -/
inductive Verdict (α : Type) where
  /-- It is done, and the program goes on. -/
  | goes (value : α) (scene : Scene)
  /-- The program has ended. -/
  | stops (scene : Scene)
  /-- It has not come to an end, or asks for what has no answer. -/
  | stuck

namespace Verdict

variable {α β : Type} {P Q : α → Scene → Prop} {last : Scene}

/-- One evaluation after another. -/
def andThen (verdict : Verdict α) (f : α → Scene → Verdict β) : Verdict β :=
  match verdict with
  | .goes value scene => f value scene
  | .stops scene => .stops scene
  | .stuck => .stuck

@[simp] theorem goes_andThen (value : α) (scene : Scene) (f : α → Scene → Verdict β) :
    (Verdict.goes value scene).andThen f = f value scene := rfl

/-- The evaluation comes to the last scene: the program has ended in it, or goes on to it as `P`
says. -/
inductive Ends (P : α → Scene → Prop) (last : Scene) : Verdict α → Prop
  | goes {value : α} {scene : Scene} (hgoes : P value scene) : Ends P last (.goes value scene)
  | stops : Ends P last (.stops last)

@[simp] theorem ends_goes_iff {value : α} {scene : Scene} :
    (Verdict.goes value scene).Ends P last ↔ P value scene :=
  ⟨fun hends => by cases hends; assumption, .goes⟩

@[simp] theorem ends_stops_iff {scene : Scene} :
    (Verdict.stops scene).Ends P last ↔ scene = last := by
  constructor
  · intro hends
    cases hends
    rfl
  · rintro rfl
    exact .stops

@[simp] theorem not_ends_stuck : ¬ Verdict.stuck.Ends P last := nofun

theorem Ends.mono {verdict : Verdict α} (hends : verdict.Ends P last)
    (himp : ∀ value scene, verdict = .goes value scene → P value scene → Q value scene) :
    verdict.Ends Q last := by
  cases hends with
  | goes hgoes => exact .goes (himp _ _ rfl hgoes)
  | stops => exact .stops

/-- One evaluation after another ends as the second one does. -/
@[simp] theorem ends_andThen_iff {verdict : Verdict α} {f : α → Scene → Verdict β}
    {R : β → Scene → Prop} :
    (verdict.andThen f).Ends R last ↔
      verdict.Ends (fun value scene => (f value scene).Ends R last) last := by
  cases verdict <;> simp [andThen]

end Verdict

/-! ## Statements -/

namespace Scene

/-- Repeats a call that had to wait. -/
def «repeat» (scene : Scene) (r : Request) : Verdict String :=
  match scene.world.perform true r with
  | .ok (.ready answer, world) => .goes answer { scene with world }
  | _ => .stuck

/-- Answers a request. The answers of the clock are given in advance. -/
def answer (clock : Nat → String) (scene : Scene) (r : Request) : Verdict String :=
  if r.isClock then .goes (clock scene.readings) { scene with readings := scene.readings + 1 }
  else
    match scene.world.perform false r with
    | .ok (.ready answer, world) => .goes answer { scene with world }
    | .ok (.blocked _, world) =>
      if world.library.ended then .stops { scene with world }
      else { scene with world }.repeat r
    | .error _ => .stuck

end Scene

section Statements

variable {α β : Type}

/-- Evaluates a statement. -/
def Action.evaluate (clock : Nat → String) : Action α → Scene → Verdict α
  | .done value, scene => if scene.world.library.ended then .stops scene else .goes value scene
  | .fail _, _ => .stuck
  | .ask r next, scene =>
    (scene.answer clock r).andThen fun answer scene => (next answer).evaluate clock scene

/-- Evaluates what is left of a statement after a wait. -/
def Suspension.evaluate (clock : Nat → String) (rest : Suspension α) (scene : Scene) : Verdict α :=
  (scene.repeat rest.request).andThen fun answer scene => (rest.next answer).evaluate clock scene

namespace Action

variable {clock : Nat → String} {R : α → β → Prop}

/-- The actions make the same requests and end with values that belong together. -/
inductive Matches (R : α → β → Prop) : Action α → Action β → Prop
  | done {value : α} {other : β} (hvalue : R value other) : Matches R (.done value) (.done other)
  | fail {fault : Fault} : Matches R (.fail fault) (.fail fault)
  | ask {r : Request} {next : String → Action α} {after : String → Action β}
      (hnext : ∀ answer, Matches R (next answer) (after answer)) :
      Matches R (.ask r next) (.ask r after)

theorem Matches.refl : (action : Action α) → action.Matches Eq action
  | .done _ => .done rfl
  | .fail _ => .fail
  | .ask _ next => .ask fun answer => .refl (next answer)

theorem Matches.pure {value : α} {other : β} (hvalue : R value other) :
    Matches R (Pure.pure value) (Pure.pure other) := .done hvalue

theorem Matches.symm {action : Action α} {other : Action β} (hmatches : action.Matches R other) :
    other.Matches (fun value result => R result value) action := by
  induction hmatches with
  | done hvalue => exact .done hvalue
  | fail => exact .fail
  | ask _ ih => exact .ask ih

theorem Matches.bind {γ δ : Type} {S : γ → δ → Prop} {action : Action α} {other : Action β}
    {f : α → Action γ} {g : β → Action δ} (hmatches : action.Matches R other)
    (hnext : ∀ value result, R value result → (f value).Matches S (g result)) :
    (action >>= f).Matches S (other >>= g) := by
  induction hmatches with
  | done hvalue => exact hnext _ _ hvalue
  | fail => exact .fail
  | ask _ ih => exact .ask ih

/-- The same action, gone on with in two ways. -/
theorem Matches.step {γ δ : Type} {S : γ → δ → Prop} (action : Action α) {f : α → Action γ}
    {g : α → Action δ} (hnext : ∀ value, (f value).Matches S (g value)) :
    (action >>= f).Matches S (action >>= g) :=
  (Matches.refl action).bind fun value _ hsame => hsame ▸ hnext value

/-- The value at the end may be another one. -/
theorem Matches.map {γ : Type} {S : γ → β → Prop} {action : Action α} {other : Action β}
    (f : α → γ) (hmatches : action.Matches R other)
    (hvalue : ∀ value result, R value result → S (f value) result) :
    (action >>= fun value => Pure.pure (f value)).Matches S other := by
  induction hmatches with
  | done hrelated => exact .done (hvalue _ _ hrelated)
  | fail => exact .fail
  | ask _ ih => exact .ask ih

/-- Actions that make the same requests end alike. -/
theorem Matches.ends {action : Action α} {other : Action β} (hmatches : action.Matches R other)
    {P : α → Scene → Prop} {Q : β → Scene → Prop} {scene last : Scene}
    (himp : ∀ value result next, R value result → next.Running → P value next → Q result next)
    (hends : (action.evaluate clock scene).Ends P last) :
    (other.evaluate clock scene).Ends Q last := by
  induction hmatches generalizing scene with
  | done hvalue =>
    unfold evaluate at hends ⊢
    cases hended : scene.world.library.ended with
    | true => simpa [hended] using hends
    | false =>
      simp only [hended, Bool.false_eq_true, if_false, Verdict.ends_goes_iff] at hends ⊢
      exact himp _ _ _ hvalue hended hends
  | fail => cases hends
  | ask _ ih =>
    simp only [evaluate, Verdict.ends_andThen_iff] at hends ⊢
    exact hends.mono fun answer next _ hnext => ih answer hnext

theorem evaluate_pure {scene : Scene} (hrunning : scene.Running) (value : α) :
    (Pure.pure value : Action α).evaluate clock scene = .goes value scene := by
  unfold Scene.Running at hrunning
  simp [Pure.pure, evaluate, hrunning]

end Action

end Statements

/-! ## Outlines -/

/-- Evaluates a condition. -/
def Expr.test (condition : Expr) : Action Bool := do
  return isTrue (← condition.eval)

/-- Whether a counter is above its bound. -/
def isAbove (counter bound : String) : Bool :=
  (Number.ofText bound).lt (Number.ofText counter)

/-- What a clause does that takes no part in a block and does not jump. -/
def Clause.act : Clause → Action Unit
  | .assign place value => do
    place.store (← value.eval)
  | .invoke method args => do
    let args ← Expr.evalAll args
    let _ ← Action.request (.call method args)
  | _ => return

namespace Bracket

/-- What is done before a block, and whether its body is then evaluated. A subroutine that is met is
skipped. -/
def enter : Bracket → Action Bool
  | .while condition => condition.test
  | .for counter lower upper => do
    let first ← lower.eval
    let _ ← Action.request (.writeVariable counter first)
    let bound ← upper.eval
    return !isAbove first bound
  | .sub _ => return false

/-- What is done after a pass through a loop, and whether another pass follows. -/
def again : Bracket → Action Bool
  | .while condition => condition.test
  | .for counter _ upper => do
    let value := Operator.addition (← Action.request (.readVariable counter)) "1"
    let _ ← Action.request (.writeVariable counter value)
    let bound ← upper.eval
    return !isAbove value bound
  | .sub _ => return false

/-- Whether the block is a loop. -/
def isLoop : Bracket → Bool
  | .while _ | .for _ _ _ => true
  | .sub _ => false

/-- Whether the block is the subroutine with a name. -/
def declares (name : String) : Bracket → Bool
  | .sub written => sameName written name
  | _ => false

end Bracket

/-- The branch of the rest of a chain that is to be evaluated. Where there is none, nothing is. -/
def Branches.select : Branches → Action Body
  | .endIf => return .nil
  | .else inner => return inner
  | .elseIf condition inner branches => do
    if ← condition.test then return inner else branches.select

mutual

/-- The body of the subroutine with a name. -/
def Body.sub? (name : String) : Body → Option Body
  | .nil => none
  | .step _ _ rest => rest.sub? name
  | .block bracket inner rest =>
    if bracket.declares name then some inner else (inner.sub? name).or (rest.sub? name)
  | .chain _ inner branches rest =>
    (inner.sub? name).or ((branches.sub? name).or (rest.sub? name))

/-- The body of the subroutine with a name, in the rest of a chain. -/
def Branches.sub? (name : String) : Branches → Option Body
  | .endIf => none
  | .else inner => inner.sub? name
  | .elseIf _ inner branches => (inner.sub? name).or (branches.sub? name)

end

mutual

/-- Evaluates a body of a program. The recursion goes no deeper than `fuel`. -/
def Body.evaluate (clock : Nat → String) (program : Body) :
    (fuel : Nat) → Body → Scene → Verdict Unit
  | 0, _, _ => .stuck
  | _ + 1, .nil, scene => .goes () scene
  | fuel + 1, .step clause _ rest, scene =>
    (match clause with
      | .callSub name =>
        match program.sub? name with
        | some inner => Body.evaluate clock program fuel inner scene
        | none => .stuck
      | _ => clause.act.evaluate clock scene).andThen fun _ scene =>
    Body.evaluate clock program fuel rest scene
  | fuel + 1, .block bracket inner rest, scene =>
    (bracket.enter.evaluate clock scene).andThen fun inside scene =>
    (if inside then Body.repeat clock program fuel bracket inner scene
      else .goes () scene).andThen fun _ scene =>
    Body.evaluate clock program fuel rest scene
  | fuel + 1, .chain condition inner branches rest, scene =>
    ((Branches.elseIf condition inner branches).select.evaluate clock scene).andThen
      fun branch scene =>
    (Body.evaluate clock program fuel branch scene).andThen fun _ scene =>
    Body.evaluate clock program fuel rest scene

/-- Evaluates the body of a loop until no other pass follows. -/
def Body.repeat (clock : Nat → String) (program : Body) :
    (fuel : Nat) → Bracket → Body → Scene → Verdict Unit
  | 0, _, _, _ => .stuck
  | fuel + 1, bracket, inner, scene =>
    (Body.evaluate clock program fuel inner scene).andThen fun _ scene =>
    (bracket.again.evaluate clock scene).andThen fun more scene =>
    if more then Body.repeat clock program fuel bracket inner scene else .goes () scene

end

end SmallBasic
