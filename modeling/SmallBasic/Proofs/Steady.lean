import SmallBasic.Proofs.Timeless
import SmallBasic.Proofs.Usage

/-!
# Steady programs

A steady program reads no clock, rolls no dice and binds no event. What its requests come to is
settled by what it has done so far and by the lines that it has taken. The condition is on the text
of the program, and every request that a run makes keeps to it.

## Main definitions

* `Clause.isSteady` — the condition on a clause.
* `Request.isSteady` — the same for a request.
* `Member.isSteady` — the members that are allowed.

## Main statements

* `Program.asks_execute` — a steady program makes steady requests.
-/

namespace SmallBasic

/-! ## The text of a program -/

mutual

/-- The expression reads no clock and calls for no random number. -/
def Expr.isSteady : Expr → Bool
  | .literal _ => true
  | .variable _ indices => Expr.areSteady indices
  | .field (.clock _) => false
  | .field _ => true
  | .binary _ left right => left.isSteady && right.isSteady
  | .call method args => method != .math .getRandomNumber && Expr.areSteady args

/-- All of the expressions are steady. -/
def Expr.areSteady : List Expr → Bool
  | [] => true
  | e :: es => e.isSteady && Expr.areSteady es

end

/-- The place has steady indices. -/
def Place.isSteady : Place → Bool
  | .variable _ indices => Expr.areSteady indices
  | .field _ => true

/-- The clause reads no clock, calls for no random number and binds no event. -/
def Clause.isSteady : Clause → Bool
  | .assign place value => place.isSteady && value.isSteady
  | .bind _ _ => false
  | .invoke method args => method != .math .getRandomNumber && Expr.areSteady args
  | .if condition | .elseIf condition | .while condition => condition.isSteady
  | .for _ lower upper => lower.isSteady && upper.isSteady
  | .label _ | .goto _ | .callSub _ | .else | .endIf | .endWhile | .endFor | .sub _ | .endSub =>
    true

/-- All clauses of the program are steady. -/
def Program.Steady (program : Program) : Prop :=
  ∀ clause ∈ program.clauses, clause.isSteady = true

/-! ## Requests -/

/-- The request asks neither for the time nor for a random number, and binds no event. -/
def Request.isSteady : Request → Bool
  | .readField (.clock _) | .bindEvent _ _ | .call (.math .getRandomNumber) _ => false
  | _ => true

theorem Request.isClock_of_isSteady {r : Request} (hsteady : r.isSteady = true) :
    r.isClock = false := by
  unfold isClock
  split
  · cases hsteady
  · rfl

/-! ## Members -/

/-- The member is neither the clock, nor the dice, nor an event. -/
def Member.isSteady : Member → Bool
  | .field (.clock _) | .method (.math .getRandomNumber) | .event _ => false
  | _ => true

theorem Member.isSteady_method (method : Method) :
    Member.isSteady (.method method) = (method != .math .getRandomNumber) := by
  cases method with
  | math m => cases m <;> rfl
  | _ => rfl

theorem Request.usesOnly_isSteady (r : Request) : r.usesOnly Member.isSteady = r.isSteady := by
  cases r with
  | call method args =>
    cases method with
    | math m => cases m <;> rfl
    | _ => rfl
  | readField f => cases f <;> rfl
  | _ => rfl

mutual

theorem Expr.usesOnly_isSteady : (e : Expr) → e.usesOnly Member.isSteady = e.isSteady
  | .literal _ => rfl
  | .variable _ indices => Expr.useOnly_isSteady indices
  | .field f => by cases f <;> rfl
  | .binary _ left right => by
    rw [usesOnly, left.usesOnly_isSteady, right.usesOnly_isSteady, isSteady]
  | .call method args => by
    rw [usesOnly, Member.isSteady_method, Expr.useOnly_isSteady args, isSteady]

theorem Expr.useOnly_isSteady : (es : List Expr) →
    Expr.useOnly Member.isSteady es = Expr.areSteady es
  | [] => rfl
  | e :: es => by rw [useOnly, e.usesOnly_isSteady, Expr.useOnly_isSteady es, areSteady]

end

theorem Place.usesOnly_isSteady (place : Place) :
    place.usesOnly Member.isSteady = place.isSteady := by
  cases place with
  | «variable» name indices => exact Expr.useOnly_isSteady indices
  | field => rfl

theorem Clause.usesOnly_isSteady (clause : Clause) :
    clause.usesOnly Member.isSteady = clause.isSteady := by
  cases clause with
  | bind => rfl
  | _ => simp [usesOnly, isSteady, Place.usesOnly_isSteady, Expr.usesOnly_isSteady,
      Expr.useOnly_isSteady, Member.isSteady_method]

namespace Program

variable {program : Program} {index : Nat} {statement : Statement}

theorem Steady.usesOnly (hsteady : program.Steady) : program.UsesOnly Member.isSteady := by
  intro clause hclause
  rw [clause.usesOnly_isSteady]
  exact hsteady clause hclause

theorem Steady.of_get? (hsteady : program.Steady)
    (hstatement : program.get? index = some statement) : statement.clause.isSteady = true := by
  rw [← Clause.usesOnly_isSteady]
  exact hsteady.usesOnly.of_get? hstatement

/-- A statement of a steady program makes steady requests. -/
theorem asks_execute (hsteady : program.Steady)
    (hstatement : program.get? index = some statement) :
    (program.execute index statement).Asks (·.isSteady = true) := by
  refine (hsteady.usesOnly.asks_execute hstatement).mono fun r hr => ?_
  rwa [r.usesOnly_isSteady] at hr

end Program

end SmallBasic
