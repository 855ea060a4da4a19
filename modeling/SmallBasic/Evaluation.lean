import SmallBasic.Program.Basic
import SmallBasic.Action

/-!
# What expressions and statements do

Evaluation goes from left to right, and both operands of every operator are evaluated. A statement
ends in a direction for its thread: go on, jump, enter a subroutine, or leave one.

## Main definitions

* `Expr.eval` — the action of an expression.
* `Program.selectBranch` — finds the branch of an `If` chain to run.
* `Program.execute` — the action of a statement.
-/

namespace SmallBasic

mutual

/-- Evaluates an expression. -/
def Expr.eval : Expr → Action String
  | .literal text => return text
  | .variable name indices => do
    let keys ← Expr.evalAll indices
    return ArrayText.get (← Action.request (.readVariable name)) keys
  | .field f => Action.request (.readField f)
  | .binary op left right => do
    let left ← left.eval
    let right ← right.eval
    return op.apply left right
  | .call method args => do
    let args ← Expr.evalAll args
    Action.request (.call method args)

/-- Evaluates expressions one after the other. -/
def Expr.evalAll : List Expr → Action (List String)
  | [] => return []
  | e :: es => do
    let value ← e.eval
    let values ← Expr.evalAll es
    return value :: values

end

/-- Stores a value. An element of an array is changed in what the variable holds at that moment. -/
def Place.store (place : Place) (value : String) : Action Unit :=
  match place with
  | .variable name [] => do
    let _ ← Action.request (.writeVariable name value)
  | .variable name indices => do
    let keys ← Expr.evalAll indices
    let array ← Action.request (.readVariable name)
    let _ ← Action.request (.writeVariable name (ArrayText.set array keys value))
  | .field f => do
    let _ ← Action.request (.writeField f value)

/-- Where a thread goes after a statement. -/
inductive Flow where
  | next
  | jump (target : Nat)
  | enter (target : Nat)
  | leave
deriving DecidableEq, Repr

namespace Program

/-- The most statements that a walk along an `If` chain visits. The chains of a program that parses
lead forward, so that no walk is longer than the program. Statements that were moved can make a
chain a circle. A walk around it could go on without an end; after so many statements it is given
up, and reports a broken link. -/
def walkLimit (program : Program) : Nat := program.size + 1000000

/-- Walks along an `If` chain after a false condition, evaluating the conditions on the way. The
result is the first statement of the branch to run, or the one after the chain. At its limit the
walk reports a broken link, which only a circle of moved statements can come to. -/
def selectBranch (program : Program) : (limit index : Nat) → Action Nat
  | 0, index => .fail (.brokenLink index .if)
  | limit + 1, index =>
    match program.get? index with
    | none => .fail (.brokenLink index .if)
    | some statement =>
      match statement.clause with
      | .elseIf condition => do
        if isTrue (← condition.eval) then return index + 1
        else program.selectBranch limit (program.target statement)
      | .else | .endIf => return index + 1
      | _ => .fail (.brokenLink index .if)

/-- Walks along an `If` chain to the statement after its end. At its limit the walk reports a broken
link, also where a circle of moved statements would keep it going. -/
def skipBranches (program : Program) : (limit index : Nat) → Action Nat
  | 0, index => .fail (.brokenLink index .if)
  | limit + 1, index =>
    match program.get? index with
    | none => .fail (.brokenLink index .if)
    | some statement =>
      match statement.clause with
      | .elseIf _ | .else => program.skipBranches limit (program.target statement)
      | .endIf => return index + 1
      | _ => .fail (.brokenLink index .if)

/-- The end of a pass through a counting loop: the counter goes up by one, the bound is evaluated
again, and the loop goes on while the counter is not above it. -/
def repeatFor (program : Program) (index start : Nat) : Action Flow :=
  match (program.get? start).map Statement.clause with
  | some (.for counter _ upper) => do
    let value := Operator.addition (← Action.request (.readVariable counter)) "1"
    let _ ← Action.request (.writeVariable counter value)
    let bound ← upper.eval
    if (Number.ofText value).le (Number.ofText bound) then return .jump (start + 1)
    else return .next
  | _ => .fail (.brokenLink index .endFor)

/-- What the statement at an index does. A subroutine that is met, and not called, is passed over;
a branch header that is met has ended the branch before it. The statement after a target is counted
without a bound, as `Program.target` explains. -/
def execute (program : Program) (index : Nat) (statement : Statement) : Action Flow :=
  let target := program.target statement
  match statement.clause with
  | .label _ | .endIf => return .next
  | .assign place value => do
    place.store (← value.eval)
    return .next
  | .bind event _ => do
    let _ ← Action.request (.bindEvent event target)
    return .next
  | .invoke method args => do
    let args ← Expr.evalAll args
    let _ ← Action.request (.call method args)
    return .next
  | .goto _ => return .jump target
  | .callSub _ => return .enter target
  | .sub _ => return .jump (target + 1)
  | .endSub => return .leave
  | .if condition => do
    if isTrue (← condition.eval) then return .next
    else return .jump (← program.selectBranch program.walkLimit target)
  | .elseIf _ | .else => return .jump (← program.skipBranches program.walkLimit target)
  | .while condition => do
    if isTrue (← condition.eval) then return .next else return .jump (target + 1)
  | .endWhile => return .jump target
  | .for counter lower upper => do
    let first ← lower.eval
    let _ ← Action.request (.writeVariable counter first)
    let last ← upper.eval
    if (Number.ofText last).lt (Number.ofText first) then return .jump (target + 1)
    else return .next
  | .endFor => program.repeatFor index target

end Program

end SmallBasic
