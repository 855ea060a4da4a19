import SmallBasic.Proofs.Precedence
import SmallBasic.Proofs.Reading

/-!
# Expressions collected in two rows

An expression can also be read into two rows, one of operands and one of operators, that are filled
from left to right and only reduced to a tree when the expression ends. The reduction asks for
operands by their index. Since every operator has been followed by an operand by then, no index is
out of range.

## Main definitions

* `Line.collect` — reads operands and operators into two rows.
* `Line.readExprWith?` — the tree of what is collected.

## Main statements

* `Line.collect_eq` — the rows that are collected are those of a chain.
* `Line.readExprWith?_eq` — every expression is reduced within range, and is the one that is read.
-/

namespace SmallBasic

namespace Chain.Parts

/-- The rows with one more operand at the end. -/
def pushOperand (parts : Parts) (operand : Expr) : Parts :=
  { parts with operands := parts.operands ++ [operand] }

/-- The rows with one more operator at the end. -/
def pushOperator (parts : Parts) (op : Operator) : Parts :=
  { parts with operators := parts.operators ++ [op] }

/-- The rows followed by those of a chain. -/
def append (parts : Parts) (chain : Chain) : Parts :=
  ⟨parts.operands ++ chain.operands, parts.operators ++ chain.operators⟩

theorem append_nil (parts : Parts) (operand : Expr) :
    parts.append ⟨operand, []⟩ = parts.pushOperand operand := by
  simp [append, pushOperand, Chain.operands, Chain.operators]

theorem append_cons (parts : Parts) (first operand : Expr) (op : Operator)
    (links : List (Operator × Expr)) :
    parts.append ⟨first, (op, operand) :: links⟩ =
      ((parts.pushOperand first).pushOperator op).append ⟨operand, links⟩ := by
  simp [append, pushOperand, pushOperator, Chain.operands, Chain.operators]

/-- Rows that are empty at first are those of the chain that is read into them. -/
theorem empty_append (chain : Chain) : append ⟨[], []⟩ chain = chain.parts := rfl

end Chain.Parts

namespace Line

variable (line : Line) (exhausted : SyntaxError.Cause)

/-- Reads operands and operators at the end of what has been collected, up to the end of the
expression. -/
def collect : (fuel : Nat) → Ending → (condition : Bool) → Chain.Parts → List Token →
    Except SyntaxError (Chain.Parts × Option Token × List Token)
  | 0, _, _, _, _ => .error (line.endError exhausted)
  | fuel + 1, ending, condition, parts, tokens => do
    let (operand, rest) ← line.readOperandWith exhausted fuel ending condition tokens
    let parts := parts.pushOperand operand
    match rest with
    | [] =>
      if .endOfLine ∈ ending then return (parts, none, [])
      else throw (line.missing (ending.map Closer.description) [])
    | token :: rest =>
      if ending.closes token.kind then return (parts, some token, rest)
      else match operatorIn? condition token.kind with
        | none => throw token.unexpected
        | some op => collect fuel ending condition (parts.pushOperator op) rest

/-- Reads an expression by way of two rows. Nothing comes of it if an index is out of range. -/
def readExprWith? (fuel : Nat) (ending : Ending) (condition : Bool) (tokens : List Token) :
    Option (Except SyntaxError (Expr × Option Token × List Token)) :=
  match line.collect exhausted fuel ending condition ⟨[], []⟩ tokens with
  | .error error => some (.error error)
  | .ok (parts, closer, rest) => parts.fold?.map fun e => .ok (e, closer, rest)

/-- What is collected is an operand and the operators with their right operands that follow it. -/
theorem collect_eq (fuel : Nat) (ending : Ending) (condition : Bool) (parts : Chain.Parts)
    (tokens : List Token) :
    line.collect exhausted (fuel + 1) ending condition parts tokens = do
      let (first, rest) ← line.readOperandWith exhausted fuel ending condition tokens
      let (links, closer, rest) ← line.readLinksWith exhausted fuel ending condition rest
      return (parts.append ⟨first, links⟩, closer, rest) := by
  induction fuel generalizing parts tokens with
  | zero => rfl
  | succ fuel ih =>
    rw [collect]
    refine Except.bind_congr rfl fun (operand, rest) _ => ?_
    cases rest with
    | nil =>
      by_cases hline : .endOfLine ∈ ending
      · simp only [readLinksWith, hline, if_true, ← Chain.Parts.append_nil]
        rfl
      · simp only [readLinksWith, hline, if_false]
        rfl
    | cons token rest =>
      by_cases hcloses : ending.closes token.kind = true
      · simp only [readLinksWith, hcloses, if_true, ← Chain.Parts.append_nil]
        rfl
      · cases hop : operatorIn? condition token.kind with
        | none =>
          simp only [readLinksWith, hcloses, hop]
          rfl
        | some op =>
          simp only [readLinksWith, hcloses, hop, ih]
          simp [Chain.Parts.append_cons]

/-- An expression is reduced within range, and is the one that is read. -/
theorem readExprWith?_eq (fuel : Nat) (ending : Ending) (condition : Bool) (tokens : List Token) :
    line.readExprWith? exhausted fuel ending condition tokens =
      some (line.readExprWith exhausted fuel ending condition tokens) := by
  cases fuel with
  | zero => rfl
  | succ fuel =>
    rw [readExprWith?, collect_eq, readExprWith]
    cases line.readOperandWith exhausted fuel ending condition tokens with
    | error error => rfl
    | ok read =>
      obtain ⟨first, rest⟩ := read
      cases hlinks : line.readLinksWith exhausted fuel ending condition rest with
      | error error => simp [hlinks, bind, Except.bind]
      | ok read =>
        simp [hlinks, bind, Except.bind, pure, Except.pure, Chain.Parts.empty_append,
          Chain.Parts.fold?_parts]

end Line

end SmallBasic
