import SmallBasic.Value

/-!
# Operators

The twelve binary operators, what they do to texts, and the order in which they bind.

## Main definitions

* `Operator.apply` — the value of an operator at two texts.
* `Operator.precedence` — tightest first. No two operators share a level: `+` binds before `-`.
-/

namespace SmallBasic

/-- A binary operator: four of arithmetic, and eight whose value is a truth value. -/
inductive Operator where
  | add | sub | mul | div
  | equal | notEqual | less | lessEqual | greater | greaterEqual
  | and | or
deriving DecidableEq, Repr

namespace Operator

/-- The operators whose value is a truth value. They are allowed in conditions only. -/
def isComparator : Operator → Bool
  | .add | .sub | .mul | .div => false
  | _ => true

/-- Folding order: each operator is folded completely before the next one. -/
def precedence : List Operator :=
  [.mul, .div, .add, .sub, .less, .lessEqual, .equal, .greaterEqual, .greater, .notEqual, .and, .or]

/-- Addition of two numbers, or concatenation when one side is not a number. -/
def addition (left right : String) : String :=
  match Number.ofText? left, Number.ofText? right with
  | some a, some b => (a.add b).toText
  | _, _ => left ++ right

/-- Division, in which division by zero gives zero. -/
def division (left right : String) : String :=
  if (Number.ofText right).isZero then "0"
  else ((Number.ofText left).div (Number.ofText right)).toText

/-- The value of an operator. Equality is equality of texts, and order is order of numbers. -/
def apply (op : Operator) (left right : String) : String :=
  match op with
  | .add => addition left right
  | .sub => ((Number.ofText left).sub (Number.ofText right)).toText
  | .mul => ((Number.ofText left).mul (Number.ofText right)).toText
  | .div => division left right
  | .equal => truthText (left == right)
  | .notEqual => truthText (left != right)
  | .less => truthText ((Number.ofText left).lt (Number.ofText right))
  | .lessEqual => truthText ((Number.ofText left).le (Number.ofText right))
  | .greater => truthText ((Number.ofText right).lt (Number.ofText left))
  | .greaterEqual => truthText ((Number.ofText right).le (Number.ofText left))
  | .and => truthText (isTrue left && isTrue right)
  | .or => truthText (isTrue left || isTrue right)

end Operator

end SmallBasic
