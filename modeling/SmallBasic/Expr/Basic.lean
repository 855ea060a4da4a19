import SmallBasic.Catalogue.Basic
import SmallBasic.Operator

/-!
# Expressions

The trees that expressions are read into, and how a flat sequence of operands and operators becomes
a tree.

## Main definitions

* `Expr` — literals, variables with indices, fields, operators and calls.
* `Chain` — operands with operators between them, as they stand in the source.
* `Chain.fold` — the tree of a chain: operators are grouped in order of precedence, leftmost first.
-/

namespace SmallBasic

/-- An expression. A literal is kept as text, since every value is a text. -/
inductive Expr where
  | literal (text : String)
  | variable (name : String) (indices : List Expr)
  | field (field : Field)
  | binary (op : Operator) (left right : Expr)
  | call (method : Method) (args : List Expr)
deriving Repr, Inhabited

/-- A first operand, and further operands each preceded by an operator. -/
structure Chain where
  first : Expr
  links : List (Operator × Expr)
deriving Repr

namespace Chain

/-- Groups every occurrence of `op` among the links that follow the operand `left`, from left to
right. The operand that stands first afterwards is returned with the links that remain. -/
def groupFrom (op : Operator) (left : Expr) : List (Operator × Expr) → Chain
  | [] => ⟨left, []⟩
  | (o, right) :: links =>
    if o = op then groupFrom op (.binary op left right) links
    else
      let rest := groupFrom op right links
      ⟨left, (o, rest.first) :: rest.links⟩

/-- The chain with every occurrence of `op` grouped. -/
def group (chain : Chain) (op : Operator) : Chain := groupFrom op chain.first chain.links

/-- The tree of a chain. Once every operator has been grouped, only the first operand is left. -/
def fold (chain : Chain) : Expr := (Operator.precedence.foldl group chain).first

end Chain

end SmallBasic
