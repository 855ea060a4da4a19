import SmallBasic.Expr.Basic
import SmallBasic.Token.Basic

/-!
# Clauses

A clause is what one line of source says, taken alone. Block statements take several clauses: one
that opens the block, one that closes it, and for `If` further branches between them.
-/

namespace SmallBasic

/-- What can stand on the left of an assignment. -/
inductive Place where
  | variable (name : String) (indices : List Expr)
  | field (field : Field)
deriving Repr

/-- What one line says. -/
inductive Clause where
  | assign (place : Place) (value : Expr)
  | bind (event : Event) (handler : String)
  | invoke (method : Method) (args : List Expr)
  | label (name : String)
  | goto (label : String)
  | callSub (name : String)
  | if (condition : Expr)
  | elseIf (condition : Expr)
  | else
  | endIf
  | while (condition : Expr)
  | endWhile
  | for (counter : String) (lower upper : Expr)
  | endFor
  | sub (name : String)
  | endSub
deriving Repr

namespace Clause

instance : Inhabited Clause := ⟨.endIf⟩

/-- How a clause takes part in a block. -/
inductive Role where
  /-- Not at all. -/
  | simple
  /-- It opens a block. -/
  | opens
  /-- It ends a branch and opens the next one. -/
  | continues
  /-- It closes the block. -/
  | closes
  /-- It closes the block and leads back to its start. -/
  | repeats
deriving DecidableEq, Repr

def role : Clause → Role
  | .if _ | .while _ | .for _ _ _ | .sub _ => .opens
  | .elseIf _ | .else => .continues
  | .endIf | .endSub => .closes
  | .endWhile | .endFor => .repeats
  | _ => .simple

/-- The reserved word of a clause that keeps a block open. -/
def opener? : Clause → Option Keyword
  | .if _ => some .if
  | .elseIf _ => some .elseIf
  | .else => some .else
  | .while _ => some .while
  | .for _ _ _ => some .for
  | .sub _ => some .sub
  | _ => none

end Clause

namespace Keyword

/-- The word that opens the block which an open clause belongs to. -/
def block : Keyword → Keyword
  | .elseIf | .else | .endIf => .if
  | .endWhile => .while
  | .endFor => .for
  | .endSub => .sub
  | word => word

/-- The word that closes the block which an open clause belongs to. -/
def closer (word : Keyword) : Keyword :=
  match word.block with
  | .while => .endWhile
  | .for => .endFor
  | .sub => .endSub
  | _ => .endIf

/-- The words that need an open block. -/
def needsBlock : Keyword → Bool
  | .elseIf | .else | .endIf | .endWhile | .endFor | .endSub => true
  | _ => false

end Keyword

end SmallBasic
