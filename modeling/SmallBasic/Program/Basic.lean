import SmallBasic.Clause.Basic
import SmallBasic.Table
import SmallBasic.Text.Case

/-!
# Programs

A program is a flat sequence of statements. A statement is a clause with the line it stands on and,
where control may leave it for another place, a link to that place.

What a link leads to:

* from `If`, `ElseIf` and `Else`, the next branch or the end of the chain;
* from `While`, `For` and `Sub`, the end of the block;
* from `EndWhile` and `EndFor`, the start of the block;
* from `Goto`, the label;
* from a call of a subroutine and a bound event, the first statement of the subroutine's body.
-/

namespace SmallBasic

/-- A clause in its place. -/
structure Statement where
  line : Nat
  clause : Clause
  link : Option Nat := none
deriving Repr, Inhabited

/-- Statements, with the places of the labels and of the bodies of the subroutines. -/
structure Program where
  statements : Array Statement
  labels : Table Nat
  subs : Table Nat
deriving Repr

namespace Program

def size (program : Program) : Nat := program.statements.size

/-- The statement at an index. -/
def get? (program : Program) (index : Nat) : Option Statement := program.statements[index]?

/-- The index of a label. -/
def label? (program : Program) (name : String) : Option Nat := program.labels.get? (foldCase name)

/-- The index of the first statement of a subroutine's body. -/
def sub? (program : Program) (name : String) : Option Nat := program.subs.get? (foldCase name)

/-- Where a statement leads. One without a link leads past the last statement.

In a program that parses, each statement whose clause uses a target has a link, and it keeps the
link where it is moved. So a target is the index of a statement, and the place after it needs no
bound: the largest number, which stands for a link that is not known yet while a program is parsed,
is never added to. -/
def target (program : Program) (statement : Statement) : Nat := statement.link.getD program.size

/-- The program in which the statement at one index says what the one at another says, its link
included. -/
def replace (program : Program) (index source : Nat) : Program :=
  match program.get? index, program.get? source with
  | some old, some new =>
    let moved := { new with line := old.line }
    { program with statements := program.statements.setIfInBounds index moved }
  | _, _ => program

/-- The first statements of a program, under the same names. -/
def truncate (program : Program) (size : Nat) : Program :=
  { program with statements := program.statements.take size }

end Program

end SmallBasic
