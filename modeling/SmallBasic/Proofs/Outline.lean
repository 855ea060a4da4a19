import SmallBasic.Program.Basic

/-!
# Outlines

The statements of a program are flat, and its blocks are marked by clauses that open and close them.
An outline is the same program as a tree. Reading a tree from left to right gives back the clauses,
and the place of a block in this order says where the links of its statements lead.

## Main definitions

* `Body`, `Branches` — the trees: a sequence of statements and blocks, and the rest of an `If`
  chain.
* `Body.clauses` — the clauses of a tree in order.
* `Body.layout` — the clauses with the links that the nesting of the blocks asks for.
* `Program.Holds` — a stretch of a program with given clauses and links.
-/

namespace SmallBasic

/-- What encloses a body: the two clauses of a loop or of a subroutine. -/
inductive Bracket where
  | while (condition : Expr)
  | for (counter : String) (lower upper : Expr)
  | sub (name : String)

namespace Bracket

def opener : Bracket → Clause
  | .while condition => .while condition
  | .for counter lower upper => .for counter lower upper
  | .sub name => .sub name

def closer : Bracket → Clause
  | .while _ => .endWhile
  | .for _ _ _ => .endFor
  | .sub _ => .endSub

/-- The link of the closer. A loop leads back to its start. -/
def back (bracket : Bracket) (start : Nat) : Option Nat :=
  match bracket with
  | .while _ | .for _ _ _ => some start
  | .sub _ => none

end Bracket

mutual

/-- Statements and blocks that follow one another. -/
inductive Body where
  | nil
  | step (clause : Clause) (simple : clause.role = .simple) (rest : Body)
  | block (bracket : Bracket) (inner rest : Body)
  | chain (condition : Expr) (inner : Body) (branches : Branches) (rest : Body)

/-- What follows the first branch of an `If` chain. Nothing but the end follows `Else`. -/
inductive Branches where
  | endIf
  | else (inner : Body)
  | elseIf (condition : Expr) (inner : Body) (branches : Branches)

end

mutual

/-- The clauses of a body, in order. -/
def Body.clauses : Body → List Clause
  | .nil => []
  | .step clause _ rest => clause :: rest.clauses
  | .block bracket inner rest =>
    bracket.opener :: (inner.clauses ++ bracket.closer :: rest.clauses)
  | .chain condition inner branches rest =>
    .if condition :: (inner.clauses ++ (branches.clauses ++ rest.clauses))

/-- The clauses of the rest of a chain, in order. -/
def Branches.clauses : Branches → List Clause
  | .endIf => [.endIf]
  | .else inner => .else :: (inner.clauses ++ [.endIf])
  | .elseIf condition inner branches =>
    .elseIf condition :: (inner.clauses ++ branches.clauses)

end

/-- The number of statements of a body. -/
def Body.size (body : Body) : Nat := body.clauses.length

/-- The number of statements of the rest of a chain. -/
def Branches.size (branches : Branches) : Nat := branches.clauses.length

@[simp] theorem Body.size_nil : Body.nil.size = 0 := rfl

@[simp] theorem Body.size_step (clause : Clause) (simple : clause.role = .simple) (rest : Body) :
    (Body.step clause simple rest).size = rest.size + 1 := rfl

@[simp] theorem Body.size_block (bracket : Bracket) (inner rest : Body) :
    (Body.block bracket inner rest).size = inner.size + rest.size + 2 := by
  simp only [Body.size, Body.clauses, List.length_cons, List.length_append]
  omega

@[simp] theorem Body.size_chain (condition : Expr) (inner : Body) (branches : Branches)
    (rest : Body) :
    (Body.chain condition inner branches rest).size =
      inner.size + branches.size + rest.size + 1 := by
  simp only [Body.size, Branches.size, Body.clauses, List.length_cons, List.length_append]
  omega

@[simp] theorem Branches.size_endIf : Branches.endIf.size = 1 := rfl

@[simp] theorem Branches.size_else (inner : Body) :
    (Branches.else inner).size = inner.size + 2 := by
  simp [Branches.size, Body.size, Branches.clauses]

@[simp] theorem Branches.size_elseIf (condition : Expr) (inner : Body) (branches : Branches) :
    (Branches.elseIf condition inner branches).size = inner.size + branches.size + 1 := by
  simp [Branches.size, Body.size, Branches.clauses]

/-- A clause with the link that its place in a block gives it. -/
abbrev Shape := Clause × Option Nat

mutual

/-- The clauses of a body that starts at an index, with their links. -/
def Body.layout (start : Nat) : Body → List Shape
  | .nil => []
  | .step clause _ rest => (clause, none) :: rest.layout (start + 1)
  | .block bracket inner rest =>
    let last := start + 1 + inner.size
    (bracket.opener, some last) ::
      (inner.layout (start + 1) ++ (bracket.closer, bracket.back start) :: rest.layout (last + 1))
  | .chain condition inner branches rest =>
    let next := start + 1 + inner.size
    (.if condition, some next) ::
      (inner.layout (start + 1) ++ (branches.layout next ++ rest.layout (next + branches.size)))

/-- The clauses of the rest of a chain that goes on at an index, with their links. -/
def Branches.layout (start : Nat) : Branches → List Shape
  | .endIf => [(.endIf, none)]
  | .else inner =>
    (.else, some (start + 1 + inner.size)) :: (inner.layout (start + 1) ++ [(.endIf, none)])
  | .elseIf condition inner branches =>
    let next := start + 1 + inner.size
    (.elseIf condition, some next) :: (inner.layout (start + 1) ++ branches.layout next)

end

mutual

@[simp] theorem Body.map_fst_layout (start : Nat) :
    (body : Body) → (body.layout start).map Prod.fst = body.clauses
  | .nil => rfl
  | .step clause _ rest => by simp [Body.layout, Body.clauses, rest.map_fst_layout]
  | .block bracket inner rest => by
    simp [Body.layout, Body.clauses, inner.map_fst_layout, rest.map_fst_layout]
  | .chain condition inner branches rest => by
    simp [Body.layout, Body.clauses, inner.map_fst_layout, branches.map_fst_layout,
      rest.map_fst_layout]

@[simp] theorem Branches.map_fst_layout (start : Nat) :
    (branches : Branches) → (branches.layout start).map Prod.fst = branches.clauses
  | .endIf => rfl
  | .else inner => by simp [Branches.layout, Branches.clauses, inner.map_fst_layout]
  | .elseIf condition inner branches => by
    simp [Branches.layout, Branches.clauses, inner.map_fst_layout, branches.map_fst_layout]

end

@[simp] theorem Body.length_layout (body : Body) (start : Nat) :
    (body.layout start).length = body.size := by
  rw [Body.size, ← body.map_fst_layout start, List.length_map]

@[simp] theorem Branches.length_layout (branches : Branches) (start : Nat) :
    (branches.layout start).length = branches.size := by
  rw [Branches.size, ← branches.map_fst_layout start, List.length_map]

/-- What a statement says and where its block sends it. The link of a simple clause belongs to a
name and not to a block. -/
def Statement.shape (statement : Statement) : Shape :=
  (statement.clause, if statement.clause.role = .simple then none else statement.link)

namespace Program

/-- The clauses of a program. -/
def clauses (program : Program) : List Clause := program.statements.toList.map (·.clause)

/-- The shape of the statement at an index. -/
def shape? (program : Program) (index : Nat) : Option Shape :=
  (program.get? index).map Statement.shape

/-- The statements from an index on have these shapes. -/
def Holds (program : Program) (index : Nat) : List Shape → Prop
  | [] => True
  | shape :: shapes => program.shape? index = some shape ∧ program.Holds (index + 1) shapes

variable {program : Program} {index : Nat}

@[simp] theorem holds_nil : program.Holds index [] := trivial

@[simp] theorem holds_cons {shape : Shape} {shapes : List Shape} :
    program.Holds index (shape :: shapes) ↔
      program.shape? index = some shape ∧ program.Holds (index + 1) shapes := Iff.rfl

@[simp] theorem holds_append {shapes more : List Shape} :
    program.Holds index (shapes ++ more) ↔
      program.Holds index shapes ∧ program.Holds (index + shapes.length) more := by
  induction shapes generalizing index with
  | nil => simp
  | cons shape shapes ih =>
    rw [List.cons_append, holds_cons, holds_cons, ih, List.length_cons, and_assoc,
      Nat.add_right_comm, Nat.add_assoc]

/-- A program holds its own shapes from any index on. -/
theorem holds_drop (program : Program) (index : Nat) :
    program.Holds index ((program.statements.toList.map Statement.shape).drop index) := by
  generalize hlist : (program.statements.toList.map Statement.shape).drop index = shapes
  induction shapes generalizing index with
  | nil => exact holds_nil
  | cons shape shapes ih =>
    refine ⟨?_, ih (index + 1) ?_⟩
    · have hhead := congrArg List.head? hlist
      simpa [shape?, get?, List.head?_drop] using hhead
    · rw [← List.drop_drop, hlist, List.drop_one, List.tail_cons]

theorem shape?_eq_some_iff {shape : Shape} :
    program.shape? index = some shape ↔
      ∃ statement, program.get? index = some statement ∧ statement.shape = shape := by
  simp [shape?]

end Program

end SmallBasic
