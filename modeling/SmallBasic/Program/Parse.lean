import SmallBasic.Program.Draft

/-!
# From source to program

Once all lines are read, the names of labels and subroutines are collected and every reference to
one is linked. References may come before what they refer to. A source with any error is refused
with all its errors, in order of their places.

## Main definitions

* `Names` — the labels and subroutines of a draft.
* `Names.resolve` — links a reference.
* `Program.parse` — the program of a source, or its errors.
-/

namespace SmallBasic

/-- The places of labels and of the bodies of subroutines, under their folded names. -/
structure Names where
  labels : Table Nat := []
  subs : Table Nat := []
deriving Repr

namespace Names

/-- Collects the name that the statement at an index declares. A name that is declared again is an
error, and stands for its last place. -/
def declare (names : Names) (index : Nat) (statement : Statement) : Names × List SyntaxError :=
  match statement.clause with
  | .label name =>
    ({ names with labels := names.labels.insert (foldCase name) index },
      if names.labels.contains (foldCase name) then
        [⟨statement.line, 0, .duplicateLabel name⟩] else [])
  | .sub name =>
    ({ names with subs := names.subs.insert (foldCase name) (index + 1) },
      if names.subs.contains (foldCase name) then
        [⟨statement.line, 0, .duplicateSub name⟩] else [])
  | _ => (names, [])

/-- Collects the names of statements that follow one another from an index on. -/
def collect (names : Names) (index : Nat) : List Statement → Names × List SyntaxError
  | [] => (names, [])
  | statement :: rest =>
    let (next, errors) := names.declare index statement
    let (last, more) := next.collect (index + 1) rest
    (last, errors ++ more)

/-- Links a statement to the name it refers to. -/
def resolve (names : Names) (statement : Statement) : Except SyntaxError.Cause Statement :=
  match statement.clause with
  | .goto label =>
    match names.labels.get? (foldCase label) with
    | some index => .ok { statement with link := some index }
    | none => .error (.undefinedLabel label)
  | .callSub name | .bind _ name =>
    match names.subs.get? (foldCase name) with
    | some index => .ok { statement with link := some index }
    | none => .error (.undefinedSub name)
  | .assign (.variable _ _) (.variable name []) =>
    if names.subs.contains (foldCase name) then .error (.subAssignedToVariable name)
    else .ok statement
  | _ => .ok statement

/-- Links all statements. One that cannot be linked stays as it is. -/
def resolveAll (names : Names) : List Statement → List Statement × List SyntaxError
  | [] => ([], [])
  | statement :: rest =>
    let (linked, errors) := names.resolveAll rest
    match names.resolve statement with
    | .ok resolved => (resolved :: linked, errors)
    | .error cause => (statement :: linked, ⟨statement.line, 0, cause⟩ :: errors)

end Names

/-- The program of a source text, or everything that is wrong with it. -/
def Program.parse (source : String) : Except (List SyntaxError) Program :=
  let (draft, lineErrors) := ({} : Draft).readLines 0 (lines source)
  let (names, duplicates) := ({} : Names).collect 0 draft.statements.toList
  let (statements, unresolved) := names.resolveAll draft.statements.toList
  match lineErrors ++ draft.unclosed ++ duplicates ++ unresolved with
  | [] => .ok ⟨statements.toArray, names.labels, names.subs⟩
  | errors => .error (errors.mergeSort SyntaxError.le)

end SmallBasic
