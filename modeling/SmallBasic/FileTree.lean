/-!
# Files and directories

A path leads through directories by their names, from the place where it is used or, if it begins
with a slash, from the root. An empty name and `.` stay where they are, and `..` goes up.

## Main definitions

* `FileError` — why there is nothing to read at the end of a path.
* `FileTree` — a file or a directory.
* `FilePlace` — a place in a tree, with the directories around it.
* `FilePlace.read` — what the file at the end of a path holds.
-/

namespace SmallBasic

/-- Why the content of a file cannot be had. -/
inductive FileError where
  | notFound
  | denied
  | notDirectory
  | isDirectory
  | nameTooLong
deriving DecidableEq, Repr

def FileError.message : FileError → String
  | .notFound => "No such file or directory (os error 2)"
  | .denied => "Permission denied (os error 13)"
  | .notDirectory => "Not a directory (os error 20)"
  | .isDirectory => "Is a directory (os error 21)"
  | .nameTooLong => "File name too long (os error 36)"

/-- A file with what it holds, or a directory with what it lists. -/
inductive FileTree where
  | file (content : ByteArray)
  | directory (entries : List (String × FileTree))

/-- What stands at a place, and the directories around it, innermost first. -/
structure FilePlace where
  here : FileTree
  around : List FileTree := []

namespace FilePlace

/-- The longest name, in bytes. -/
def maxName : Nat := 255

/-- The longest path, in bytes. -/
def maxPath : Nat := 4095

/-- The directory that a place lies in. The root lies in itself. -/
def parent (place : FilePlace) : FilePlace :=
  match place.around with
  | [] => place
  | outer :: around => ⟨outer, around⟩

/-- The outermost directory. -/
def root (place : FilePlace) : FilePlace := ⟨place.around.getLastD place.here, []⟩

/-- One step along a path. A file leads nowhere, not even to itself. -/
def step (place : FilePlace) (name : String) : Except FileError FilePlace :=
  match place.here with
  | .file _ => .error .notDirectory
  | .directory entries =>
    if name = "" ∨ name = "." then .ok place
    else if name = ".." then .ok place.parent
    else if maxName < name.utf8ByteSize then .error .nameTooLong
    else match entries.lookup name with
      | some found => .ok ⟨found, place.here :: place.around⟩
      | none => .error .notFound

/-- What the file at the end of a path holds. The length of the path is looked at first, and then
its names one after the other. -/
def read (place : FilePlace) (path : String) : Except FileError ByteArray := do
  if maxPath < path.utf8ByteSize then throw .nameTooLong
  let start := if path.toList.head? = some '/' then place.root else place
  match (← (path.splitOn "/").foldlM step start).here with
  | .file content => return content
  | .directory _ => throw .isDirectory

end FilePlace

end SmallBasic
