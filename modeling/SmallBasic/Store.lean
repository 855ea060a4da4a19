import SmallBasic.Table
import SmallBasic.Text.Case

/-!
# The variables of a program

All threads share one store. A name stands for the same variable in every case, and a variable
that was never set holds the empty text.
-/

namespace SmallBasic

/-- The variables that were set, under their folded names. -/
structure Store where
  cells : Table String := []
deriving DecidableEq, Repr

namespace Store

/-- The value of a variable. -/
def get (store : Store) (name : String) : String := (store.cells.get? (foldCase name)).getD ""

/-- The store after setting a variable. -/
def set (store : Store) (name value : String) : Store :=
  ⟨store.cells.insert (foldCase name) value⟩

/-- Whether a variable was ever set. -/
def contains (store : Store) (name : String) : Bool := store.cells.contains (foldCase name)

/-- The number of variables that were set. -/
def size (store : Store) : Nat := store.cells.length

end Store

end SmallBasic
