/-!
# Ordered tables

A table holds a value per key and remembers the order in which the keys first appeared. Storing a
value under a key that is present replaces the value and keeps the place.
-/

namespace SmallBasic

/-- Keys with their values, in order of first appearance. -/
abbrev Table (α : Type) := List (String × α)

namespace Table

variable {α : Type}

/-- The value under a key. -/
def get? (table : Table α) (key : String) : Option α := table.lookup key

/-- Whether a key is present. -/
def contains (table : Table α) (key : String) : Bool := table.any (·.1 == key)

/-- Replaces the value under a key that is present. -/
def replace (table : Table α) (key : String) (value : α) : Table α :=
  table.map fun entry => if entry.1 = key then (key, value) else entry

/-- Stores a value: in place if the key is present, at the end otherwise. -/
def insert (table : Table α) (key : String) (value : α) : Table α :=
  if table.contains key then table.replace key value else table ++ [(key, value)]

/-- The table without a key. -/
def erase (table : Table α) (key : String) : Table α := table.filter (·.1 != key)

/-- The keys, in order. -/
def keys (table : Table α) : List String := table.map (·.1)

/-- Stores a pair in a table that is kept in reverse, so that a new key goes to the front. -/
def push (reversed : Table α) (pair : String × α) : Table α :=
  if reversed.contains pair.1 then reversed.replace pair.1 pair.2 else pair :: reversed

/-- Stores pairs one after the other; the last value of a key wins, its first place stays. -/
def ofPairs (pairs : List (String × α)) : Table α := (pairs.foldl push []).reverse

theorem contains_reverse (table : Table α) (key : String) :
    contains table.reverse key = table.contains key := by
  simp [contains]

theorem reverse_push (reversed : Table α) (pair : String × α) :
    (reversed.push pair).reverse = insert reversed.reverse pair.1 pair.2 := by
  unfold push insert
  rw [contains_reverse]
  split
  · simp [replace]
  · simp

/-- Storing pairs is inserting them in order. -/
theorem ofPairs_eq_foldl (pairs : List (String × α)) :
    ofPairs pairs = pairs.foldl (fun table pair => insert table pair.1 pair.2) [] := by
  have reverse_foldl (reversed : Table α) :
      (pairs.foldl push reversed).reverse =
        pairs.foldl (fun table pair => insert table pair.1 pair.2) reversed.reverse := by
    induction pairs generalizing reversed with
    | nil => rfl
    | cons pair pairs ih => rw [List.foldl_cons, List.foldl_cons, ih, reverse_push]
  exact reverse_foldl []

end Table

end SmallBasic
