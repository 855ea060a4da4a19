import SmallBasic.Proofs.ArrayCodec
import SmallBasic.Proofs.Naming

/-!
# Access by a path of keys

An array of arrays is one text, which is read, changed and written again at every level of a path.
Still it behaves like a store with one cell per path: what was stored is found again, below it as
well as above it, and nothing else is touched. This holds for every text, array or not.

## Main definitions

* `ArrayText.element` — what is under one key.
* `ArrayText.Diverge` — paths that part at a place which both have.

## Main statements

* `ArrayText.decode_set_cons` — storing along a path changes one element of the outermost level.
* `ArrayText.get_set_laws` — the laws of storing and finding along paths.
-/

namespace SmallBasic

namespace ArrayText

variable {key other : String} {path rest : List String}

/-- What is under a key. A missing key gives the empty text. -/
def element (array key : String) : String := ((decode array).get? key).getD ""

/-- The paths have different keys at a place which both have. -/
def Diverge (path other : List String) : Prop :=
  ∃ (place : Nat) (key otherKey : String),
    path[place]? = some key ∧ other[place]? = some otherKey ∧ key ≠ otherKey

/-! ## One level -/

theorem decode_encode_of_nodup {table : Table String} (hnodup : table.keys.Nodup) :
    decode (encode table) = table := by
  rw [decode_encode, Table.ofPairs_of_nodup hnodup]

theorem set_cons (array key : String) (path : List String) (value : String) :
    set array (key :: path) value =
      encode ((decode array).insert key (set (element array key) path value)) := rfl

/-- Storing along a path changes one element of the outermost level. -/
theorem decode_set_cons (array key : String) (path : List String) (value : String) :
    decode (set array (key :: path) value) =
      (decode array).insert key (set (element array key) path value) := by
  have hnodup : (decode array).keys.Nodup := Table.nodup_keys_ofPairs (pairs array)
  rw [set_cons, decode_encode_of_nodup (Table.nodup_keys_insert hnodup _ _)]

theorem element_set_self (array key : String) (path : List String) (value : String) :
    element (set array (key :: path) value) key = set (element array key) path value := by
  simp [element, decode_set_cons, Table.get?_insert]

theorem element_set_of_ne (hne : other ≠ key) (array : String) (path : List String)
    (value : String) : element (set array (key :: path) value) other = element array other := by
  simp [element, decode_set_cons, Table.get?_insert, hne]

/-! ## Paths -/

/-- The empty text has nothing under any path. -/
theorem get_empty (path : List String) : get "" path = "" := by
  cases path <;> rfl

/-- Finding goes on in the element under the first key, also where this key is missing. -/
theorem get_cons (array key : String) (path : List String) :
    get array (key :: path) = get (element array key) path := by
  rw [get, element]
  cases (decode array).get? key with
  | some value => rfl
  | none => exact (get_empty path).symm

/-- Below the path of a value, the value is found. -/
theorem get_set_append (array : String) (path rest : List String) (value : String) :
    get (set array path value) (path ++ rest) = get value rest := by
  induction path generalizing array with
  | nil => rfl
  | cons key path ih => rw [List.cons_append, get_cons, element_set_self, ih]

/-- Above the path of a value, the value is found stored. -/
theorem get_set_of_append (array : String) (path rest : List String) (value : String) :
    get (set array (path ++ rest) value) path = set (get array path) rest value := by
  induction path generalizing array with
  | nil => rfl
  | cons key path ih => rw [List.cons_append, get_cons, element_set_self, ih, get_cons]

/-- Paths that part do so at their first keys, or below a first key that they share. -/
theorem Diverge.cons {q : List String} (hdiverge : Diverge (key :: path) q) :
    ∃ head tail, q = head :: tail ∧ (head ≠ key ∨ head = key ∧ Diverge path tail) := by
  obtain ⟨place, k, l, hk, hl, hne⟩ := hdiverge
  cases q with
  | nil => simp at hl
  | cons head tail =>
    refine ⟨head, tail, rfl, ?_⟩
    by_cases hhead : head = key
    · cases place with
      | zero =>
        simp only [List.getElem?_cons_zero, Option.some.injEq] at hk hl
        exact absurd (hk.symm.trans (hhead.symm.trans hl)) hne
      | succ place => exact .inr ⟨hhead, place, k, l, by simpa using hk, by simpa using hl, hne⟩
    · exact .inl hhead

/-- Beside the path of a value, everything is as it was. -/
theorem get_set_of_diverge (array : String) {q : List String} (hdiverge : Diverge path q)
    (value : String) : get (set array path value) q = get array q := by
  induction path generalizing array q with
  | nil =>
    obtain ⟨place, k, l, hk, -, -⟩ := hdiverge
    simp at hk
  | cons key path ih =>
    obtain ⟨head, tail, rfl, hne | ⟨rfl, htail⟩⟩ := hdiverge.cons
    · rw [get_cons, element_set_of_ne hne, get_cons]
    · rw [get_cons, element_set_self, ih _ htail, get_cons]

/-- Of two values for one path, the last one stays. -/
theorem set_set (array : String) (path : List String) (value last : String) :
    set (set array path value) path last = set array path last := by
  induction path generalizing array with
  | nil => rfl
  | cons key path ih =>
    rw [set_cons (set array (key :: path) value), decode_set_cons, element_set_self, ih,
      Table.insert_insert, ← set_cons]

/-- The laws of storing and finding along paths, for every text. Below a value that was stored one
finds what the value has there, and above it what was there before with the value stored in it.
Where paths part, storing along one does not show along the other. Storing twice along the same path
is storing the last value. -/
theorem get_set_laws :
    (∀ (array : String) (path rest : List String) (value : String),
        get (set array path value) (path ++ rest) = get value rest) ∧
      (∀ (array : String) (path rest : List String) (value : String),
        get (set array (path ++ rest) value) path = set (get array path) rest value) ∧
      (∀ (array : String) (path other : List String) (value : String), Diverge path other →
        get (set array path value) other = get array other) ∧
      ∀ (array : String) (path : List String) (value last : String),
        set (set array path value) path last = set array path last :=
  ⟨get_set_append, get_set_of_append,
    fun array _ _ value hdiverge => get_set_of_diverge array hdiverge value, set_set⟩

/-- An array stored beside another value, in a text whose keys are marks. -/
theorem get_set_laws_marks :
    Diverge ["=", "x"] ["=", ";"] ∧
      get (set "\\==\\\\\\;\\=1\\;;junk" ["=", "x"] "a=b;") ["=", ";"] = "1" := by
  have hdiverge : Diverge ["=", "x"] ["=", ";"] := ⟨1, "x", ";", rfl, rfl, by decide⟩
  have hfound : get "\\==\\\\\\;\\=1\\;;junk" ["=", ";"] = "1" := by decide +kernel
  exact ⟨hdiverge, (get_set_laws.2.2.1 _ _ _ _ hdiverge).trans hfound⟩

end ArrayText

end SmallBasic
