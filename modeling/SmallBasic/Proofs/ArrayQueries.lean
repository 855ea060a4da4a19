import SmallBasic.Proofs.ArrayPaths
import SmallBasic.Proofs.Counts

/-!
# Questions about arrays

What an array text answers when it is asked for its keys, for a key, or for the number of its keys
follows what is stored in it and removed from it, and the order of the keys stays. The keys of an
array, as an array, stand under the indices from one on, and under no other text. This holds for
every text, array or not.

## Main definitions

* `ArrayText.Stores`, `ArrayText.Removes` — what storing and removing change, and what they do not.
* `ArrayText.Enumerates` — an array of the keys of another.

## Main statements

* `ArrayText.decode_set`, `ArrayText.decode_remove` — what is read after storing and removing.
* `ArrayText.get?_allKeys_eq_some_iff` — what stands under an index in the array of the keys.
* `ArrayText.queries_agree` — questions agree with storing and removing.
-/

namespace SmallBasic

/-! ## Tables -/

namespace Table

variable {α : Type} {table : Table α} {key : String}

@[simp] theorem length_keys (table : Table α) : table.keys.length = table.length :=
  List.length_map _

/-- Where no key is there twice, each entry is found. -/
theorem get?_eq_some_iff (hnodup : table.keys.Nodup) {value : α} :
    table.get? key = some value ↔ (key, value) ∈ table := by
  induction table with
  | nil => exact iff_of_false nofun nofun
  | cons entry table ih =>
    obtain ⟨found, old⟩ := entry
    obtain ⟨hnew, hrest⟩ := List.nodup_cons.1 hnodup
    rw [List.mem_cons, ← ih hrest, get?, List.lookup_cons]
    by_cases hkey : key = found
    · subst hkey
      have hnone : get? table key = none := get?_eq_none_iff.2 hnew
      rw [hnone]
      simp [eq_comm]
    · simp [get?, hkey, beq_eq_false_iff_ne.2 hkey]

theorem keys_erase (table : Table α) (key : String) :
    (table.erase key).keys = table.keys.filter (· != key) := by
  rw [keys, keys, erase, List.filter_map]
  rfl

theorem nodup_keys_erase (hnodup : table.keys.Nodup) (key : String) :
    (table.erase key).keys.Nodup := by
  rw [keys_erase]
  exact hnodup.filter _

theorem mem_keys_erase {other : String} :
    other ∈ (table.erase key).keys ↔ other ≠ key ∧ other ∈ table.keys := by
  rw [keys_erase, List.mem_filter, bne_iff_ne, and_comm]

/-- Removing a key leaves what is under the others. -/
theorem get?_erase (table : Table α) (key other : String) :
    (table.erase key).get? other = if other = key then none else table.get? other := by
  induction table with
  | nil => simp [erase, get?]
  | cons entry table ih =>
    obtain ⟨found, old⟩ := entry
    simp only [erase, get?, List.filter_cons, List.lookup_cons] at ih ⊢
    by_cases hfound : found = key <;> by_cases hother : other = found <;> grind

theorem length_insert (table : Table α) (key : String) (value : α) :
    (table.insert key value).length = table.length + if table.contains key then 0 else 1 := by
  rw [← length_keys, keys_insert, ← length_keys]
  simp only [contains_iff]
  split <;> simp

theorem length_erase (hnodup : table.keys.Nodup) (key : String) :
    (table.erase key).length = table.length - if table.contains key then 1 else 0 := by
  have herase : (table.erase key).keys = table.keys.erase key := by
    rw [keys_erase, hnodup.erase_eq_filter]
  rw [← length_keys, herase, List.length_erase, length_keys]
  simp only [contains_iff]
  split <;> simp

end Table

namespace ArrayText

variable {array key other value : String}

/-! ## Storing and removing -/

theorem nodup_keys_decode (array : String) : (decode array).keys.Nodup :=
  Table.nodup_keys_ofPairs (pairs array)

theorem decode_set (array key value : String) :
    decode (set array [key] value) = (decode array).insert key value :=
  decode_set_cons array key [] value

theorem decode_remove (array key : String) :
    decode (remove array key) = (decode array).erase key :=
  decode_encode_of_nodup (Table.nodup_keys_erase (nodup_keys_decode array) key)

theorem get_singleton (array key : String) :
    get array [key] = ((decode array).get? key).getD "" :=
  get_cons array key []

theorem get_set_of_ne (hne : other ≠ key) (array value : String) :
    get (set array [key] value) [other] = get array [other] := by
  rw [get_singleton, get_singleton, decode_set, Table.get?_insert, if_neg hne]

theorem get_remove_self (array key : String) : get (remove array key) [key] = "" := by
  rw [get_singleton, decode_remove, Table.get?_erase, if_pos rfl, Option.getD_none]

theorem get_remove_of_ne (hne : other ≠ key) (array : String) :
    get (remove array key) [other] = get array [other] := by
  rw [get_singleton, get_singleton, decode_remove, Table.get?_erase, if_neg hne]

theorem containsKey_iff : containsKey array key = true ↔ key ∈ (decode array).keys :=
  Table.contains_iff

theorem isArray_iff : isArray array = true ↔ ∃ key, containsKey array key = true := by
  simp only [containsKey_iff, isArray, Bool.not_eq_true', List.isEmpty_eq_false_iff_exists_mem,
    Table.keys, List.mem_map]
  constructor
  · rintro ⟨entry, hentry⟩
    exact ⟨entry.1, entry, hentry, rfl⟩
  · rintro ⟨_, entry, hentry, -⟩
    exact ⟨entry, hentry⟩

/-! ## Enumerating -/

/-- No two places have the same decimal number. -/
theorem nodup_keys_numbered (values : List String) :
    (Table.keys (values.mapIdx fun i value => ((i + 1).repr, value))).Nodup := by
  rw [List.Nodup, List.pairwise_iff_getElem]
  intro i j hi hj hlt
  simp only [Table.keys, List.getElem_map, List.getElem_mapIdx, ne_eq, repr_injective.eq_iff]
  omega

theorem decode_allKeys (array : String) :
    decode (allKeys array) = (decode array).keys.mapIdx fun i key => ((i + 1).repr, key) :=
  decode_encode_of_nodup (nodup_keys_numbered (decode array).keys)

/-- What stands under an index in the array of the keys. -/
theorem get?_allKeys_eq_some_iff {index : String} :
    (decode (allKeys array)).get? index = some key ↔
      ∃ i, (decode array).keys[i]? = some key ∧ index = (i + 1).repr := by
  have hnodup : (decode (allKeys array)).keys.Nodup := nodup_keys_decode _
  rw [Table.get?_eq_some_iff hnodup, decode_allKeys, List.mem_mapIdx]
  constructor
  · rintro ⟨i, hi, hentry⟩
    obtain ⟨hindex, hkey⟩ := Prod.mk.inj hentry
    exact ⟨i, List.getElem?_eq_some_iff.2 ⟨hi, hkey⟩, hindex.symm⟩
  · rintro ⟨i, hkey, hindex⟩
    obtain ⟨hi, hkey⟩ := List.getElem?_eq_some_iff.1 hkey
    exact ⟨i, hi, Prod.ext hindex.symm hkey⟩

/-- Under the decimal number of a place stands the key at that place. -/
theorem get_allKeys_of_getElem? {i : Nat} (hkey : (decode array).keys[i]? = some key) :
    get (allKeys array) [(i + 1).repr] = key := by
  rw [get_singleton, get?_allKeys_eq_some_iff.2 ⟨i, hkey, rfl⟩, Option.getD_some]

/-! ## The laws -/

/-- What storing a value under a key changes in an array. -/
structure Stores (array key value changed : String) : Prop where
  /-- The keys stay in their order, and a new one comes last. -/
  keys_eq : (decode changed).keys =
    if containsKey array key then (decode array).keys else (decode array).keys ++ [key]
  value_eq : (decode changed).get? key = some value
  others_eq (other : String) (hne : other ≠ key) :
    (decode changed).get? other = (decode array).get? other
  itemCount_eq : itemCount changed = itemCount array + if containsKey array key then 0 else 1
  containsKey_iff (other : String) :
    containsKey changed other = true ↔ other = key ∨ containsKey array other = true
  isArray_eq : isArray changed = true

/-- What removing a key changes in an array. -/
structure Removes (array key changed : String) : Prop where
  /-- The other keys keep their order and their values. -/
  decode_eq : decode changed = (decode array).filter fun entry => entry.1 != key
  itemCount_eq : itemCount changed = itemCount array - if containsKey array key then 1 else 0
  containsKey_iff (other : String) :
    containsKey changed other = true ↔ other ≠ key ∧ containsKey array other = true
  isArray_iff : isArray changed = true ↔ ∃ other, other ≠ key ∧ containsKey array other = true

/-- An array that holds the keys of another one, in their order, under the indices from one on. -/
structure Enumerates (array listed : String) : Prop where
  /-- Every place among the keys has its key under its decimal number. -/
  get_eq (place : Nat) (hfirst : 1 ≤ place) (hlast : place ≤ itemCount array) :
    (decode array).keys[place - 1]? = some (get listed [place.repr])
  /-- Every other index, also another spelling of a number, has nothing. -/
  get_eq_empty (index : String)
    (hindex : ∀ place, 1 ≤ place → place ≤ itemCount array → index ≠ place.repr) :
    get listed [index] = ""
  /-- So the keys of the array are exactly those that are listed. -/
  containsKey_iff (key : String) : containsKey array key = true ↔
    ∃ place, 1 ≤ place ∧ place ≤ itemCount array ∧ get listed [place.repr] = key

theorem stores_set (array key value : String) :
    Stores array key value (set array [key] value) where
  keys_eq := by
    simp only [decode_set, Table.keys_insert, containsKey_iff]
  value_eq := by
    rw [decode_set, Table.get?_insert, if_pos rfl]
  others_eq other hne := by
    rw [decode_set, Table.get?_insert, if_neg hne]
  itemCount_eq := by
    rw [itemCount, decode_set, Table.length_insert]
    rfl
  containsKey_iff other := by
    simp only [containsKey_iff, decode_set, Table.mem_keys_insert]
  isArray_eq := by
    rw [isArray_iff]
    refine ⟨key, ?_⟩
    rw [containsKey_iff, decode_set, Table.mem_keys_insert]
    exact .inl rfl

theorem removes_remove (array key : String) : Removes array key (remove array key) where
  decode_eq := decode_remove array key
  itemCount_eq := by
    rw [itemCount, decode_remove, Table.length_erase (nodup_keys_decode array)]
    rfl
  containsKey_iff other := by
    simp only [containsKey_iff, decode_remove, Table.mem_keys_erase]
  isArray_iff := by
    simp only [isArray_iff, containsKey_iff, decode_remove, Table.mem_keys_erase]

theorem enumerates_allKeys (array : String) : Enumerates array (allKeys array) := by
  have hplace {place : Nat} (hfirst : 1 ≤ place) (hlast : place ≤ itemCount array) :
      ∃ key, (decode array).keys[place - 1]? = some key ∧
        get (allKeys array) [place.repr] = key := by
    have hbound : place - 1 < (decode array).keys.length := by
      rw [Table.length_keys]
      exact Nat.lt_of_lt_of_le (Nat.sub_lt hfirst (by decide)) hlast
    have hkey := List.getElem?_eq_getElem hbound
    have hget := get_allKeys_of_getElem? hkey
    rw [Nat.sub_add_cancel hfirst] at hget
    exact ⟨_, hkey, hget⟩
  have hcount {i : Nat} {key : String} (hkey : (decode array).keys[i]? = some key) :
      i + 1 ≤ itemCount array := by
    obtain ⟨hi, -⟩ := List.getElem?_eq_some_iff.1 hkey
    rwa [Table.length_keys] at hi
  refine ⟨?_, ?_, ?_⟩
  · intro place hfirst hlast
    obtain ⟨key, hkey, hget⟩ := hplace hfirst hlast
    rw [hget, hkey]
  · intro index hindex
    rw [get_singleton]
    cases hfound : (decode (allKeys array)).get? index with
    | none => rfl
    | some key =>
      obtain ⟨i, hkey, rfl⟩ := get?_allKeys_eq_some_iff.1 hfound
      exact absurd rfl (hindex (i + 1) (Nat.succ_pos i) (hcount hkey))
  · intro key
    rw [containsKey_iff, List.mem_iff_getElem?]
    constructor
    · rintro ⟨i, hkey⟩
      exact ⟨i + 1, Nat.succ_pos i, hcount hkey, get_allKeys_of_getElem? hkey⟩
    · rintro ⟨place, hfirst, hlast, hget⟩
      obtain ⟨found, hkey, hfound⟩ := hplace hfirst hlast
      exact ⟨place - 1, hget ▸ hfound ▸ hkey⟩

/-- For every text, array or not: its keys, their order and their number after storing and removing
are what they were, apart from the key that was stored or removed, and the array of its keys lists
them in their order. -/
theorem queries_agree (array key value : String) :
    Stores array key value (set array [key] value) ∧ Removes array key (remove array key) ∧
      Enumerates array (allKeys array) :=
  ⟨stores_set array key value, removes_remove array key, enumerates_allKeys array⟩

-- What is no entry is passed over, and a key keeps the place at which it was first seen.
example : allKeys "b=1;junk;a=2;b=3;" = "1=b;2=a;" := by decide +kernel

end ArrayText

end SmallBasic
