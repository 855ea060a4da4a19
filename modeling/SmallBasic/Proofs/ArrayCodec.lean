import Mathlib.Data.List.Induction
import SmallBasic.ArrayText

/-!
# Writing and reading arrays

Reading an array text back gives the pairs that were written, whatever marks their keys and values
contain: the scanner is between two pairs again exactly where the writer is. What follows in the
text is read as if it stood alone, and then stored over what was there before.

## Main definitions

* `Table.insertAll` — pairs stored one after the other.

## Main statements

* `Table.insertAll_ofPairs` — storing pairs, or the table of these pairs, makes no difference.
* `ArrayText.pairs_encode_append` — the pairs of a text that begins with a written array.
* `ArrayText.decode_encode_roundTrip` — the laws of writing and reading.
-/

namespace SmallBasic

/-! ## Tables -/

namespace Table

variable {α : Type} {table : Table α} {key : String}

/-- Stores pairs one after the other. -/
def insertAll (table : Table α) (pairs : List (String × α)) : Table α :=
  pairs.foldl (fun table pair => table.insert pair.1 pair.2) table

@[simp] theorem insertAll_nil (table : Table α) : table.insertAll [] = table := rfl

@[simp] theorem insertAll_cons (table : Table α) (pair : String × α) (pairs : List (String × α)) :
    table.insertAll (pair :: pairs) = (table.insert pair.1 pair.2).insertAll pairs := rfl

theorem insertAll_append (table : Table α) (pairs more : List (String × α)) :
    table.insertAll (pairs ++ more) = (table.insertAll pairs).insertAll more := List.foldl_append

theorem ofPairs_eq_insertAll (pairs : List (String × α)) : ofPairs pairs = insertAll [] pairs :=
  ofPairs_eq_foldl pairs

theorem contains_iff : table.contains key = true ↔ key ∈ table.keys := by
  simp [contains, keys]

/-! ### Keys -/

@[simp] theorem keys_cons (entry : String × α) (table : Table α) :
    keys (entry :: table) = entry.1 :: table.keys := rfl

theorem keys_replace (table : Table α) (key : String) (value : α) :
    (table.replace key value).keys = table.keys := by
  induction table with
  | nil => rfl
  | cons entry table ih =>
    simp only [replace, List.map_cons, keys_cons] at ih ⊢
    grind

theorem insert_of_mem (hkey : key ∈ table.keys) (value : α) :
    table.insert key value = table.replace key value := by
  rw [insert, if_pos (contains_iff.2 hkey)]

theorem insert_of_not_mem (hkey : key ∉ table.keys) (value : α) :
    table.insert key value = table ++ [(key, value)] := by
  rw [insert, if_neg (mt contains_iff.1 hkey)]

/-- A key that is present keeps its place, and a new one comes last. -/
theorem keys_insert (table : Table α) (key : String) (value : α) :
    (table.insert key value).keys =
      if key ∈ table.keys then table.keys else table.keys ++ [key] := by
  split
  · rename_i hkey
    rw [insert_of_mem hkey, keys_replace]
  · rename_i hkey
    rw [insert_of_not_mem hkey]
    simp [keys]

theorem mem_keys_insert {other : String} {value : α} :
    other ∈ (table.insert key value).keys ↔ other = key ∨ other ∈ table.keys := by
  rw [keys_insert]
  grind

theorem nodup_keys_insert (hnodup : table.keys.Nodup) (key : String) (value : α) :
    (table.insert key value).keys.Nodup := by
  rw [keys_insert]
  grind

theorem nodup_keys_insertAll (hnodup : table.keys.Nodup) (pairs : List (String × α)) :
    (table.insertAll pairs).keys.Nodup := by
  induction pairs generalizing table with
  | nil => exact hnodup
  | cons pair pairs ih => exact ih (nodup_keys_insert hnodup pair.1 pair.2)

theorem nodup_keys_ofPairs (pairs : List (String × α)) : (ofPairs pairs).keys.Nodup := by
  rw [ofPairs_eq_insertAll]
  exact nodup_keys_insertAll (show (keys ([] : Table α)).Nodup from List.nodup_nil) pairs

/-! ### Storing again -/

theorem replace_of_not_mem (hkey : key ∉ table.keys) (value : α) :
    table.replace key value = table := by
  induction table with
  | nil => rfl
  | cons entry table ih =>
    simp only [keys_cons, List.mem_cons, not_or] at hkey
    simp only [replace, List.map_cons] at ih ⊢
    rw [ih hkey.2, if_neg (Ne.symm hkey.1)]

theorem replace_replace (table : Table α) (key : String) (value last : α) :
    (table.replace key value).replace key last = table.replace key last := by
  simp only [replace, List.map_map]
  refine List.map_congr_left fun entry _ => ?_
  grind

theorem replace_comm {other : String} (hne : other ≠ key) (table : Table α) (value last : α) :
    (table.replace other last).replace key value =
      (table.replace key value).replace other last := by
  simp only [replace, List.map_map]
  refine List.map_congr_left fun entry _ => ?_
  grind

/-- Of two values for one key, the last one stays. -/
theorem insert_insert (table : Table α) (key : String) (value last : α) :
    (table.insert key value).insert key last = table.insert key last := by
  have hkey : key ∈ (table.insert key value).keys := mem_keys_insert.2 (.inl rfl)
  rw [insert_of_mem hkey]
  by_cases hold : key ∈ table.keys
  · rw [insert_of_mem hold, insert_of_mem hold, replace_replace]
  · have hsame := replace_of_not_mem hold last
    rw [insert_of_not_mem hold, insert_of_not_mem hold]
    simp only [replace, List.map_append, List.map_cons, List.map_nil, if_true] at hsame ⊢
    rw [hsame]

/-- A key that is present can be given its value before or after another key. -/
theorem insert_comm {other : String} (hne : other ≠ key) (hkey : key ∈ table.keys)
    (value last : α) :
    (table.insert other last).insert key value = (table.insert key value).insert other last := by
  have hlater : key ∈ (table.insert other last).keys := mem_keys_insert.2 (.inr hkey)
  rw [insert_of_mem hlater, insert_of_mem hkey]
  by_cases hother : other ∈ table.keys
  · have hkept : other ∈ (table.replace key value).keys := by rwa [keys_replace]
    rw [insert_of_mem hother, insert_of_mem hkept, replace_comm hne]
  · have hkept : other ∉ (table.replace key value).keys := by rwa [keys_replace]
    rw [insert_of_not_mem hother, insert_of_not_mem hkept]
    simp [replace, hne]

theorem insertAll_insert {pairs : List (String × α)} (hkey : key ∈ table.keys)
    (hpairs : key ∉ keys pairs) (value : α) :
    (table.insert key value).insertAll pairs = (table.insertAll pairs).insert key value := by
  induction pairs generalizing table with
  | nil => rfl
  | cons pair pairs ih =>
    simp only [keys_cons, List.mem_cons, not_or] at hpairs
    have hlater : key ∈ (table.insert pair.1 pair.2).keys := mem_keys_insert.2 (.inr hkey)
    rw [insertAll_cons, insertAll_cons, ← insert_comm (Ne.symm hpairs.1) hkey, ih hlater hpairs.2]

/-- Replacing a value in what is stored is storing the new value afterwards. -/
theorem insertAll_replace {pairs : Table α} (hnodup : pairs.keys.Nodup) (hkey : key ∈ pairs.keys)
    (table : Table α) (value : α) :
    table.insertAll (pairs.replace key value) = (table.insertAll pairs).insert key value := by
  induction pairs generalizing table with
  | nil => simp [keys] at hkey
  | cons pair pairs ih =>
    obtain ⟨found, old⟩ := pair
    obtain ⟨hnew, hrest⟩ := List.nodup_cons.1 hnodup
    by_cases hfound : found = key
    · subst hfound
      have hpresent : found ∈ (table.insert found old).keys := mem_keys_insert.2 (.inl rfl)
      have hreplace : Table.replace ((found, old) :: pairs) found value =
          (found, value) :: pairs := by
        have hsame := replace_of_not_mem hnew value
        simp only [replace] at hsame
        simp [replace, hsame]
      rw [hreplace, insertAll_cons, insertAll_cons, ← insertAll_insert hpresent hnew,
        insert_insert]
    · have hreplace : Table.replace ((found, old) :: pairs) key value =
          (found, old) :: replace pairs key value := by
        simp [replace, hfound]
      have hkey : key ∈ keys pairs := by
        rcases List.mem_cons.1 hkey with hsame | hkey
        · exact absurd hsame.symm hfound
        · exact hkey
      rw [hreplace, insertAll_cons, insertAll_cons, ih hrest hkey]

/-- Storing pairs, or the table of these pairs, makes no difference. -/
theorem insertAll_ofPairs (table : Table α) (pairs : List (String × α)) :
    table.insertAll (ofPairs pairs) = table.insertAll pairs := by
  induction pairs using List.reverseRecOn with
  | nil => rfl
  | append_singleton pairs pair ih =>
    have hpairs : ofPairs (pairs ++ [pair]) = (ofPairs pairs).insert pair.1 pair.2 := by
      simp only [ofPairs_eq_insertAll, insertAll_append, insertAll_cons, insertAll_nil]
    rw [hpairs, insertAll_append, ← ih, insertAll_cons, insertAll_nil]
    by_cases hkey : pair.1 ∈ (ofPairs pairs).keys
    · rw [insert_of_mem hkey, insertAll_replace (nodup_keys_ofPairs pairs) hkey]
    · rw [insert_of_not_mem hkey, insertAll_append, insertAll_cons, insertAll_nil]

/-- Pairs with distinct keys are their own table. -/
theorem ofPairs_of_nodup {pairs : List (String × α)} (hnodup : (keys pairs).Nodup) :
    ofPairs pairs = pairs := by
  rw [ofPairs_eq_insertAll]
  suffices happend : ∀ table : Table α, (keys (table ++ pairs)).Nodup →
      table.insertAll pairs = table ++ pairs from happend [] hnodup
  clear hnodup
  induction pairs with
  | nil => simp
  | cons pair pairs ih =>
    intro table hnodup
    have hnew : pair.1 ∉ table.keys := by
      simp only [keys, List.map_append, List.map_cons] at hnodup
      intro hmem
      exact (List.nodup_append.1 hnodup).2.2 _ hmem _ List.mem_cons_self rfl
    have hsplit : table ++ pair :: pairs = (table ++ [pair]) ++ pairs := by simp
    rw [insertAll_cons, insert_of_not_mem hnew, hsplit]
    exact ih (table ++ [pair]) (hsplit ▸ hnodup)

end Table

/-! ## Array texts -/

namespace ArrayText

variable {key? : Option String} {part rest : List Char}

theorem pairsFrom_escaped (c : Char) :
    pairsFrom key? part ('\\' :: c :: rest) = pairsFrom key? (c :: part) rest := by
  rw [pairsFrom]

/-- A character that is no mark stands for itself. -/
theorem pairsFrom_plain {c : Char} (hmark : isMark c = false) :
    pairsFrom key? part (c :: rest) = pairsFrom key? (c :: part) rest := by
  simp only [isMark, Bool.or_eq_false_iff, beq_eq_false_iff_ne, ne_eq] at hmark
  obtain ⟨⟨hslash, hequals⟩, hsemicolon⟩ := hmark
  cases key? <;> rw [pairsFrom] <;> simp_all

theorem pairsFrom_equals :
    pairsFrom none part ('=' :: rest) =
      pairsFrom (some (String.ofList part.reverse)) [] rest := by
  rw [pairsFrom] <;> simp

theorem pairsFrom_semicolon (key : String) :
    pairsFrom (some key) part (';' :: rest) =
      (key, String.ofList part.reverse) :: pairsFrom none [] rest := by
  rw [pairsFrom] <;> simp

/-- The scanner takes in an escaped text as a whole. -/
theorem pairsFrom_escape (text : List Char) :
    pairsFrom key? part (escape text ++ rest) = pairsFrom key? (text.reverse ++ part) rest := by
  induction text generalizing part with
  | nil => rfl
  | cons c text ih =>
    rw [List.reverse_cons, List.append_assoc, List.singleton_append, ← ih, escape]
    split
    · exact pairsFrom_escaped c
    · rename_i hmark
      exact pairsFrom_plain (Bool.eq_false_iff.2 hmark)

/-- After a written pair the scanner starts anew. -/
theorem pairsFrom_encodePair (pair : String × String) :
    pairsFrom none [] (encodePair pair ++ rest) = pair :: pairsFrom none [] rest := by
  simp only [encodePair, List.append_assoc, List.cons_append, List.nil_append]
  rw [pairsFrom_escape, pairsFrom_equals, pairsFrom_escape, pairsFrom_semicolon]
  simp

/-- A text that begins with a written array holds its pairs, and then those of what follows. -/
theorem pairs_encode_append (list : List (String × String)) (text : String) :
    pairs (encode list ++ text) = list ++ pairs text := by
  simp only [pairs, encode, String.toList_append, String.toList_ofList]
  induction list with
  | nil => rfl
  | cons pair list ih =>
    rw [List.flatMap_cons, List.append_assoc, pairsFrom_encodePair, ih, List.cons_append]

theorem pairs_encode (list : List (String × String)) : pairs (encode list) = list := by
  have hpairs := pairs_encode_append list ""
  simpa [pairs, pairsFrom] using hpairs

theorem decode_encode (list : List (String × String)) :
    decode (encode list) = Table.ofPairs list := by
  rw [decode, pairs_encode]

theorem decode_encode_append (list : List (String × String)) (text : String) :
    decode (encode list ++ text) = (Table.insertAll [] list).insertAll (decode text) := by
  rw [decode, decode, pairs_encode_append, Table.insertAll_ofPairs, Table.ofPairs_eq_insertAll,
    Table.insertAll_append]

/-- The laws of writing and reading arrays. Reading a written array with a text after it stores the
pairs of the array, and then those of the text. So distinct keys come back as they were, a text
without a complete pair does not count, no key is read twice, what was read and is written again is
read as before, and no two lists of pairs are written alike. -/
theorem decode_encode_roundTrip :
    (∀ (list : List (String × String)) (text : String),
        decode (encode list ++ text) = (Table.insertAll [] list).insertAll (decode text)) ∧
      (∀ list : List (String × String), (Table.keys list).Nodup → decode (encode list) = list) ∧
      (∀ (list : List (String × String)) (text : String), pairs text = [] →
        decode (encode list ++ text) = decode (encode list)) ∧
      (∀ text : String, (decode text).keys.Nodup) ∧
      (∀ text : String, decode (encode (decode text)) = decode text) ∧
      Function.Injective encode := by
  have hnodup : ∀ text : String, (decode text).keys.Nodup :=
    fun text => Table.nodup_keys_ofPairs (pairs text)
  have hdistinct : ∀ list : List (String × String), (Table.keys list).Nodup →
      decode (encode list) = list := by
    intro list hlist
    rw [decode_encode, Table.ofPairs_of_nodup hlist]
  refine ⟨decode_encode_append, hdistinct, ?_, hnodup, ?_, ?_⟩
  · intro list text htext
    rw [decode, decode, pairs_encode_append, htext, List.append_nil, pairs_encode]
  · intro text
    exact hdistinct (decode text) (hnodup text)
  · intro list other hsame
    rw [← pairs_encode list, hsame, pairs_encode]

end ArrayText

end SmallBasic
