import SmallBasic.Library.Functions
import SmallBasic.Proofs.Counts

/-!
# Searching and slicing

A text can be searched for another one, and parts can be cut out of it. A search goes through the
bytes, but it ends at the first byte of a character, and gives the position of that. So both count
characters: a search gives the first position from which the other text can be cut out. This holds
for the positions of every text as natural numbers, and for the numbers of the language as long as
these are exact.

## Main definitions

* `SlicesAgree` — the parts of a text fit together.
* `SearchAgrees` — searching agrees with a way of cutting out parts.

## Main statements

* `occurrence?_eq_some_iff` — an occurrence is the first place where the text continues so.
* `occurrence?_utf8` — a search through the bytes finds what a search through the characters finds.
* `position_eq_iff` — a position is the first one from which the needle can be cut out.
* `subText_ofInt` — with exact numbers, the characters from a position are cut out.
* `searches_and_slices` — searching and slicing agree.
-/

namespace SmallBasic

/-! ## Occurrences -/

section Occurrences

variable {α : Type} [BEq α] [LawfulBEq α] {needle cs : List α} {place : Nat}

/-- An occurrence is the first place where the text continues with the needle. -/
theorem occurrence?_eq_some_iff :
    occurrence? needle cs = some place ↔
      needle <+: cs.drop place ∧ ∀ earlier < place, ¬needle <+: cs.drop earlier := by
  induction cs generalizing place with
  | nil =>
    simp only [occurrence?, List.drop_nil, List.prefix_nil]
    cases needle with
    | nil =>
      cases place with
      | zero => simp
      | succ place => exact iff_of_false nofun fun hfirst => hfirst.2 0 (Nat.succ_pos place) rfl
    | cons d ds => simp
  | cons c cs ih =>
    rw [occurrence?]
    by_cases hstart : needle <+: c :: cs
    · rw [if_pos (List.isPrefixOf_iff_prefix.2 hstart)]
      cases place with
      | zero => simpa using hstart
      | succ place => exact iff_of_false nofun fun hfirst => hfirst.2 0 (Nat.succ_pos place) hstart
    · rw [if_neg (mt List.isPrefixOf_iff_prefix.1 hstart)]
      cases place with
      | zero => simpa using hstart
      | succ place =>
        rw [Option.map_eq_some_iff]
        simp only [Nat.add_right_cancel_iff, exists_eq_right, ih, List.drop_succ_cons]
        refine and_congr_right fun _ => ⟨fun hnot earlier hlt => ?_, fun hnot earlier hlt => ?_⟩
        · cases earlier with
          | zero => exact hstart
          | succ earlier => exact hnot earlier (Nat.lt_of_succ_lt_succ hlt)
        · exact hnot (earlier + 1) (Nat.succ_lt_succ hlt)

theorem occurrence?_eq_none_iff :
    occurrence? needle cs = none ↔ ∀ place, ¬needle <+: cs.drop place := by
  classical
  constructor
  · intro hnone place hplace
    -- If the text continued so somewhere, it would do so at a first place.
    have hexists : ∃ place, needle <+: cs.drop place := ⟨place, hplace⟩
    have hsome := occurrence?_eq_some_iff.2
      ⟨Nat.find_spec hexists, fun earlier hlt => Nat.find_min hexists hlt⟩
    cases hnone.symm.trans hsome
  · intro hnot
    rw [Option.eq_none_iff_forall_ne_some]
    exact fun place hsome => hnot place (occurrence?_eq_some_iff.1 hsome).1

theorem le_length_of_occurrence? (hplace : occurrence? needle cs = some place) :
    place ≤ cs.length := by
  obtain ⟨hbegins, hfirst⟩ := occurrence?_eq_some_iff.1 hplace
  -- What continues past the end continues with nothing, as it does at the end already.
  by_contra hlong
  rw [List.drop_of_length_le (by omega), List.prefix_nil] at hbegins
  exact hfirst cs.length (by omega) (hbegins ▸ List.nil_prefix)

end Occurrences

/-! ## Bytes -/

/-- The bytes of one text begin those of another exactly if its characters do. -/
theorem utf8_prefix_iff {needle cs : List Char} : utf8 needle <+: utf8 cs ↔ needle <+: cs := by
  constructor
  · rintro ⟨more, hmore⟩
    refine List.isPrefix_of_utf8Encode_append_eq_utf8Encode more.toByteArray ?_
    have hbytes := congrArg List.toByteArray hmore
    rwa [List.toByteArray_append] at hbytes
  · rintro ⟨more, rfl⟩
    exact ⟨utf8 more, by simp [utf8]⟩

theorem length_utf8_cons (c : Char) (cs : List Char) :
    (utf8 (c :: cs)).length = c.utf8Size + (utf8 cs).length := by
  simp [utf8]

/-- Only the first byte of a character can be taken for one. -/
theorem exists_utf8_cons (c : Char) (cs : List Char) :
    ∃ first more, utf8 (c :: cs) = first :: (more ++ utf8 cs) ∧ first.IsUTF8FirstByte ∧
      ∀ b ∈ more, ¬b.IsUTF8FirstByte := by
  cases hbytes : String.utf8EncodeChar c with
  | nil => exact absurd hbytes String.utf8EncodeChar_ne_nil
  | cons first more =>
    have hfirst (index : Nat) (hindex : index < (first :: more).length) :
        (first :: more)[index].IsUTF8FirstByte ↔ index = 0 := by
      simp only [← hbytes]
      exact UInt8.isUTF8FirstByte_getElem_utf8EncodeChar
    refine ⟨first, more, by simp [utf8, hbytes], (hfirst 0 (Nat.succ_pos _)).2 rfl, ?_⟩
    intro b hb
    obtain ⟨index, hindex, rfl⟩ := List.getElem_of_mem hb
    exact mt (hfirst (index + 1) (Nat.succ_lt_succ hindex)).1 (Nat.succ_ne_zero index)

/-- What starts with the first byte of a character does not start at any other byte. -/
theorem occurrence?_append {first : UInt8} {bytes more : List UInt8}
    (hfirst : first.IsUTF8FirstByte) (hmore : ∀ b ∈ more, ¬b.IsUTF8FirstByte) (rest : List UInt8) :
    occurrence? (first :: bytes) (more ++ rest) =
      (occurrence? (first :: bytes) rest).map (· + more.length) := by
  induction more with
  | nil => simp
  | cons b more ih =>
    obtain ⟨hb, hmore⟩ := List.forall_mem_cons.1 hmore
    have hne : first ≠ b := fun heq => hb (heq ▸ hfirst)
    rw [List.cons_append, occurrence?, if_neg (by simp [hne]), ih hmore, Option.map_map]
    rfl

/-- A search through the bytes ends at the first byte of the character at which a search through the
characters ends. -/
theorem occurrence?_utf8 {needle : List Char} (hneedle : needle ≠ []) (cs : List Char) :
    occurrence? (utf8 needle) (utf8 cs) =
      (occurrence? needle cs).map fun before => (utf8 (cs.take before)).length := by
  obtain ⟨d, ds, rfl⟩ := List.exists_cons_of_ne_nil hneedle
  obtain ⟨first, more, hsought, hfirst, -⟩ := exists_utf8_cons d ds
  induction cs with
  | nil =>
    rw [hsought]
    rfl
  | cons c cs ih =>
    obtain ⟨b, bytes, htext, -, hbytes⟩ := exists_utf8_cons c cs
    have hbegins : utf8 (d :: ds) <+: utf8 (c :: cs) ↔ d :: ds <+: c :: cs := utf8_prefix_iff
    have hlength := length_utf8_cons c cs
    rw [htext] at hbegins hlength ⊢
    rw [occurrence?, occurrence?]
    by_cases hstart : d :: ds <+: c :: cs
    · rw [if_pos (List.isPrefixOf_iff_prefix.2 hstart),
        if_pos (List.isPrefixOf_iff_prefix.2 (hbegins.2 hstart))]
      rfl
    · rw [if_neg (mt List.isPrefixOf_iff_prefix.1 hstart),
        if_neg (mt (hbegins.1 ∘ List.isPrefixOf_iff_prefix.1) hstart), hsought,
        occurrence?_append hfirst hbytes, ← hsought, ih, Option.map_map, Option.map_map,
        Option.map_map]
      congr 1
      funext before
      simp only [Function.comp_apply, List.take_succ_cons, length_utf8_cons]
      simp only [List.length_cons, List.length_append] at hlength
      omega

theorem charsBefore?_length_utf8 {cs : List Char} {before : Nat} (hbefore : before ≤ cs.length) :
    charsBefore? (utf8 (cs.take before)).length cs = some before := by
  induction cs generalizing before with
  | nil =>
    obtain rfl := Nat.le_zero.1 hbefore
    rfl
  | cons c cs ih =>
    cases before with
    | zero => rfl
    | succ before =>
      have hsize := c.utf8Size_pos
      obtain ⟨size, hsize⟩ := Nat.exists_eq_add_one_of_ne_zero (Nat.ne_of_gt hsize)
      rw [List.take_succ_cons, length_utf8_cons, hsize, Nat.add_right_comm, charsBefore?,
        if_pos (by omega), hsize, show size + (utf8 (cs.take before)).length + 1 - (size + 1) =
          (utf8 (cs.take before)).length by omega, ih (Nat.le_of_succ_le_succ hbefore)]
      rfl

/-! ## Positions -/

section Positions

variable {text needle : String} {place : Nat}

/-- The needle can be cut out at a place exactly if the text continues with it there. -/
theorem slice_eq_needle_iff :
    slice text place needle.length = needle ↔ needle.toList <+: text.toList.drop (place - 1) := by
  rw [List.prefix_iff_eq_take, slice, String.length_toList, eq_comm, ← String.toList_inj,
    String.toList_ofList]

theorem length_slice_le (text : String) (start count : Nat) :
    (slice text start count).length ≤ text.length := by
  rw [slice, ← String.length_toList, ← String.length_toList, String.toList_ofList, List.length_take,
    List.length_drop]
  omega

theorem length_pos_of_ne_empty (hneedle : needle ≠ "") : 0 < needle.length :=
  Nat.pos_of_ne_zero (mt String.length_eq_zero_iff.1 hneedle)

/-- What is not empty is cut out within the text. -/
theorem le_length_of_slice_eq (hneedle : needle ≠ "") (hplace : 0 < place)
    (hslice : slice text place needle.length = needle) : place ≤ text.length := by
  have hbegins := (slice_eq_needle_iff.1 hslice).length_le
  have hpositive := length_pos_of_ne_empty hneedle
  rw [List.length_drop, String.length_toList, String.length_toList] at hbegins
  omega

theorem byteIndex?_eq (hneedle : needle ≠ "") (text : String) :
    byteIndex? text needle = (occurrence? needle.toList text.toList).map fun before =>
      (utf8 (text.toList.take before)).length :=
  occurrence?_utf8 (mt String.toList_eq_nil_iff.1 hneedle) text.toList

/-- A search through the bytes comes to the position that a search through the characters has. -/
theorem position_eq (hneedle : needle ≠ "") (text : String) :
    position text needle = ((occurrence? needle.toList text.toList).map (· + 1)).getD 0 := by
  rw [position, if_neg (by simpa using hneedle), byteIndex?_eq hneedle]
  cases hbefore : occurrence? needle.toList text.toList with
  | none => rfl
  | some before =>
    rw [Option.map_some, Option.bind_some,
      charsBefore?_length_utf8 (le_length_of_occurrence? hbefore)]
    rfl

example : byteIndex? "日本語" "語" = some 6 ∧ position "日本語" "語" = 3 := by decide

/-- The position of a text is the first place at which it can be cut out. -/
theorem position_eq_iff (hneedle : needle ≠ "") (hplace : 0 < place) :
    position text needle = place ↔ slice text place needle.length = needle ∧
      ∀ earlier, 0 < earlier → earlier < place → slice text earlier needle.length ≠ needle := by
  obtain ⟨before, rfl⟩ := Nat.exists_eq_add_one.2 hplace
  have hoccurrence : position text needle = before + 1 ↔
      occurrence? needle.toList text.toList = some before := by
    rw [position_eq hneedle]
    cases occurrence? needle.toList text.toList <;> simp
  rw [hoccurrence, occurrence?_eq_some_iff, slice_eq_needle_iff, Nat.add_sub_cancel]
  refine and_congr_right fun _ => ⟨fun hnot earlier hpos hlt => ?_, fun hnot earlier hlt => ?_⟩
  · rw [ne_eq, slice_eq_needle_iff]
    exact hnot (earlier - 1) (by omega)
  · have hearlier := hnot (earlier + 1) (Nat.succ_pos earlier) (Nat.succ_lt_succ hlt)
    rwa [ne_eq, slice_eq_needle_iff] at hearlier

theorem position_eq_zero_iff (hneedle : needle ≠ "") :
    position text needle = 0 ↔ ∀ place, 0 < place → slice text place needle.length ≠ needle := by
  have hoccurrence : position text needle = 0 ↔
      occurrence? needle.toList text.toList = none := by
    rw [position_eq hneedle]
    cases occurrence? needle.toList text.toList <;> simp
  rw [hoccurrence, occurrence?_eq_none_iff]
  constructor
  · intro hnot place hpos
    rw [ne_eq, slice_eq_needle_iff]
    exact hnot (place - 1)
  · intro hnot place
    have hplace := hnot (place + 1) (Nat.succ_pos place)
    rwa [ne_eq, slice_eq_needle_iff] at hplace

theorem hasPart_iff (hneedle : needle ≠ "") :
    hasPart text needle = true ↔ 0 < position text needle := by
  rw [hasPart, byteIndex?_eq hneedle, position_eq hneedle]
  cases occurrence? needle.toList text.toList <;> simp

theorem hasStart_iff (hneedle : needle ≠ "") :
    hasStart text needle = true ↔ position text needle = 1 := by
  rw [position_eq_iff hneedle Nat.one_pos, slice_eq_needle_iff, hasStart,
    List.isPrefixOf_iff_prefix]
  exact ⟨fun hstart => ⟨hstart, fun earlier hpos hlt => absurd hlt (by omega)⟩, And.left⟩

theorem hasEnd_iff : hasEnd text needle = true ↔ needle.length ≤ text.length ∧
    slice text (text.length - needle.length + 1) text.length = needle := by
  have hrest : (slice text (text.length - needle.length + 1) text.length).toList =
      text.toList.drop (text.toList.length - needle.toList.length) := by
    rw [slice, String.toList_ofList, Nat.add_sub_cancel, List.take_of_length_le] <;>
      simp [String.length_toList]
  rw [hasEnd, List.isSuffixOf_iff_suffix, ← String.toList_inj, hrest]
  constructor
  · intro hsuffix
    refine ⟨?_, (List.suffix_iff_eq_drop.1 hsuffix).symm⟩
    simpa only [String.length_toList] using hsuffix.length_le
  · rintro ⟨-, hdrop⟩
    exact List.suffix_iff_eq_drop.2 hdrop.symm

end Positions

/-! ## Slices -/

section Slices

variable {text : String} {start first second : Nat}

/-- Two parts that follow one another make up one part. -/
theorem slice_append (hstart : 0 < start) :
    slice text start first ++ slice text (start + first) second =
      slice text start (first + second) := by
  have hdrop : start + first - 1 = start - 1 + first := by omega
  rw [← String.toList_inj]
  simp only [slice, String.toList_append, String.toList_ofList, hdrop, ← List.drop_drop,
    List.take_add]

/-- Positions and counts that go beyond the text make no difference. -/
theorem slice_min (text : String) (start count : Nat) :
    slice text (min start (text.length + 1)) (min count text.length) = slice text start count := by
  have hdrop : text.toList.drop (min start (text.length + 1) - 1) =
      text.toList.drop (start - 1) := by
    rcases Nat.le_total start (text.length + 1) with hle | hge
    · rw [Nat.min_eq_left hle]
    · rw [Nat.min_eq_right hge, List.drop_of_length_le, List.drop_of_length_le] <;>
        rw [String.length_toList] <;> omega
  rw [slice, slice, hdrop]
  congr 1
  rw [List.take_eq_take_iff, List.length_drop, String.length_toList]
  omega

theorem length_subText_le (text : String) (start length : Number) :
    (subText text start length).length ≤ text.length := by
  unfold subText
  split
  · exact Nat.zero_le _
  · exact length_slice_le text _ _

/-- With exact numbers, so many characters from a position are cut out. -/
theorem subText_ofInt {count : Nat} (hstart : 0 < start) (hexact : Number.Exact start)
    (hcount : Number.Exact count) :
    subText text (.ofInt start) (.ofInt count) = slice text start count := by
  have hone : Number.Exact 1 := Number.exact_of_le (by decide)
  have hzero : Number.Exact 0 := Number.exact_of_le (by decide)
  have hstarts : (Number.ofInt start).truncate.lt (.ofInt 1) = false := by
    rw [Number.truncate_ofInt hexact]
    exact (Number.lt_ofInt hexact hone).trans (decide_eq_false (Nat.not_lt.2 hstart))
  have hcounts : (Number.ofInt count).truncate.lt (.ofInt 0) = false := by
    rw [Number.truncate_ofInt hcount]
    exact (Number.lt_ofInt hcount hzero).trans (decide_eq_false (Nat.not_lt_zero count))
  rw [subText, hstarts, hcounts, Number.toCount_ofInt hexact, Number.toCount_ofInt hcount,
    ← slice_min text start count]
  rfl

/-- From a position to the end, only the characters before it are left out. -/
theorem slice_length (text : String) (start : Nat) :
    slice text start text.length = String.ofList (text.toList.drop (start - 1)) := by
  rw [slice, List.take_of_length_le]
  rw [List.length_drop, String.length_toList]
  exact Nat.sub_le _ _

/-- Lengths, parts and the rest of a text fit together. -/
structure SlicesAgree (text : String) : Prop where
  /-- The length of a text counts its characters. -/
  getLength_eq : TextMethod.getLength.value? [text] = some text.length.repr
  /-- A part is asked for with the digits of its position and of its length. -/
  getSubText_eq : ∀ start count : Nat,
    TextMethod.getSubText.value? [text, start.repr, count.repr] =
      some (subText text (.ofInt start) (.ofInt count))
  /-- Two parts that follow one another make up one part. -/
  subText_append : ∀ {start first second : Nat}, 0 < start → Number.Exact start →
    Number.Exact first → Number.Exact second → Number.Exact (start + first : Nat) →
    Number.Exact (first + second : Nat) →
      subText text (.ofInt start) (.ofInt first) ++
          subText text (.ofInt (start + first : Nat)) (.ofInt second) =
        subText text (.ofInt start) (.ofInt (first + second : Nat))
  /-- The rest of a text leaves out just the characters before it. -/
  getSubTextToEnd_eq : ∀ {start : Nat}, 0 < start → Number.Exact start →
    Number.Exact text.length →
      TextMethod.getSubTextToEnd.value? [text, start.repr] =
        some (String.ofList (text.toList.drop (start - 1)))

theorem slicesAgree (text : String) : SlicesAgree text where
  getLength_eq := rfl
  getSubText_eq start count := by
    rw [TextMethod.value?, Number.ofText_repr, Number.ofText_repr]
  subText_append hpos hstart hfirst hsecond hnext hwhole := by
    rw [subText_ofInt hpos hstart hfirst, subText_ofInt (Nat.add_pos_left hpos _) hnext hsecond,
      subText_ofInt hpos hstart hwhole, slice_append hpos]
  getSubTextToEnd_eq hpos hstart hlength := by
    rw [TextMethod.value?, Number.ofText_repr, subText_ofInt hpos hstart hlength, slice_length]

end Slices

/-! ## Searching agrees with slicing -/

/-- Searching a text for a needle agrees with a way of cutting out `part place count`, so many
characters from a place, and `rest place`, everything from a place. -/
structure SearchAgrees (text needle : String) (part : Nat → Nat → String)
    (rest : Nat → String) : Prop where
  /-- The index of the needle is the first place at which it can be cut out. -/
  getIndexOf_iff : ∀ {place : Nat}, 0 < place →
    (TextMethod.getIndexOf.value? [text, needle] = some place.repr ↔
      (place ≤ text.length ∧ part place needle.length = needle) ∧
        ∀ earlier, 0 < earlier → earlier < place → part earlier needle.length ≠ needle)
  /-- The index is zero if there is no such place. -/
  getIndexOf_zero_iff : TextMethod.getIndexOf.value? [text, needle] = some "0" ↔
    ∀ place, 0 < place → place ≤ text.length → part place needle.length ≠ needle
  isSubText_iff : TextMethod.isSubText.value? [text, needle] = some "True" ↔
    ∃ place, 0 < place ∧ TextMethod.getIndexOf.value? [text, needle] = some place.repr
  startsWith_iff : TextMethod.startsWith.value? [text, needle] = some "True" ↔
    TextMethod.getIndexOf.value? [text, needle] = some "1"
  endsWith_iff : TextMethod.endsWith.value? [text, needle] = some "True" ↔
    needle.length ≤ text.length ∧ rest (text.length - needle.length + 1) = needle

section SearchAgrees

variable {text needle : String}

theorem some_truthText_iff {b : Bool} : some (truthText b) = some "True" ↔ b = true := by
  cases b <;> simp [truthText]

theorem getIndexOf_eq_iff {place : Nat} :
    TextMethod.getIndexOf.value? [text, needle] = some place.repr ↔
      position text needle = place := by
  rw [TextMethod.value?, Option.some.injEq, repr_injective.eq_iff]

/-- Searching agrees with any way of cutting out that finds the needle where slicing does. -/
theorem SearchAgrees.of_slice {part : Nat → Nat → String} {rest : Nat → String}
    (hneedle : needle ≠ "")
    (hpart : ∀ place, 0 < place → place ≤ text.length →
      (part place needle.length = needle ↔ slice text place needle.length = needle))
    (hrest : needle.length ≤ text.length →
      (rest (text.length - needle.length + 1) = needle ↔
        slice text (text.length - needle.length + 1) text.length = needle)) :
    SearchAgrees text needle part rest where
  getIndexOf_iff {place} hplace := by
    rw [getIndexOf_eq_iff, position_eq_iff hneedle hplace]
    constructor
    · rintro ⟨hslice, hfirst⟩
      have hle := le_length_of_slice_eq hneedle hplace hslice
      refine ⟨⟨hle, (hpart place hplace hle).2 hslice⟩, fun earlier hpos hlt hearlier => ?_⟩
      exact hfirst earlier hpos hlt ((hpart earlier hpos (hlt.le.trans hle)).1 hearlier)
    · rintro ⟨⟨hle, hslice⟩, hfirst⟩
      refine ⟨(hpart place hplace hle).1 hslice, fun earlier hpos hlt hearlier => ?_⟩
      exact hfirst earlier hpos hlt ((hpart earlier hpos (hlt.le.trans hle)).2 hearlier)
  getIndexOf_zero_iff := by
    rw [show "0" = Nat.repr 0 from rfl, getIndexOf_eq_iff, position_eq_zero_iff hneedle]
    constructor
    · exact fun hnot place hpos hle => mt (hpart place hpos hle).1 (hnot place hpos)
    · intro hnot place hpos hslice
      have hle := le_length_of_slice_eq hneedle hpos hslice
      exact hnot place hpos hle ((hpart place hpos hle).2 hslice)
  isSubText_iff := by
    simp only [getIndexOf_eq_iff, exists_eq_right']
    rw [TextMethod.value?, some_truthText_iff, hasPart_iff hneedle]
  startsWith_iff := by
    rw [show "1" = Nat.repr 1 from rfl, getIndexOf_eq_iff, TextMethod.value?, some_truthText_iff,
      hasStart_iff hneedle]
  endsWith_iff := by
    rw [TextMethod.value?, some_truthText_iff, hasEnd_iff]
    exact and_congr_right fun hle => (hrest hle).symm

/-- With exact numbers, a text is cut out as a needle just where slicing cuts it out. -/
theorem subText_eq_needle_iff (hlength : text.length ≤ twoTo 53) {place : Nat} (hpos : 0 < place)
    (hle : place ≤ text.length) :
    subText text (.ofInt place) (.ofInt needle.length) = needle ↔
      slice text place needle.length = needle := by
  rcases Nat.lt_or_ge text.length needle.length with hlong | hshort
  · -- Neither of them cuts out more than there is.
    have hnot : ∀ part : String, part.length ≤ text.length → part ≠ needle :=
      fun part hpart heq => absurd (heq ▸ hpart) (Nat.not_le.2 hlong)
    exact iff_of_false (hnot _ (length_subText_le text _ _)) (hnot _ (length_slice_le text _ _))
  · rw [subText_ofInt hpos (Number.exact_of_le (hle.trans hlength))
      (Number.exact_of_le (hshort.trans hlength))]

end SearchAgrees

/-- Searching and slicing agree. For positions and lengths as natural numbers this holds for every
text. A program gives them as numbers, which count exactly up to `2 ^ 53`. -/
theorem searches_and_slices (text : String) :
    (∀ needle ≠ "",
      SearchAgrees text needle (slice text) (fun start => slice text start text.length)) ∧
    (text.length ≤ twoTo 53 → ∀ needle ≠ "",
      SearchAgrees text needle (fun start count => subText text (.ofInt start) (.ofInt count))
        (fun start => (TextMethod.getSubTextToEnd.value? [text, start.repr]).getD "")) ∧
    SlicesAgree text := by
  refine ⟨fun needle hneedle => ?_, fun hlength needle hneedle => ?_, slicesAgree text⟩
  · exact .of_slice hneedle (fun _ _ _ => Iff.rfl) fun _ => Iff.rfl
  · refine .of_slice hneedle (fun _ hpos hle => subText_eq_needle_iff hlength hpos hle)
      fun hle => ?_
    have hpositive := length_pos_of_ne_empty hneedle
    have hstart : text.length - needle.length + 1 ≤ twoTo 53 := by omega
    rw [(slicesAgree text).getSubTextToEnd_eq (Nat.succ_pos _) (Number.exact_of_le hstart)
      (Number.exact_of_le hlength), slice_length, Option.getD_some]

end SmallBasic
