import Mathlib.Data.List.TakeDrop
import Mathlib.Data.List.TakeWhile
import SmallBasic.Proofs.Words

/-!
# Numerals

Two readers know what a number looks like. One cuts numbers out of a line, the other gives their
values while the program runs. They agree on points and on length, with or without a minus sign,
but not on digits: a number on a line may have digits of any script, and only those of ASCII have a
value. A number with other digits in it is a text to the program that has it.

## Main definitions

* `IsNumeral` — digits of any script with at most one point.
* `Decimal.neg` — the decimal with the other sign.

## Main statements

* `isNumeral_take` — the number that starts a text is a numeral.
* `Decimal.toNat_lt_of_ofChars?` — what spells a decimal is ASCII throughout.
* `IsNumeral.isSome_ofChars?` — a numeral in ASCII is read, however long it is.
* `number_reading` — the numbers of a line that can be read are those in ASCII digits.
-/

namespace SmallBasic

/-! ## The numbers of a line -/

/-- Digits of any script, at least one, with at most one point before, among or after them. -/
inductive IsNumeral : List Char → Prop
  | whole {ds : List Char} (hds : ∀ c ∈ ds, isDigit c = true) (hne : ds ≠ []) : IsNumeral ds
  | point {ds fs : List Char} (hds : ∀ c ∈ ds, isDigit c = true)
      (hfs : ∀ c ∈ fs, isDigit c = true) (hne : ds ++ fs ≠ []) : IsNumeral (ds ++ '.' :: fs)

theorem isDigit_of_mem_takeWhile {cs : List Char} : ∀ c ∈ cs.takeWhile isDigit, isDigit c = true :=
  List.all_eq_true.1 List.all_takeWhile

/-- The number that starts a text is a numeral. -/
theorem isNumeral_take {cs : List Char} (hpos : 0 < numberLength cs) :
    IsNumeral (cs.take (numberLength cs)) := by
  simp only [numberLength, drop_length_takeWhile] at hpos ⊢
  by_cases hpoint : ∃ rest, cs.dropWhile isDigit = '.' :: rest
  · obtain ⟨rest, hrest⟩ := hpoint
    simp only [hrest] at hpos ⊢
    split
    case isTrue hempty => simp [hempty] at hpos
    case isFalse hne =>
      have htake : cs.take ((cs.takeWhile isDigit).length + 1 + (rest.takeWhile isDigit).length) =
          cs.takeWhile isDigit ++ '.' :: rest.takeWhile isDigit := by
        rw [Nat.add_assoc, List.take_add, take_length_takeWhile, drop_length_takeWhile, hrest,
          Nat.add_comm 1, List.take_succ_cons, take_length_takeWhile]
      rw [htake]
      refine .point isDigit_of_mem_takeWhile isDigit_of_mem_takeWhile fun hnil => hne ?_
      simpa using hnil
  · split at hpos
    · exact absurd ⟨_, ‹_›⟩ hpoint
    · rw [take_length_takeWhile]
      exact .whole isDigit_of_mem_takeWhile (List.length_pos_iff.1 hpos)

namespace IsNumeral

variable {cs : List Char}

theorem numberLength_eq (hcs : IsNumeral cs) : numberLength cs = cs.length := by
  cases hcs with
  | whole hds hne =>
    simp [numberLength, List.takeWhile_eq_self_iff.2 hds]
  | @point ds fs hds hfs hne =>
    have hwhole : (ds ++ '.' :: fs).takeWhile isDigit = ds := takeWhile_append hds (by simp; decide)
    simp only [numberLength, hwhole, List.drop_left, List.takeWhile_eq_self_iff.2 hfs,
      List.length_eq_zero_iff]
    rw [if_neg (by simpa using hne)]
    grind

theorem isDigit_or_eq_point (hcs : IsNumeral cs) : ∀ c ∈ cs, isDigit c = true ∨ c = '.' := by
  cases hcs <;> grind

theorem ne_nil (hcs : IsNumeral cs) : cs ≠ [] := by
  cases hcs <;> simp_all

end IsNumeral

/-! ## Reading decimals -/

theorem isBlank_of_isDigit {c : Char} (hc : isDigit c = true) : isBlank c = false := by
  by_contra hblank
  have hstop := isStop_of_mem_padCodes (mem_padCodes_of_isBlank (by simpa using hblank))
  cases (isDigit_of_isStop hstop).symm.trans hc

theorem trim_of_not_blank {cs : List Char} (hcs : ∀ c ∈ cs, isBlank c = false) : trim cs = cs := by
  have hkeep : ∀ {ds : List Char}, (∀ c ∈ ds, isBlank c = false) → ds.dropWhile isBlank = ds := by
    intro ds hds
    rw [List.dropWhile_eq_self_iff]
    grind
  rw [trim, hkeep hcs, trimEnd, hkeep (by simpa using hcs), List.reverse_reverse]

namespace Decimal

theorem isDigit_iff {c : Char} : isDigit c = true ↔ 48 ≤ c.toNat ∧ c.toNat ≤ 57 := by
  simp only [isDigit, Bool.and_eq_true, decide_eq_true_eq, Char.le_def, UInt32.le_iff_toNat_le]
  rfl

/-- Of the digits of all scripts, those of ASCII are read. -/
theorem isDigit_iff_toNat_lt {c : Char} (hc : SmallBasic.isDigit c = true) :
    isDigit c = true ↔ c.toNat < 128 := by
  rw [isDigit_iff]
  constructor
  · omega
  · intro hascii
    rw [SmallBasic.isDigit, if_pos hascii] at hc
    exact Char.isDigit_iff_toNat.1 hc

/-! ### Decimals are ASCII -/

theorem toNat_lt_of_readSign {cs : List Char} (hrest : ∀ c ∈ (readSign cs).2, c.toNat < 128) :
    ∀ c ∈ cs, c.toNat < 128 := by
  revert hrest
  fun_cases readSign cs <;> simp

theorem toNat_lt_of_span {cs : List Char} (hrest : ∀ c ∈ (cs.span isDigit).2, c.toNat < 128) :
    ∀ c ∈ cs, c.toNat < 128 := by
  rw [List.span_eq_takeWhile_dropWhile] at hrest
  rw [← @List.takeWhile_append_dropWhile _ isDigit cs, List.forall_mem_append]
  refine ⟨fun c hc => ?_, hrest⟩
  have hdigit := isDigit_iff.1 (List.all_eq_true.1 List.all_takeWhile c hc)
  omega

theorem toNat_lt_of_readFraction {cs : List Char}
    (hrest : ∀ c ∈ (readFraction cs).2, c.toNat < 128) : ∀ c ∈ cs, c.toNat < 128 := by
  unfold readFraction at hrest
  split at hrest
  · exact List.forall_mem_cons.2 ⟨by decide, toNat_lt_of_span hrest⟩
  · exact hrest

theorem toNat_lt_of_readExponent? {cs : List Char} {exponent : Int}
    (hread : readExponent? cs = some exponent) : ∀ c ∈ cs, c.toNat < 128 := by
  cases cs with
  | nil => exact nofun
  | cons c cs =>
    simp only [readExponent?] at hread
    split at hread
    case isTrue hform =>
      obtain ⟨hmark, -, hdigits⟩ := hform
      have hc : c.toNat < 128 := by rcases hmark with rfl | rfl <;> decide
      have hcs : ∀ d ∈ (readSign cs).2, d.toNat < 128 := by
        intro d hd
        have hdigit := isDigit_iff.1 (List.all_eq_true.1 hdigits d hd)
        omega
      exact List.forall_mem_cons.2 ⟨hc, toNat_lt_of_readSign hcs⟩
    case isFalse => cases hread

/-- What spells a decimal is ASCII throughout. -/
theorem toNat_lt_of_ofChars? {cs : List Char} {d : Decimal} (hread : ofChars? cs = some d) :
    ∀ c ∈ cs, c.toNat < 128 := by
  simp only [ofChars?] at hread
  split at hread
  · cases hread
  · obtain ⟨exponent, hexponent, -⟩ := Option.map_eq_some_iff.1 hread
    exact toNat_lt_of_readSign (toNat_lt_of_span
      (toNat_lt_of_readFraction (toNat_lt_of_readExponent? hexponent)))

/-! ### Signs -/

/-- The decimal with the other sign. -/
def neg (d : Decimal) : Decimal := { d with negative := !d.negative }

theorem toNumber_neg (d : Decimal) : d.neg.toNumber = d.toNumber.neg := by
  have hsize : ∀ (negative : Bool) (size : Option Magnitude),
      Number.ofSize (!negative) size = (Number.ofSize negative size).neg := by
    intro negative size
    cases size <;> rfl
  simp only [toNumber, neg, hsize]
  split_ifs <;> rfl

/-- A minus sign in front of a text without a sign. -/
theorem ofChars?_minus {cs : List Char} (hcs : readSign cs = (false, cs)) :
    ofChars? ('-' :: cs) = (ofChars? cs).map neg := by
  have hminus : readSign ('-' :: cs) = (true, cs) := rfl
  simp only [ofChars?, hcs, hminus]
  split_ifs
  · rfl
  · rw [Option.map_map]
    rfl

end Decimal

/-! ## Reading numerals -/

theorem span_append {p : Char → Bool} {cs rest : List Char} (hcs : ∀ c ∈ cs, p c = true)
    (hrest : ∀ c ∈ rest.head?, p c = false) : (cs ++ rest).span p = (cs, rest) := by
  rw [List.span_eq_takeWhile_dropWhile, ← drop_length_takeWhile, takeWhile_append hcs hrest,
    List.drop_left]

theorem span_of_forall_mem {p : Char → Bool} {cs : List Char} (hcs : ∀ c ∈ cs, p c = true) :
    cs.span p = (cs, []) := by
  simpa only [List.append_nil] using @span_append p cs [] hcs (by simp)

namespace IsNumeral

variable {cs : List Char}

/-- A numeral starts with no sign. -/
theorem readSign_eq (hcs : IsNumeral cs) : Decimal.readSign cs = (false, cs) := by
  refine Decimal.readSign_of_ne fun c hc => ?_
  have hmark := hcs.isDigit_or_eq_point c (List.mem_of_mem_head? hc)
  constructor <;> rintro rfl <;> exact absurd hmark (by decide)

/-- A numeral in ASCII is read, however long it is. -/
theorem isSome_ofChars? (hcs : IsNumeral cs) (hascii : ∀ c ∈ cs, c.toNat < 128) :
    (Decimal.ofChars? cs).isSome = true := by
  have hdigits : ∀ {ds : List Char}, (∀ c ∈ ds, isDigit c = true) → ds ⊆ cs →
      ∀ c ∈ ds, Decimal.isDigit c = true :=
    fun hds hsub c hc => (Decimal.isDigit_iff_toNat_lt (hds c hc)).2 (hascii c (hsub hc))
  simp only [Decimal.ofChars?, hcs.readSign_eq]
  cases hcs with
  | whole hds hne =>
    have hspan := span_of_forall_mem (hdigits hds (List.Subset.refl _))
    simp only [hspan, Decimal.readFraction, if_neg (fun hnil => hne hnil.1 : ¬(cs = [] ∧ _))]
    rfl
  | @point ds fs hds hfs hne =>
    have hwhole : (ds ++ '.' :: fs).span Decimal.isDigit = (ds, '.' :: fs) :=
      span_append (hdigits hds (by simp)) (by simp; decide)
    have hfraction := span_of_forall_mem (hdigits hfs (by grind))
    have hsome : ¬(ds = [] ∧ fs = []) := by simpa using hne
    simp only [hwhole, Decimal.readFraction, hfraction, if_neg hsome]
    rfl

theorem isBlank_of_mem (hcs : IsNumeral cs) : ∀ c ∈ cs, isBlank c = false := by
  intro c hc
  rcases hcs.isDigit_or_eq_point c hc with hdigit | rfl
  · exact isBlank_of_isDigit hdigit
  · decide

end IsNumeral

/-- A token that is a number is a numeral. -/
theorem Token.Starts.isNumeral {token : Token} {cs : List Char} (hstarts : token.Starts cs)
    (hkind : token.kind = .number) : IsNumeral token.text.toList := by
  cases hstarts with
  | @lexeme c cs _ hlexeme htext =>
    have hpos := length_pos_of_lexeme? hlexeme
    rw [hkind] at hlexeme
    rw [List.prefix_iff_eq_take.1 htext, lexeme?_number hlexeme]
    rw [lexeme?_number hlexeme] at hpos
    exact isNumeral_take hpos
  | unexpected _ _ hunexpected => cases hkind.symm.trans hunexpected

/-- What cannot be read as a number is a text to `+`. -/
theorem Operator.apply_add_of_eq_none {left : String} (hleft : Number.ofText? left = none)
    (right : String) : Operator.add.apply left right = left ++ right := by
  simp only [apply, addition, hleft]

/-- A number on any line can be read if and only if all its digits are ASCII digits, and with a
minus sign in front it gives its negative. With any other digit it is a text to `+`, and zero to the
operators that need a number, with a minus sign or without. -/
theorem number_reading (line : Nat) (text : String) :
    ∀ token ∈ scan line text, token.kind = .number →
      ((Number.ofText? token.text).isSome = true ↔ ∀ c ∈ token.text.toList, c.toNat < 128) ∧
        Number.ofText? ("-" ++ token.text) = (Number.ofText? token.text).map Number.neg ∧
        ((∃ c ∈ token.text.toList, 128 ≤ c.toNat) →
          ∀ literal ∈ [token.text, "-" ++ token.text], Number.ofText literal = .zero false ∧
            ∀ other, Operator.add.apply literal other = literal ++ other) := by
  intro token htoken hkind
  obtain ⟨-, rest, -, -, hstarts⟩ := exists_starts_of_mem_scan htoken
  have hnumeral := hstarts.isNumeral hkind
  have htext : Decimal.ofText? token.text = Decimal.ofChars? token.text.toList := by
    rw [Decimal.ofText?, trim_of_not_blank hnumeral.isBlank_of_mem]
  have hsigned : Decimal.ofText? ("-" ++ token.text) =
      (Decimal.ofText? token.text).map Decimal.neg := by
    have hblank : ∀ c ∈ '-' :: token.text.toList, isBlank c = false :=
      List.forall_mem_cons.2 ⟨by decide, hnumeral.isBlank_of_mem⟩
    rw [htext, ← Decimal.ofChars?_minus hnumeral.readSign_eq, Decimal.ofText?, String.toList_append]
    exact congrArg Decimal.ofChars? (trim_of_not_blank hblank)
  have hread : (Number.ofText? token.text).isSome = true ↔
      ∀ c ∈ token.text.toList, c.toNat < 128 := by
    rw [Number.ofText?, Option.isSome_map, htext]
    constructor
    · intro hsome
      obtain ⟨d, hd⟩ := Option.isSome_iff_exists.1 hsome
      exact Decimal.toNat_lt_of_ofChars? hd
    · exact hnumeral.isSome_ofChars?
  have hminus : Number.ofText? ("-" ++ token.text) =
      (Number.ofText? token.text).map Number.neg := by
    rw [Number.ofText?, Number.ofText?, hsigned, Option.map_map, Option.map_map]
    exact congrArg (Option.map · _) (funext Decimal.toNumber_neg)
  refine ⟨hread, hminus, ?_⟩
  rintro ⟨c, hc, hother⟩ literal hliteral
  have hnone : Number.ofText? token.text = none := by
    rw [← Option.not_isSome_iff_eq_none, hread]
    exact fun hascii => absurd (hascii c hc) (by omega)
  have hunread : Number.ofText? literal = none := by
    rcases List.mem_pair.1 hliteral with rfl | rfl
    · exact hnone
    · rw [hminus, hnone, Option.map_none]
  refine ⟨?_, Operator.apply_add_of_eq_none hunread⟩
  rw [Number.ofText, hunread, Option.getD_none]

/-- A number that starts with its point. -/
theorem number_reading_point :
    (⟨.number, ".50", 0, 4⟩ : Token) ∈ scan 0 "x=1..50" ∧
      (Number.ofText? ".50").isSome = true ∧
      Number.ofText? "-.50" = (Number.ofText? ".50").map Number.neg := by
  have htoken : (⟨.number, ".50", 0, 4⟩ : Token) ∈ scan 0 "x=1..50" := by decide +kernel
  obtain ⟨hsome, hminus, -⟩ := number_reading 0 "x=1..50" _ htoken rfl
  exact ⟨htoken, hsome.2 (by simp), hminus⟩

/-- A digit of another script is a number that cannot be read. -/
theorem number_of_other_script :
    ¬∀ (line : Nat) (text : String), ∀ token ∈ scan line text, token.kind = .number →
      (Number.ofText? token.text).isSome = true ∧
        (Number.ofText? ("-" ++ token.text)).isSome = true := by
  intro hall
  have hsome := (hall 0 "٣" ⟨.number, "٣", 0, 0⟩ (by decide +kernel) rfl).1
  revert hsome
  decide +kernel

end SmallBasic
