import SmallBasic.Operator
import SmallBasic.Proofs.Positional

/-!
# Stored numbers

A variable holds a number as a text. A finite number can be stored and read again without a loss:
the text of each of the numbers that 64 bits can encode is read as this number, and no two of them
have the same text, apart from the two zeros. So two numbers that were computed are equal as texts
exactly if they are equal as numbers.

## Main definitions

* `Number.exponentField`, `Number.fractionField` — the parts of an encoding.
* `Number.EncodesFinite` — the encodings of the finite numbers.

## Main statements

* `Number.toBits_ofBits` — a finite number has one encoding.
* `Number.toText_eq_iff` — finite numbers with the same text are the same, up to the sign of zero.
* `Number.kept_as_text` — finite numbers survive being stored.
-/

namespace SmallBasic

namespace Number

/-! ## Encodings -/

/-- The eleven bits that encode the exponent. -/
def exponentField (bits : UInt64) : Nat := bits.toNat / twoTo 52 % twoTo 11

/-- The 52 bits that encode the fraction. -/
def fractionField (bits : UInt64) : Nat := bits.toNat % twoTo 52

/-- The encoding is one of a finite number: the exponent is not the one of infinity. -/
def EncodesFinite (bits : UInt64) : Prop := exponentField bits ≠ 2047

instance (bits : UInt64) : Decidable (EncodesFinite bits) :=
  inferInstanceAs (Decidable (exponentField bits ≠ 2047))

/-- The quanta that an exponent and a fraction encode. With the least exponent there is no leading
bit in front of the fraction. -/
def fieldQuanta (exponent fraction : Nat) : Nat :=
  if exponent = 0 then fraction else (twoTo 52 + fraction) * twoTo (exponent - 1)

variable {exponent fraction : Nat}

theorem representable_fieldQuanta (hexponent : exponent < 2047) (hfraction : fraction < twoTo 52) :
    Representable (fieldQuanta exponent fraction) := by
  have hdouble : twoTo 53 = twoTo 52 + twoTo 52 := by decide
  unfold fieldQuanta
  split
  · exact ⟨fraction, 0, by omega, by decide, (Nat.mul_one fraction).symm⟩
  · exact ⟨_, exponent - 1, by omega, by omega, rfl⟩

/-- The exponent and the fraction can be told from the quanta. -/
theorem sizeBits_fieldQuanta (hfraction : fraction < twoTo 52) :
    sizeBits (fieldQuanta exponent fraction) = exponent * twoTo 52 + fraction := by
  unfold fieldQuanta
  split
  case isTrue hzero => rw [sizeBits, if_pos hfraction, hzero, Nat.zero_mul, Nat.zero_add]
  case isFalse hne =>
    generalize hshift : exponent - 1 = shift
    have hlower : twoTo (52 + shift) ≤ (twoTo 52 + fraction) * twoTo shift := by
      rw [twoTo_add]
      exact Nat.mul_le_mul_right _ (Nat.le_add_right _ _)
    have hupper : (twoTo 52 + fraction) * twoTo shift < twoTo (53 + shift) := by
      rw [twoTo_add, show twoTo 53 = twoTo 52 + twoTo 52 by decide]
      exact Nat.mul_lt_mul_of_pos_right (Nat.add_lt_add_left hfraction _) (twoTo_pos _)
    have hpos : (twoTo 52 + fraction) * twoTo shift ≠ 0 :=
      Nat.ne_of_gt (Nat.lt_of_lt_of_le (twoTo_pos _) hlower)
    have hlog : ((twoTo 52 + fraction) * twoTo shift).log2 - 52 = shift := by
      have hge := (le_log2_iff hpos).2 hlower
      have hlt := (log2_lt_iff hpos).2 hupper
      omega
    have hlarge : ¬(twoTo 52 + fraction) * twoTo shift < twoTo 52 :=
      Nat.not_lt.2 ((twoTo_le_twoTo (Nat.le_add_right 52 shift)).trans hlower)
    rw [sizeBits, if_neg hlarge]
    dsimp only
    rw [hlog, Nat.mul_div_cancel _ (twoTo_pos shift), Nat.add_sub_cancel_left,
      show shift + 1 = exponent by omega]

variable {bits other : UInt64}

theorem exponentField_lt (hbits : EncodesFinite bits) : exponentField bits < 2047 := by
  have hlt : exponentField bits < twoTo 11 := Nat.mod_lt _ (twoTo_pos 11)
  have heleven : twoTo 11 = 2048 := rfl
  unfold EncodesFinite at hbits
  omega

theorem fractionField_lt (bits : UInt64) : fractionField bits < twoTo 52 :=
  Nat.mod_lt _ (twoTo_pos 52)

/-- An encoding is its sign, its exponent and its fraction. -/
theorem toNat_eq_fields (bits : UInt64) :
    (if twoTo 63 ≤ bits.toNat then twoTo 63 else 0) +
      (exponentField bits * twoTo 52 + fractionField bits) = bits.toNat := by
  have hlt : bits.toNat < 18446744073709551616 := bits.toNat_lt
  rw [exponentField, fractionField, show twoTo 63 = 9223372036854775808 from rfl,
    show twoTo 52 = 4503599627370496 from rfl, show twoTo 11 = 2048 from rfl]
  split <;> omega

/-- The number that is encoded, bit by bit. -/
theorem exists_ofBits (hbits : EncodesFinite bits) :
    ∃ size : Magnitude, size.quanta = fieldQuanta (exponentField bits) (fractionField bits) ∧
      ofBits bits = .finite (decide (twoTo 63 ≤ bits.toNat)) size := by
  have hquanta := representable_fieldQuanta (exponentField_lt hbits) (fractionField_lt bits)
  refine ⟨⟨_, hquanta⟩, rfl, ?_⟩
  have hnearest := Magnitude.nearest_of_representable hquanta
  simp only [ofBits]
  change (if exponentField bits = 2047 then _ else if exponentField bits = 0 then
    ofSize _ (Magnitude.nearest (fractionField bits) 1) else
      ofSize _ (Magnitude.nearest ((twoTo 52 + fractionField bits) *
        twoTo (exponentField bits - 1)) 1)) = _
  rw [if_neg hbits]
  unfold fieldQuanta at hnearest ⊢
  split
  case isTrue hzero =>
    simp only [if_pos hzero] at hnearest ⊢
    rw [hnearest]
    rfl
  case isFalse hne =>
    simp only [if_neg hne] at hnearest ⊢
    rw [hnearest]
    rfl

/-- A finite number has one encoding. -/
theorem toBits_ofBits (hbits : EncodesFinite bits) : (ofBits bits).toBits = bits := by
  obtain ⟨size, hquanta, heq⟩ := exists_ofBits hbits
  rw [heq]
  simp only [toBits, hquanta, sizeBits_fieldQuanta (fractionField_lt bits), decide_eq_true_eq,
    toNat_eq_fields, UInt64.ofNat_toNat]

/-! ## Texts -/

variable {a b : Bool} {x y : Magnitude}

/-- The two zeros have the same text. -/
theorem toText_unsigned (negative : Bool) (size : Magnitude) :
    (unsigned (.finite negative size)).toText = (finite negative size).toText := by
  by_cases hzero : size.quanta = 0
  · rw [unsigned_finite_of_zero hzero, Magnitude.eq_zero_of_quanta hzero]
    cases negative <;> decide +kernel
  · rw [unsigned_finite hzero]

/-- Finite numbers with the same text are the same, up to the sign of zero. -/
theorem toText_eq_iff :
    (finite a x).toText = (finite b y).toText ↔
      unsigned (.finite a x) = unsigned (.finite b y) := by
  constructor
  · intro htext
    have hread := congrArg ofText? htext
    rw [ofText?_toText, ofText?_toText] at hread
    exact Option.some.inj hread
  · intro hsame
    rw [← toText_unsigned, hsame, toText_unsigned]

theorem natAbs_signed (negative : Bool) (size : Magnitude) :
    (signed negative size).natAbs = size.quanta := by
  cases negative <;> simp [signed]

/-- Zero is in one place, whatever its sign. -/
theorem rank?_unsigned (negative : Bool) (size : Magnitude) :
    (unsigned (.finite negative size)).rank? = some (signed negative size) := by
  by_cases hzero : size.quanta = 0
  · rw [unsigned_finite_of_zero hzero, Int.natAbs_eq_zero.1 ((natAbs_signed _ _).trans hzero)]
    rfl
  · rw [unsigned_finite hzero]
    rfl

/-- Numbers in the same place are the same, up to the sign of zero. -/
theorem signed_eq_iff :
    signed a x = signed b y ↔ unsigned (.finite a x) = unsigned (.finite b y) := by
  constructor
  · intro hplace
    have hquanta : x.quanta = y.quanta := by rw [← natAbs_signed a, hplace, natAbs_signed]
    obtain rfl : x = y := by
      cases x
      cases y
      simpa using hquanta
    by_cases hzero : x.quanta = 0
    · rw [unsigned_finite_of_zero hzero, unsigned_finite_of_zero hzero]
    · have hsign : a = b := by
        cases a <;> cases b <;> simp [signed] at hplace ⊢ <;> omega
      rw [hsign]
  · intro hsame
    have hrank := congrArg rank? hsame
    rw [rank?_unsigned, rank?_unsigned] at hrank
    exact Option.some.inj hrank

/-- Numbers that are below each other are the same, up to the sign of zero. -/
theorem le_and_le_iff :
    ((finite a x).le (.finite b y) && (finite b y).le (.finite a x)) = true ↔
      unsigned (.finite a x) = unsigned (.finite b y) := by
  simp only [le, compareBy, rank?, Bool.and_eq_true, decide_eq_true_eq, ← signed_eq_iff]
  omega

theorem unsigned_eq_iff :
    unsigned (.finite a x) = unsigned (.finite b y) ↔ finite a x = .finite b y ∨
      ((finite a x).isZero = true ∧ (finite b y).isZero = true) := by
  constructor
  · intro hsame
    by_cases hx : (finite a x).isZero = true <;> by_cases hy : (finite b y).isZero = true
    · exact .inr ⟨hx, hy⟩
    · rw [unsigned, unsigned, if_pos hx, if_neg hy] at hsame
      rw [← hsame] at hy
      exact absurd rfl hy
    · rw [unsigned, unsigned, if_neg hx, if_pos hy] at hsame
      rw [hsame] at hx
      exact absurd rfl hx
    · rw [unsigned, unsigned, if_neg hx, if_neg hy] at hsame
      exact .inl hsame
  · rintro (hsame | ⟨hx, hy⟩)
    · rw [hsame]
    · rw [unsigned, unsigned, if_pos hx, if_pos hy]

/-- Finite numbers survive being stored as texts. The text of each of them is read as the number,
without the sign if it is zero, and is written without an exponent. Two of them have the same text
only if they have the same encoding or are both zero, and comparing the texts is comparing the
numbers. -/
theorem kept_as_text (bits other : UInt64) (hbits : EncodesFinite bits)
    (hother : EncodesFinite other) :
    ofText? (ofBits bits).toText =
        some (if (ofBits bits).isZero = true then .zero false else ofBits bits) ∧
      (∀ c ∈ (ofBits bits).toText.toList, c ≠ 'e' ∧ c ≠ 'E') ∧
      ((ofBits bits).toText = (ofBits other).toText ↔
        bits = other ∨ ((ofBits bits).isZero = true ∧ (ofBits other).isZero = true)) ∧
      Operator.equal.apply (ofBits bits).toText (ofBits other).toText =
        truthText ((ofBits bits).le (ofBits other) && (ofBits other).le (ofBits bits)) := by
  have hdecoded : ofBits bits = ofBits other ↔ bits = other := by
    refine ⟨fun hsame => ?_, congrArg ofBits⟩
    rw [← toBits_ofBits hbits, hsame, toBits_ofBits hother]
  obtain ⟨x, -, hx⟩ := exists_ofBits hbits
  obtain ⟨y, -, hy⟩ := exists_ofBits hother
  rw [← hdecoded, hx, hy]
  refine ⟨ofText?_toText _ _, ?_, toText_eq_iff.trans unsigned_eq_iff, ?_⟩
  · intro c hc
    rcases mem_toText _ _ c hc with hdigit | rfl | rfl
    · constructor <;> rintro rfl <;> cases hdigit
    · decide
    · decide
  · rw [Operator.apply]
    refine congrArg truthText (Bool.eq_iff_iff.2 ?_)
    rw [beq_iff_eq, toText_eq_iff, le_and_le_iff]

/-- The number `10 ^ 15` is written by its shortest digits, and the whole number before it digit by
digit. -/
theorem kept_as_text_border :
    EncodesFinite 0x430C6BF526340000 ∧ EncodesFinite 0x430C6BF52633FFF8 ∧
      (ofBits 0x430C6BF526340000).toText = "1000000000000000" ∧
      (ofBits 0x430C6BF52633FFF8).toText = "999999999999999" ∧
      ofText? (ofBits 0x430C6BF526340000).toText = some (ofBits 0x430C6BF526340000) ∧
      Operator.equal.apply (ofBits 0x430C6BF526340000).toText (ofBits 0x430C6BF52633FFF8).toText =
        "False" := by
  have hlarge : EncodesFinite 0x430C6BF526340000 := by decide
  have hbefore : EncodesFinite 0x430C6BF52633FFF8 := by decide
  obtain ⟨hread, -, -, hequal⟩ := kept_as_text _ _ hlarge hbefore
  refine ⟨hlarge, hbefore, ?_, ?_, hread.trans ?_, hequal.trans ?_⟩ <;> decide +kernel

end Number

end SmallBasic
