import SmallBasic.Proofs.Ordering
import SmallBasic.Proofs.Positional

/-!
# Integers

An integer that is not too large goes through the texts of a program without a loss: its decimal
text is read as this integer, a sum of two such texts is the text of the sum, and the texts are
ordered as the integers are.

## Main statements

* `Number.ofText?_intRepr` — the decimal text of an integer is read as the number nearest to it.
* `Number.toText_ofInt` — integers of at most fifteen digits are written in full.
* `Operator.addition_repr`, `Operator.isTrue_lessEqual_repr` — sums and order of texts of integers.
-/

namespace SmallBasic

namespace Number

/-! ## Texts -/

/-- An integer is written with its sign and in decimal digits. -/
theorem intText_eq_repr (z : Int) : intText z = z.repr := by
  have hchars : ∀ negative n, Decimal.toChars ⟨negative, n, 0⟩ =
      (if negative then ['-'] else []) ++ Nat.toDigits 10 n := by
    intro negative n
    simp [Decimal.toChars, Decimal.digits]
  rw [intText, hchars]
  cases z with
  | ofNat n => rfl
  | negSucc n =>
    rw [decide_eq_true (Int.negSucc_lt_zero n), if_pos rfl, String.ofList_append]
    rfl

/-- The number nearest to an integer is a rounded size with the sign of the integer. -/
theorem ofInt_eq_ofSize (z : Int) :
    ofInt z = ofSize (decide (z < 0)) (Magnitude.nearest (z.natAbs * Magnitude.one) 1) := by
  have hone : (0 : Int) < Magnitude.one := Int.natCast_pos.2 Magnitude.one_pos
  rw [ofInt, ofQuanta]
  by_cases hzero : z = 0
  · rw [hzero, Int.zero_mul, if_pos rfl, Int.natAbs_zero, Nat.zero_mul, Magnitude.nearest_zero]
    rfl
  · rw [if_neg (Int.mul_ne_zero hzero (Int.ne_of_gt hone)), Int.natAbs_mul, Int.natAbs_natCast]
    congr 1
    rw [decide_eq_decide, ← Int.not_le, ← Int.not_le, Int.mul_nonneg_iff_of_pos_right hone]

/-- The decimal text of an integer is read as the number nearest to it. -/
theorem ofText?_intRepr (z : Int) : ofText? z.repr = some (ofInt z) := by
  rw [← intText_eq_repr, ofText?_intText, ofInt_eq_ofSize]

/-! ## Integers that the format holds -/

variable {y z : Int}

theorem signed_of_natAbs {size : Magnitude} (hsize : size.quanta = z.natAbs * Magnitude.one) :
    signed (decide (z < 0)) size = z * Magnitude.one := by
  rw [signed, hsize, Int.natCast_mul]
  by_cases hneg : z < 0
  · rw [decide_eq_true hneg, if_pos rfl, ← Int.neg_mul]
    congr 1
    omega
  · rw [decide_eq_false hneg, if_neg Bool.false_ne_true]
    congr 1
    omega

theorem ofInt_of_exact_natAbs (hz : Exact z.natAbs) :
    ∃ size : Magnitude, size.quanta = z.natAbs * Magnitude.one ∧
      signed (decide (z < 0)) size = z * Magnitude.one ∧
      ofInt z = .finite (decide (z < 0)) size := by
  refine ⟨⟨_, exact_iff.1 hz⟩, rfl, signed_of_natAbs rfl, ?_⟩
  rw [ofInt_eq_ofSize, Magnitude.nearest_of_representable (exact_iff.1 hz)]
  rfl

theorem add_ofInt (hy : Exact y.natAbs) (hz : Exact z.natAbs) :
    (ofInt y).add (ofInt z) = ofInt (y + z) := by
  obtain ⟨v, -, hv, heq⟩ := ofInt_of_exact_natAbs hy
  obtain ⟨w, -, hw, heq'⟩ := ofInt_of_exact_natAbs hz
  have hone : (Magnitude.one : Int) ≠ 0 := Int.natCast_ne_zero.2 (Nat.ne_of_gt Magnitude.one_pos)
  rw [heq, heq', add, hv, hw, ← Int.add_mul, ofInt, ofQuanta, ofQuanta]
  by_cases hzero : y + z = 0
  · -- A sum of two negative integers is not zero.
    have hsign : (decide (y < 0) && decide (z < 0)) = false := by
      simp
      omega
    rw [hsign]
  · rw [if_neg (Int.mul_ne_zero hzero hone), if_neg (Int.mul_ne_zero hzero hone)]

theorem rank?_ofInt (hz : Exact z.natAbs) : (ofInt z).rank? = some (z * Magnitude.one) := by
  obtain ⟨size, -, hsigned, heq⟩ := ofInt_of_exact_natAbs hz
  rw [heq, rank?, hsigned]

theorem whole?_ofInt (hz : Exact z.natAbs) : (ofInt z).whole? = some z := by
  obtain ⟨size, hquanta, -, heq⟩ := ofInt_of_exact_natAbs hz
  rw [heq, whole?, hquanta, Nat.mul_mod_left, if_pos rfl, Nat.mul_div_cancel _ Magnitude.one_pos]
  have hsign : (if decide (z < 0) = true then -(z.natAbs : Int) else z.natAbs) = z := by
    simp only [decide_eq_true_eq]
    split <;> omega
  rw [hsign]

theorem exact_of_lt_wholeLimit {n : Nat} (hn : n < wholeLimit) : Exact n :=
  exact_of_le (Nat.le_of_lt (Nat.lt_trans hn (by decide)))

/-- Integers of at most fifteen digits are written in full. -/
theorem toText_ofInt (hz : z.natAbs < wholeLimit) : (ofInt z).toText = z.repr := by
  have hwhole := whole?_ofInt (exact_of_lt_wholeLimit hz)
  obtain ⟨size, -, -, heq⟩ := ofInt_of_exact_natAbs (exact_of_lt_wholeLimit hz)
  rw [heq] at hwhole ⊢
  rw [toText, hwhole]
  dsimp only
  rw [if_pos hz, intText_eq_repr]

end Number

variable {y z : Int}

namespace Operator

/-- The sum of the texts of two integers is the text of their sum. -/
theorem addition_repr (hy : y.natAbs < Number.wholeLimit) (hz : z.natAbs < Number.wholeLimit)
    (hsum : (y + z).natAbs < Number.wholeLimit) : addition y.repr z.repr = (y + z).repr := by
  rw [addition, Number.ofText?_intRepr, Number.ofText?_intRepr]
  dsimp only
  rw [Number.add_ofInt (Number.exact_of_lt_wholeLimit hy) (Number.exact_of_lt_wholeLimit hz),
    Number.toText_ofInt hsum]

/-- The texts of integers are ordered as the integers are. -/
theorem isTrue_lessEqual_repr (hy : y.natAbs < Number.wholeLimit)
    (hz : z.natAbs < Number.wholeLimit) :
    isTrue (lessEqual.apply y.repr z.repr) = decide (y ≤ z) := by
  have hplace : ∀ {z : Int}, z.natAbs < Number.wholeLimit → place z.repr = z * Magnitude.one := by
    intro z hz
    rw [place, Number.ofText, Number.ofText?_intRepr, Option.getD_some,
      Number.rank?_ofInt (Number.exact_of_lt_wholeLimit hz), Option.getD_some]
  rw [isTrue_lessEqual, hplace hy, hplace hz, decide_eq_decide,
    Int.mul_le_mul_right (Int.natCast_pos.2 Magnitude.one_pos)]

end Operator

end SmallBasic
