import Mathlib.Tactic.Ring
import SmallBasic.Proofs.Counts

/-!
# Rounding

The size nearest to a quotient depends on the quotient alone, and not on how it is written as a
fraction. A quotient that is itself a size of the format is kept. One that is too large has no
nearest size: this begins half way between the greatest size and the power of two after it.

## Main definitions

* `Magnitude.overflow` — where the quotients begin that have no nearest size.

## Main statements

* `Magnitude.nearest_mul_mul` — the nearest size depends on the quotient alone.
* `Magnitude.nearest_mul` — a quotient that is a size of the format is kept.
* `Magnitude.nearest_eq_none_iff` — which quotients have no nearest size.
-/

namespace SmallBasic

namespace Magnitude

variable {num den k : Nat}

/-! ## Fractions -/

theorem excess_mul_mul (hk : 0 < k) (num den : Nat) :
    excess (num * k) (den * k) = excess num den := by
  rw [excess, excess, Nat.mul_div_mul_right num den hk]

theorem nearestEven_mul_mul (hk : 0 < k) (num den : Nat) :
    nearestEven (num * k) (den * k) = nearestEven num den := by
  have hlt : den * k < 2 * (num % den * k) ↔ den < 2 * (num % den) := by
    rw [← Nat.mul_assoc]
    exact Nat.mul_lt_mul_right hk
  have heq : den * k = 2 * (num % den * k) ↔ den = 2 * (num % den) := by
    rw [← Nat.mul_assoc]
    exact Nat.mul_left_inj (Nat.ne_of_gt hk)
  simp only [nearestEven, Nat.mul_div_mul_right num den hk, Nat.mul_mod_mul_right, hlt, heq]

/-- The quanta of the nearest size, however large they are. -/
def rounded (num den : Nat) : Nat :=
  nearestEven num (den * twoTo (excess num den)) * twoTo (excess num den)

theorem nearest_eq (num den : Nat) :
    nearest num den =
      if h : rounded num den < limit then
        some ⟨rounded num den, representable_nearestEven num den h⟩
      else none := rfl

theorem rounded_mul_mul (hk : 0 < k) (num den : Nat) :
    rounded (num * k) (den * k) = rounded num den := by
  rw [rounded, rounded, excess_mul_mul hk, Nat.mul_right_comm, nearestEven_mul_mul hk]

/-- The nearest size depends on the quotient alone. -/
theorem nearest_mul_mul (hk : 0 < k) (num den : Nat) :
    nearest (num * k) (den * k) = nearest num den := by
  simp only [nearest_eq, rounded_mul_mul hk]

/-- A quotient that the format holds is kept. -/
theorem nearest_mul (hden : 0 < den) {n : Nat} (hn : Representable n) :
    nearest (n * den) den = some ⟨n, hn⟩ := by
  have hsame := nearest_mul_mul hden n 1
  rwa [Nat.one_mul, nearest_of_representable hn] at hsame

/-! ## Overflow -/

/-- Rounding goes past `k` where the quotient is past the middle between `k` and the number after
it, and in the middle if `k` is odd. -/
theorem lt_nearestEven_iff (hden : 0 < den) :
    k < nearestEven num den ↔
      (2 * k + 1) * den < 2 * num ∨ ((2 * k + 1) * den = 2 * num ∧ k % 2 = 1) := by
  have hsplit : num / den * den + num % den = num := Nat.div_add_mod' num den
  have hrest : num % den < den := Nat.mod_lt num hden
  have hmiddle : (2 * k + 1) * den = 2 * (k * den) + den := by ring
  have hupper := nearestEven_le num den
  have hlower := le_nearestEven num den
  rcases Nat.lt_trichotomy k (num / den) with hlt | rfl | hgt
  · have hstep := Nat.mul_le_mul_right den (Nat.succ_le_of_lt hlt)
    rw [Nat.succ_mul] at hstep
    omega
  · rw [nearestEven]
    split <;> omega
  · have hstep := Nat.mul_le_mul_right den (Nat.succ_le_of_lt hgt)
    rw [Nat.succ_mul] at hstep
    omega

/-- Half way between the greatest size and the first power of two past it. -/
def overflow : Nat := (twoTo 54 - 1) * twoTo 2044

theorem nearest_eq_none_iff_le_rounded : nearest num den = none ↔ limit ≤ rounded num den := by
  simp [nearest_eq]

/-- Rounding up with fewer bits given up leads to a power of two at most, and this one is in the
format. -/
theorem rounded_lt_of_excess_lt (hden : 0 < den) (hexcess : excess num den < 2045) :
    rounded num den < limit ∧ num < overflow * den := by
  have hsmall := quotient_lt num den
  have hnear := nearestEven_le num (den * twoTo (excess num den))
  rw [rounded]
  generalize excess num den = s at *
  have hpower : twoTo s ≤ twoTo 2044 := twoTo_le_twoTo (by omega)
  constructor
  · calc nearestEven num (den * twoTo s) * twoTo s
        ≤ twoTo 53 * twoTo 2044 := Nat.mul_le_mul (by omega) hpower
      _ = twoTo 2097 := (twoTo_add 53 2044).symm
      _ < limit := twoTo_lt_twoTo_iff.2 (by decide)
  · calc num < twoTo 53 * (den * twoTo s) :=
          (Nat.div_lt_iff_lt_mul (Nat.mul_pos hden (twoTo_pos s))).1 hsmall
      _ ≤ twoTo 53 * (den * twoTo 2044) := Nat.mul_le_mul_left _ (Nat.mul_le_mul_left den hpower)
      _ ≤ (twoTo 54 - 1) * (den * twoTo 2044) := Nat.mul_le_mul_right _ (by decide)
      _ = overflow * den := by rw [overflow, Nat.mul_comm den, Nat.mul_assoc]

/-- Among the quotients in reach of the greatest size, only those that are rounded up from it leave
the format. -/
theorem limit_le_rounded_iff (hden : 0 < den) (hexcess : excess num den = 2045) :
    limit ≤ rounded num den ↔ overflow * den ≤ num := by
  have hunit : 0 < den * twoTo 2045 := Nat.mul_pos hden (twoTo_pos 2045)
  have hsizes : limit ≤ rounded num den ↔
      twoTo 53 - 1 < nearestEven num (den * twoTo 2045) := by
    rw [rounded, hexcess, show limit = twoTo 53 * twoTo 2045 from twoTo_add 53 2045,
      Nat.mul_le_mul_right_iff (twoTo_pos _)]
    have hpositive := twoTo_pos 53
    omega
  have hmiddle : (2 * (twoTo 53 - 1) + 1) * (den * twoTo 2045) = 2 * (overflow * den) := by
    have hdouble : twoTo 2045 = twoTo 2044 * twoTo 1 := twoTo_add 2044 1
    rw [overflow, hdouble, show twoTo 1 = 2 from rfl,
      show 2 * (twoTo 53 - 1) + 1 = twoTo 54 - 1 by decide]
    ring
  rw [hsizes, lt_nearestEven_iff hunit, hmiddle]
  have hodd : (twoTo 53 - 1) % 2 = 1 := by decide
  omega

/-- The quotients with more bits given up are all too large. -/
theorem limit_le_rounded_of_lt_excess (hden : 0 < den) (hexcess : 2045 < excess num den) :
    limit ≤ rounded num den ∧ overflow * den ≤ num := by
  have hquotient := le_quotient num den (by omega)
  have hfar := le_nearestEven num (den * twoTo (excess num den))
  rw [rounded]
  generalize excess num den = s at *
  have hpower : twoTo 2046 ≤ twoTo s := twoTo_le_twoTo hexcess
  constructor
  · calc limit = twoTo 52 * twoTo 2046 := twoTo_add 52 2046
      _ ≤ nearestEven num (den * twoTo s) * twoTo s := Nat.mul_le_mul (hquotient.trans hfar) hpower
  · calc overflow * den ≤ twoTo 54 * twoTo 2044 * den :=
          Nat.mul_le_mul_right den (Nat.mul_le_mul_right _ (Nat.sub_le _ _))
      _ = twoTo 52 * (den * twoTo 2046) := by
        rw [← twoTo_add, show 54 + 2044 = 52 + 2046 by decide, twoTo_add]
        ring
      _ ≤ twoTo 52 * (den * twoTo s) := Nat.mul_le_mul_left _ (Nat.mul_le_mul_left den hpower)
      _ ≤ num := (Nat.le_div_iff_mul_le (Nat.mul_pos hden (twoTo_pos s))).1 hquotient

/-- A quotient has no nearest size if and only if it is at least half way between the greatest size
and the power of two after it. -/
theorem nearest_eq_none_iff (hden : 0 < den) :
    nearest num den = none ↔ overflow * den ≤ num := by
  rw [nearest_eq_none_iff_le_rounded]
  rcases Nat.lt_trichotomy (excess num den) 2045 with hlt | heq | hgt
  · obtain ⟨hrounded, hbelow⟩ := rounded_lt_of_excess_lt hden hlt
    exact iff_of_false (Nat.not_le_of_lt hrounded) (Nat.not_le_of_lt hbelow)
  · exact limit_le_rounded_iff hden heq
  · obtain ⟨hrounded, hpast⟩ := limit_le_rounded_of_lt_excess hden hgt
    exact iff_of_true hrounded hpast

end Magnitude

end SmallBasic
