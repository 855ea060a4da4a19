import SmallBasic.Number.Power

/-!
# Sizes of binary64 numbers

A finite binary64 number is a whole number of *quanta*, where one quantum is `2 ^ -1074`, the least
positive number of the format. So the size of a number is a natural number with at most 53
significant bits, and every question about it is a question about natural numbers.

## Main definitions

* `Magnitude` — the sizes that the format can hold, counted in quanta.
* `Magnitude.nearest` — the size nearest to an exact quotient; a tie goes to the even neighbour.
-/

namespace SmallBasic

/-- `n` quanta have at most 53 significant bits and lie below `2 ^ 1024`. -/
def Representable (n : Nat) : Prop :=
  ∃ m s, m < twoTo 53 ∧ s ≤ 2045 ∧ n = m * twoTo s

/-- The size of a finite binary64 number, in quanta of `2 ^ -1074`. -/
structure Magnitude where
  quanta : Nat
  representable : Representable quanta
deriving DecidableEq

namespace Magnitude

/-- A quantum is `2 ^ -oneExponent`. -/
def oneExponent : Nat := 1074

/-- The number one, in quanta. -/
def one : Nat := twoTo oneExponent

/-- The exponent of the first power of two that is too large for the format, in quanta. -/
def limitExponent : Nat := 2098

/-- The first power of two that is too large for the format, in quanta. -/
def limit : Nat := twoTo limitExponent

/-- The whole number nearest to `num / den`; a tie goes to the even one. -/
def nearestEven (num den : Nat) : Nat :=
  if den < 2 * (num % den) ∨ (den = 2 * (num % den) ∧ num / den % 2 = 1) then num / den + 1
  else num / den

theorem nearestEven_le (num den : Nat) : nearestEven num den ≤ num / den + 1 := by
  unfold nearestEven
  split <;> omega

theorem le_nearestEven (num den : Nat) : num / den ≤ nearestEven num den := by
  unfold nearestEven
  split <;> omega

/-- How many low bits of `num / den` are given up to keep 53 significant ones. -/
def excess (num den : Nat) : Nat := (num / den).log2 - 52

/-- Dropping the excess bits leaves a number of at most 53 bits. -/
theorem quotient_lt (num den : Nat) : num / (den * twoTo (excess num den)) < twoTo 53 := by
  rw [← Nat.div_div_eq_div_mul, Nat.div_lt_iff_lt_mul (twoTo_pos _), ← twoTo_add]
  by_cases h : num / den = 0
  · rw [h]; exact twoTo_pos _
  · exact (log2_lt_iff h).1 (by unfold excess; omega)

/-- When bits are dropped, the leading bit stays. -/
theorem le_quotient (num den : Nat) (h : 0 < excess num den) :
    twoTo 52 ≤ num / (den * twoTo (excess num den)) := by
  have nonzero : num / den ≠ 0 := by
    intro zero
    simp [excess, zero] at h
  rw [← Nat.div_div_eq_div_mul, Nat.le_div_iff_mul_le (twoTo_pos _), ← twoTo_add]
  exact (le_log2_iff nonzero).1 (by unfold excess at h ⊢; omega)

/-- A number of at most 53 bits, moved up by the excess, is representable while below the limit. -/
theorem representable_nearestEven (num den : Nat)
    (h : nearestEven num (den * twoTo (excess num den)) * twoTo (excess num den) < limit) :
    Representable (nearestEven num (den * twoTo (excess num den)) * twoTo (excess num den)) := by
  have upper := nearestEven_le num (den * twoTo (excess num den))
  have lower := le_nearestEven num (den * twoTo (excess num den))
  have small := quotient_lt num den
  have large := le_quotient num den
  generalize excess num den = s at *
  generalize nearestEven num (den * twoTo s) = m at *
  have bound : ∀ k, twoTo k ≤ m → k + s < limitExponent := by
    intro k hk
    rw [← twoTo_lt_twoTo_iff, twoTo_add]
    exact Nat.lt_of_le_of_lt (Nat.mul_le_mul_right _ hk) h
  have exponent : limitExponent = 2098 := rfl
  by_cases top : m = twoTo 53
  · have := bound 53 (Nat.le_of_eq top.symm)
    refine ⟨twoTo 52, s + 1, by decide, by omega, ?_⟩
    rw [top, ← twoTo_add, ← twoTo_add, show 52 + (s + 1) = 53 + s by omega]
  · refine ⟨m, s, by omega, ?_, rfl⟩
    by_cases hs : 0 < s
    · have := bound 52 (Nat.le_trans (large hs) lower)
      omega
    · omega

/-- The magnitude nearest to `num / den` quanta, to 53 significant bits with ties to even.
Nothing is returned when the rounded size is past the end of the format. -/
def nearest (num den : Nat) : Option Magnitude :=
  if h : nearestEven num (den * twoTo (excess num den)) * twoTo (excess num den) < limit then
    some ⟨_, representable_nearestEven num den h⟩
  else none

/-- The magnitude of zero. -/
def zero : Magnitude := ⟨0, 0, 0, by decide, by decide, rfl⟩

instance : Inhabited Magnitude := ⟨zero⟩

end Magnitude

end SmallBasic
