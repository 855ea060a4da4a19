import SmallBasic.Proofs.Numerals

/-!
# Counts

Lengths, positions and other counts are natural numbers. A program gets them as texts, in decimal
digits, and hands them back as numbers of the format. Nothing is lost on the way to the text, and
nothing on the way back either, as long as the format holds the number exactly, as it does for all
counts up to `2 ^ 53`.

## Main definitions

* `Number.Exact` — the natural numbers that the format holds.

## Main statements

* `repr_injective` — no two natural numbers have the same digits.
* `Number.ofText_repr` — the digits of a natural number are read as the number nearest to it.
* `Magnitude.nearest_of_representable` — a size that the format holds is nearest to itself.
* `Number.exact_of_le` — the format holds the natural numbers up to `2 ^ 53`.
-/

namespace SmallBasic

/-! ## Digits -/

theorem digitsValue_toDigits (n : Nat) : Decimal.digitsValue (Nat.toDigits 10 n) = n := by
  have hread := @Nat.ofDigitChars_toDigits 10 n (by decide) (by decide)
  rwa [Nat.ofDigitChars_eq_foldl] at hread

/-- No two natural numbers have the same digits. -/
theorem repr_injective : Function.Injective Nat.repr := by
  intro m n hsame
  have hdigits : Nat.toDigits 10 m = Nat.toDigits 10 n := String.ofList_injective hsame
  rw [← digitsValue_toDigits m, hdigits, digitsValue_toDigits]

theorem isDigit_of_mem_toDigits {n : Nat} :
    ∀ c ∈ Nat.toDigits 10 n, c.toNat < 128 ∧ isDigit c = true := by
  intro c hc
  have hdigit : c.isDigit = true := Nat.isDigit_of_mem_toDigits (by decide) (by decide) hc
  have hbounds : 48 ≤ c.toNat ∧ c.toNat ≤ 57 := Char.isDigit_iff_toNat.1 hdigit
  have hascii : c.toNat < 128 := by omega
  exact ⟨hascii, by rwa [isDigit, if_pos hascii]⟩

theorem isNumeral_toDigits (n : Nat) : IsNumeral (Nat.toDigits 10 n) :=
  .whole (fun c hc => (isDigit_of_mem_toDigits c hc).2) Nat.toDigits_ne_nil

/-- The digits of a natural number spell it exactly. -/
theorem Decimal.ofText?_repr (n : Nat) : Decimal.ofText? n.repr = some ⟨false, n, 0⟩ := by
  have hnumeral := isNumeral_toDigits n
  have hspan : (Nat.toDigits 10 n).span Decimal.isDigit = (Nat.toDigits 10 n, []) :=
    span_of_forall_mem fun c hc =>
      (Decimal.isDigit_iff_toNat_lt (isDigit_of_mem_toDigits c hc).2).2
        (isDigit_of_mem_toDigits c hc).1
  rw [Decimal.ofText?, Nat.toList_repr, trim_of_not_blank hnumeral.isBlank_of_mem]
  simp only [Decimal.ofChars?, hnumeral.readSign_eq, hspan, Decimal.readFraction,
    Decimal.readExponent?, List.append_nil, digitsValue_toDigits, Nat.toDigits_ne_nil]
  rfl

/-! ## Numbers that the format holds -/

theorem twoTo_le_twoTo {a b : Nat} (hle : a ≤ b) : twoTo a ≤ twoTo b :=
  Nat.pow_le_pow_right (by decide) hle

namespace Magnitude

theorem nearestEven_mul {den : Nat} (hden : 0 < den) (k : Nat) : nearestEven (k * den) den = k := by
  have hneither : ¬(den < 2 * (k * den % den) ∨
      den = 2 * (k * den % den) ∧ k * den / den % 2 = 1) := by
    rw [Nat.mul_mod_left]
    omega
  rw [nearestEven, if_neg hneither, Nat.mul_div_cancel k hden]

/-- No bit of a number that the format holds is given up. -/
theorem excess_le {m s : Nat} (hm : m < twoTo 53) : excess (m * twoTo s) 1 ≤ s := by
  have hbound : m * twoTo s < twoTo (53 + s) := by
    rw [twoTo_add]
    exact Nat.mul_lt_mul_of_pos_right hm (twoTo_pos s)
  rw [excess, Nat.div_one]
  by_cases hzero : m * twoTo s = 0
  · rw [hzero]
    exact Nat.zero_le s
  · have hlog := (log2_lt_iff hzero).2 hbound
    omega

/-- A size that the format holds is nearest to itself. -/
theorem nearest_of_representable {n : Nat} (hn : Representable n) :
    nearest n 1 = some ⟨n, hn⟩ := by
  have hrounded : nearestEven n (1 * twoTo (excess n 1)) * twoTo (excess n 1) = n := by
    obtain ⟨m, s, hm, -, rfl⟩ := hn
    have hsplit : m * twoTo s = m * twoTo (s - excess (m * twoTo s) 1) *
        twoTo (excess (m * twoTo s) 1) := by
      rw [Nat.mul_assoc, ← twoTo_add, Nat.sub_add_cancel (excess_le hm)]
    generalize excess (m * twoTo s) 1 = e at hsplit ⊢
    rw [hsplit, Nat.one_mul, nearestEven_mul (twoTo_pos e)]
  have hlimit : n < limit := by
    obtain ⟨m, s, hm, hs, rfl⟩ := hn
    calc m * twoTo s < twoTo 53 * twoTo s := Nat.mul_lt_mul_of_pos_right hm (twoTo_pos s)
      _ = twoTo (53 + s) := (twoTo_add 53 s).symm
      _ ≤ limit := twoTo_le_twoTo (show 53 + s ≤ 2098 by omega)
  unfold nearest
  rw [dif_pos (hrounded.symm ▸ hlimit)]
  simp only [hrounded]

theorem nearest_zero : nearest 0 1 = some zero := nearest_of_representable zero.representable

theorem one_pos : 0 < one := twoTo_pos oneExponent

end Magnitude

namespace Number

theorem ofQuanta_natCast (k : Nat) :
    ofQuanta false (k : Int) = ofSize false (Magnitude.nearest k 1) := by
  by_cases hzero : k = 0
  · subst hzero
    rw [Magnitude.nearest_zero]
    rfl
  · have hpositive : ¬(k : Int) < 0 := Int.not_lt.2 (Int.natCast_nonneg k)
    rw [ofQuanta, if_neg (Int.natCast_ne_zero.2 hzero), decide_eq_false hpositive,
      Int.natAbs_natCast]

/-- The number nearest to a natural number. -/
theorem ofInt_natCast (n : Nat) :
    ofInt n = ofSize false (Magnitude.nearest (n * Magnitude.one) 1) := by
  rw [ofInt, ← Int.natCast_mul, ofQuanta_natCast]

/-- The digits of a natural number are read as the number nearest to it. -/
theorem ofText_repr (n : Nat) : ofText n.repr = ofInt n := by
  rw [ofText, ofText?, Decimal.ofText?_repr, ofInt_natCast, Option.map_some, Option.getD_some,
    Decimal.toNumber]
  dsimp only
  by_cases hzero : n = 0
  · rw [if_pos hzero, hzero, Nat.zero_mul, Magnitude.nearest_zero]
    rfl
  · have hsmall : ¬(0 : Int) + n.log2 < -Decimal.reach := by
      unfold Decimal.reach
      omega
    have hunit : n * tenTo (0 : Int).toNat = n := Nat.mul_one n
    rw [if_neg hzero, if_neg (by decide), if_neg hsmall, if_pos (by decide), hunit]

/-- The format holds the natural number exactly. -/
def Exact (n : Nat) : Prop := (ofInt n).whole? = some (n : Int)

theorem whole?_finite_eq_some_iff {size : Magnitude} {n : Nat} :
    (finite false size).whole? = some (n : Int) ↔ size.quanta = n * Magnitude.one := by
  have hone := Magnitude.one_pos
  simp only [whole?, Bool.false_eq_true, if_false]
  -- The size of the unit does not matter, and is too large to be looked at.
  generalize Magnitude.one = unit at hone ⊢
  constructor
  · intro hwhole
    split at hwhole
    case isTrue hmultiple =>
      have hcount : size.quanta / unit = n := by exact_mod_cast Option.some.inj hwhole
      rw [← hcount, Nat.div_mul_cancel (Nat.dvd_of_mod_eq_zero hmultiple)]
    case isFalse => cases hwhole
  · intro hquanta
    rw [hquanta, Nat.mul_mod_left, if_pos rfl, Nat.mul_div_cancel n hone]

theorem exact_iff {n : Nat} : Exact n ↔ Representable (n * Magnitude.one) := by
  rw [Exact, ofInt_natCast]
  constructor
  · intro hwhole
    cases hnearest : Magnitude.nearest (n * Magnitude.one) 1 with
    | none =>
      rw [hnearest] at hwhole
      cases hwhole
    | some size =>
      rw [hnearest] at hwhole
      rw [← whole?_finite_eq_some_iff.1 hwhole]
      exact size.representable
  · intro hn
    rw [Magnitude.nearest_of_representable hn]
    exact whole?_finite_eq_some_iff.2 rfl

theorem ofInt_of_exact {n : Nat} (hn : Exact n) :
    ofInt n = .finite false ⟨n * Magnitude.one, exact_iff.1 hn⟩ := by
  rw [ofInt_natCast, Magnitude.nearest_of_representable (exact_iff.1 hn), ofSize]

/-- The format holds the natural numbers up to `2 ^ 53`. -/
theorem exact_of_le {n : Nat} (hn : n ≤ twoTo 53) : Exact n := by
  rw [exact_iff]
  rcases Nat.lt_or_eq_of_le hn with hlt | rfl
  · exact ⟨n, Magnitude.oneExponent, hlt, by decide, rfl⟩
  · refine ⟨twoTo 52, Magnitude.oneExponent + 1, by decide, by decide, ?_⟩
    rw [Magnitude.one, ← twoTo_add, ← twoTo_add]
    rfl

/-- An exact count is handed back as it is, up to the limit. -/
theorem toCount_ofInt {n : Nat} (hn : Exact n) (cap : Nat) :
    (ofInt n).toCount cap = Nat.min n cap := by
  rw [ofInt_of_exact hn, toCount, Nat.mul_div_cancel n Magnitude.one_pos]

theorem truncate_ofInt {n : Nat} (hn : Exact n) : (ofInt n).truncate = ofInt n := by
  have hquanta : signed false ⟨n * Magnitude.one, exact_iff.1 hn⟩ = n * Magnitude.one := by
    rw [← Int.natCast_mul]
    rfl
  have hone : (Magnitude.one : Int) ≠ 0 := Int.natCast_ne_zero.2 (Nat.ne_of_gt Magnitude.one_pos)
  conv_lhs => rw [ofInt_of_exact hn]
  rw [truncate, toWhole, hquanta, Int.mul_tdiv_cancel _ hone, ofInt]

theorem lt_ofInt {m n : Nat} (hm : Exact m) (hn : Exact n) :
    (ofInt m).lt (ofInt n) = decide (m < n) := by
  rw [ofInt_of_exact hm, ofInt_of_exact hn, lt, compareBy]
  refine decide_eq_decide.2 ?_
  exact Int.ofNat_lt.trans (Nat.mul_lt_mul_right Magnitude.one_pos)

end Number

end SmallBasic
