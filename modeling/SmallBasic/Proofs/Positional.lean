import SmallBasic.Proofs.Rounding

/-!
# Numbers in positional notation

A finite number is written as a decimal in positional notation, without an exponent. Reading this
text gives the same decimal, up to zeros in place of a positive power of ten, and rounding the
decimal gives the number again: a whole number below `10 ^ 15` is written out in full, and of the
other numbers enough digits are written.

## Main definitions

* `Decimal.expand` — the decimal that is read from the positional notation of a decimal.
* `Number.unsigned` — the number, in which zero has lost its sign.

## Main statements

* `Decimal.ofChars?_toChars` — positional notation is read as the decimal that was written.
* `Number.toNumber_shortest` — the digits that are written are enough.
* `Number.ofText?_toText` — a finite number is read back from its text.
* `Number.isSome_ofText?_toText` — the texts of other numbers are not numbers.
-/

namespace SmallBasic

/-! ## Digits -/

namespace Decimal

theorem digitsValue_append_singleton (ds : List Char) (c : Char) :
    digitsValue (ds ++ [c]) = 10 * digitsValue ds + (c.toNat - '0'.toNat) := by
  rw [digitsValue, List.foldl_append]
  rfl

/-- Zeros at the end of a numeral are a power of ten. -/
theorem digitsValue_append_zeros (ds : List Char) (k : Nat) :
    digitsValue (ds ++ List.replicate k '0') = digitsValue ds * tenTo k := by
  induction k with
  | zero => rw [List.replicate_zero, List.append_nil, show tenTo 0 = 1 from rfl, Nat.mul_one]
  | succ k ih =>
    rw [List.replicate_succ', ← List.append_assoc, digitsValue_append_singleton, ih, tenTo_add,
      show tenTo 1 = 10 from rfl, Nat.sub_self, Nat.add_zero, Nat.mul_comm 10, Nat.mul_assoc]

/-- Zeros in front of a numeral do not count. -/
theorem digitsValue_zeros_append (k : Nat) (ds : List Char) :
    digitsValue (List.replicate k '0' ++ ds) = digitsValue ds := by
  induction k with
  | zero => rfl
  | succ k ih =>
    rw [List.replicate_succ, List.cons_append, ← ih]
    rfl

theorem digitsValue_digits (n : Nat) : digitsValue (digits n) = n := digitsValue_toDigits n

theorem digits_ne_nil (n : Nat) : digits n ≠ [] := Nat.toDigits_ne_nil

theorem isDigit_of_mem_digits {n : Nat} : ∀ c ∈ digits n, isDigit c = true := by
  intro c hc
  obtain ⟨hascii, hdigit⟩ := isDigit_of_mem_toDigits c hc
  exact (isDigit_iff_toNat_lt hdigit).2 hascii

/-! ## Reading positional notation -/

/-- A minus sign, or nothing. -/
def sign (negative : Bool) : List Char := if negative then ['-'] else []

theorem readSign_sign {cs : List Char} (hcs : ∀ c ∈ cs.head?, isDigit c = true) (negative : Bool) :
    readSign (sign negative ++ cs) = (negative, cs) := by
  cases negative with
  | true => rfl
  | false =>
    rw [sign, if_neg Bool.false_ne_true, List.nil_append]
    refine readSign_of_ne fun c hc => ?_
    have hdigit := hcs c hc
    constructor <;> rintro rfl <;> exact absurd hdigit (by decide)

variable {ds fs : List Char} (hds : ∀ c ∈ ds, isDigit c = true)

include hds

theorem head?_append {cs : List Char} (hne : ds ≠ []) :
    ∀ c ∈ (ds ++ cs).head?, isDigit c = true := by
  obtain ⟨d, ds, rfl⟩ := List.exists_cons_of_ne_nil hne
  simpa using hds d List.mem_cons_self

/-- Digits without a point spell a whole number. -/
theorem ofChars?_whole (negative : Bool) (hne : ds ≠ []) :
    ofChars? (sign negative ++ ds) = some ⟨negative, digitsValue ds, 0⟩ := by
  have hhead := @head?_append ds hds [] hne
  rw [List.append_nil] at hhead
  have hspan := span_of_forall_mem hds
  simp only [ofChars?, readSign_sign hhead, hspan, readFraction, readExponent?, hne, false_and,
    if_false, List.append_nil]
  rfl

/-- Digits with a point among them spell a fraction. -/
theorem ofChars?_point (negative : Bool) (hne : ds ≠ []) (hfs : ∀ c ∈ fs, isDigit c = true) :
    ofChars? (sign negative ++ (ds ++ '.' :: fs)) =
      some ⟨negative, digitsValue (ds ++ fs), -(fs.length : Int)⟩ := by
  have hspan : (ds ++ '.' :: fs).span isDigit = (ds, '.' :: fs) := span_append hds (by simp; decide)
  have hfraction := span_of_forall_mem hfs
  simp only [ofChars?, readSign_sign (head?_append hds hne), hspan, readFraction, hfraction,
    readExponent?, hne, false_and, if_false, Option.map_some, Int.zero_sub]

omit hds

/-- The decimal that is read from the positional notation of `d`. A positive power of ten is written
as zeros. -/
def expand (d : Decimal) : Decimal :=
  if 0 ≤ d.exponent then ⟨d.negative, d.coefficient * tenTo d.exponent.toNat, 0⟩ else d

/-- Positional notation is read as the decimal that was written. -/
theorem ofChars?_toChars (d : Decimal) : ofChars? d.toChars = some d.expand := by
  obtain ⟨negative, coefficient, exponent⟩ := d
  have hdigits := @isDigit_of_mem_digits coefficient
  have hzeros : ∀ k, ∀ c ∈ List.replicate k '0', isDigit c = true := by
    intro k c hc
    rw [List.eq_of_mem_replicate hc]
    rfl
  simp only [toChars, expand]
  change ofChars? (sign negative ++ _) = _
  split
  case isTrue =>
    rw [ofChars?_whole (List.forall_mem_append.2 ⟨hdigits, hzeros _⟩) _ (by simp [digits_ne_nil]),
      digitsValue_append_zeros, digitsValue_digits]
  case isFalse hexponent =>
    generalize hplaces : (-exponent).toNat = places
    have hexponent : exponent = -(places : Int) := by omega
    split
    case isTrue hlt =>
      -- The point stands among the digits.
      have hfraction : ((digits coefficient).drop ((digits coefficient).length - places)).length =
          places := by
        rw [List.length_drop]
        omega
      rw [ofChars?_point (fun c hc => hdigits c (List.mem_of_mem_take hc)) _
        (by simp [digits_ne_nil]; omega) (fun c hc => hdigits c (List.mem_of_mem_drop hc)),
        List.take_append_drop, digitsValue_digits, hfraction, hexponent]
    case isFalse hge =>
      -- The point stands in front of the digits, perhaps with zeros after it.
      have hall := List.forall_mem_append.2
        ⟨hzeros (places - (digits coefficient).length), hdigits⟩
      have hfraction : (List.replicate (places - (digits coefficient).length) '0' ++
          digits coefficient).length = places := by
        rw [List.length_append, List.length_replicate]
        omega
      have hvalue : digitsValue (List.replicate 1 '0' ++
          (List.replicate (places - (digits coefficient).length) '0' ++ digits coefficient)) =
            coefficient := by
        rw [digitsValue_zeros_append, digitsValue_zeros_append, digitsValue_digits]
      generalize List.replicate (places - _) '0' ++ digits coefficient = fs at *
      have hread := ofChars?_point (hzeros 1) negative (by simp) hall
      rwa [hvalue, hfraction, ← hexponent] at hread

/-- Positional notation has digits, a sign and a point, and nothing else. -/
theorem mem_toChars {d : Decimal} : ∀ c ∈ d.toChars, isDigit c = true ∨ c = '-' ∨ c = '.' := by
  have hdigits := @isDigit_of_mem_digits d.coefficient
  have htake := fun n c hc => hdigits c (List.mem_of_mem_take (i := n) hc)
  have hdrop := fun n c hc => hdigits c (List.mem_of_mem_drop (i := n) hc)
  have hzero : isDigit '0' = true := rfl
  simp only [toChars]
  split_ifs <;> grind

/-- Positional notation has no blank in it. -/
theorem isBlank_of_mem_toChars {d : Decimal} : ∀ c ∈ d.toChars, isBlank c = false := by
  intro c hc
  rcases mem_toChars c hc with hdigit | rfl | rfl
  · rw [isDigit_iff] at hdigit
    simp [isBlank]
    omega
  · decide
  · decide

theorem ofText?_toChars (d : Decimal) : ofText? (String.ofList d.toChars) = some d.expand := by
  rw [ofText?, String.toList_ofList, trim_of_not_blank isBlank_of_mem_toChars, ofChars?_toChars]

/-! ## Rounding decimals -/

variable {d : Decimal} {negative : Bool} {size : Magnitude}

/-- The nearest number to a whole number. -/
theorem toNumber_whole (negative : Bool) (n : Nat) :
    (⟨negative, n, 0⟩ : Decimal).toNumber =
      .ofSize negative (Magnitude.nearest (n * Magnitude.one) 1) := by
  have hunit : n * tenTo (0 : Int).toNat = n := Nat.mul_one n
  have hsmall : ¬(0 : Int) + n.log2 < -reach := by
    unfold reach
    omega
  simp only [toNumber, hunit, hsmall, show ¬reach < 0 by decide, if_false, Int.le_refl, if_true]
  split
  case isTrue hzero =>
    rw [hzero, Nat.zero_mul, Magnitude.nearest_zero]
    rfl
  case isFalse => rfl

/-- The sign of a decimal is the sign of the number. -/
theorem toNumber_withSign (hd : d.toNumber = .finite negative size) (other : Bool) :
    ({ d with negative := other } : Decimal).toNumber = .finite other size := by
  have hsize : ∀ size? : Option Magnitude,
      Number.ofSize d.negative size? = .finite negative size →
        Number.ofSize other size? = .finite other size := by
    rintro (_ | found) hfound
    · cases hfound
    · cases hfound
      rfl
  simp only [toNumber] at hd ⊢
  split_ifs at hd ⊢
  · cases hd
    rfl
  · cases hd
    rfl
  · exact hsize _ hd
  · exact hsize _ hd

/-- A finite number does not change when its decimal is written out. -/
theorem toNumber_expand (hd : d.toNumber = .finite negative size) :
    d.expand.toNumber = .finite negative size := by
  rw [expand]
  split
  case isFalse => exact hd
  case isTrue hexponent =>
    rw [toNumber_whole]
    simp only [toNumber, if_pos hexponent] at hd
    split_ifs at hd with hzero hinfinite hsmall
    · rw [hzero, Nat.zero_mul, Nat.zero_mul, Magnitude.nearest_zero]
      exact hd
    · unfold reach at hsmall
      omega
    · exact hd

end Decimal

theorem tenTo_eq (k : Nat) : tenTo k = Nat.pow 5 k * twoTo k := Nat.mul_pow 5 2 k

/-- A power of five has more than twice as many bits as its exponent says. -/
theorem le_log2_mul_pow {n : Nat} (hn : n ≠ 0) (k : Nat) : 2 * k ≤ (n * Nat.pow 5 k).log2 := by
  have hfive : 0 < Nat.pow 5 k := Nat.pow_pos (by decide)
  rw [le_log2_iff (Nat.mul_ne_zero hn (Nat.ne_of_gt hfive))]
  calc twoTo (2 * k) = Nat.pow 4 k := Nat.pow_mul 2 2 k
    _ ≤ Nat.pow 5 k := Nat.pow_le_pow_left (by decide) k
    _ ≤ n * Nat.pow 5 k := Nat.le_mul_of_pos_left _ (Nat.pos_of_ne_zero hn)

namespace Magnitude

theorem eq_zero_of_quanta {size : Magnitude} (hsize : size.quanta = 0) : size = zero := by
  obtain ⟨quanta, hquanta⟩ := size
  subst hsize
  rfl

end Magnitude

namespace Number

variable {negative : Bool} {size : Magnitude}

/-! ## The digits of a number -/

/-- A quantum is `5 ^ k` units of the `k`th decimal place, if it is `2 ^ -k`. The powers are too
large to be looked at. -/
theorem toNumber_places {k : Nat} (hunit : Magnitude.one = twoTo k) (hk : 400 ≤ k)
    (hsize : size.quanta ≠ 0) :
    (⟨false, size.quanta * Nat.pow 5 k, -(k : Int)⟩ : Decimal).toNumber = .finite false size := by
  have hlarge := le_log2_mul_pow hsize k
  have hnearest := Magnitude.nearest_mul (tenTo_pos k) size.representable
  rw [tenTo_eq, ← Nat.mul_assoc, ← tenTo_eq, ← hunit] at hnearest
  have hcoefficient : size.quanta * Nat.pow 5 k ≠ 0 :=
    Nat.mul_ne_zero hsize (Nat.ne_of_gt (Nat.pow_pos (by decide)))
  generalize size.quanta * Nat.pow 5 k = coefficient at *
  have hexponent : ¬(0 : Int) ≤ -(k : Int) := by omega
  have hreach : ¬Decimal.reach < -(k : Int) := by
    unfold Decimal.reach
    omega
  have hwithin : ¬-(k : Int) + coefficient.log2 < -Decimal.reach := by
    unfold Decimal.reach
    omega
  rw [Decimal.toNumber]
  dsimp only
  rw [if_neg hcoefficient, if_neg hreach, if_neg hwithin, if_neg hexponent, Int.neg_neg,
    Int.toNat_natCast, hnearest, ofSize]

theorem toNumber_of_coefficient {d : Decimal} (hd : d.coefficient = 0) :
    d.toNumber = .finite d.negative Magnitude.zero := if_pos hd

/-- All the digits of a size spell it exactly. -/
theorem toNumber_exactDecimal (size : Magnitude) :
    (exactDecimal size).toNumber = .finite false size := by
  by_cases hzero : size.quanta = 0
  · have hnothing : (exactDecimal size).coefficient = 0 := by
      rw [exactDecimal, hzero, Nat.zero_mul]
    rw [toNumber_of_coefficient hnothing, ← Magnitude.eq_zero_of_quanta hzero, exactDecimal]
  · exact toNumber_places rfl (by decide) hzero

/-- The digits that are written are enough. -/
theorem toNumber_shortest (size : Magnitude) : (shortest size).toNumber = .finite false size := by
  unfold shortest
  dsimp only
  cases hfound : (List.range 21).findSome? fun places : Nat =>
      readsBack? size (tensAbove size - (places : Int)) with
  | none => exact toNumber_exactDecimal size
  | some d =>
    obtain ⟨places, -, hplaces⟩ := List.exists_of_findSome?_eq_some hfound
    simpa using List.find?_some hplaces

/-! ## Numbers as texts -/

/-- The number, in which zero has lost its sign. -/
def unsigned (x : Number) : Number := if x.isZero then .zero false else x

theorem isZero_finite_iff : (finite negative size).isZero = true ↔ size.quanta = 0 := by
  cases negative <;> simp [isZero, rank?, signed]

theorem unsigned_finite_of_zero (hsize : size.quanta = 0) :
    unsigned (.finite negative size) = .zero false := if_pos (isZero_finite_iff.2 hsize)

theorem unsigned_finite (hsize : size.quanta ≠ 0) :
    unsigned (.finite negative size) = .finite negative size :=
  if_neg fun hzero => hsize (isZero_finite_iff.1 hzero)

/-- A whole number is its size, with its sign unless it is zero. -/
theorem eq_of_whole? {z : Int} (hwhole : (finite negative size).whole? = some z) :
    size.quanta = z.natAbs * Magnitude.one ∧ (z ≠ 0 → decide (z < 0) = negative) := by
  simp only [whole?] at hwhole
  split at hwhole
  case isFalse => cases hwhole
  case isTrue hmultiple =>
    have hquanta := Nat.div_mul_cancel (Nat.dvd_of_mod_eq_zero hmultiple)
    generalize size.quanta / Magnitude.one = k at *
    obtain rfl := Option.some.inj hwhole
    have habs : (if negative = true then -(k : Int) else k).natAbs = k := by split <;> omega
    refine ⟨by rw [habs, hquanta], ?_⟩
    cases negative <;> simp
    omega

/-- The text of a whole number is its sign and its digits. -/
theorem ofText?_intText (z : Int) :
    ofText? (intText z) =
      some (ofSize (decide (z < 0)) (Magnitude.nearest (z.natAbs * Magnitude.one) 1)) := by
  rw [ofText?, intText, Decimal.ofText?_toChars, Option.map_some, ← Decimal.toNumber_whole]
  simp [Decimal.expand, tenTo]

/-- A finite number is read back from its text. Zero loses its sign. -/
theorem ofText?_toText (negative : Bool) (size : Magnitude) :
    ofText? (finite negative size).toText = some (unsigned (.finite negative size)) := by
  have hdigits : size.quanta ≠ 0 →
      ofText? (String.ofList ({ shortest size with negative } : Decimal).toChars) =
        some (unsigned (.finite negative size)) := by
    intro hsize
    have hsigned := Decimal.toNumber_withSign (toNumber_shortest size) negative
    rw [ofText?, Decimal.ofText?_toChars, Option.map_some, Decimal.toNumber_expand hsigned,
      unsigned_finite hsize]
  cases hwhole : (finite negative size).whole? with
  | none =>
    simp only [toText, hwhole]
    refine hdigits fun hzero => ?_
    simp [whole?, hzero] at hwhole
  | some z =>
    simp only [toText, hwhole]
    obtain ⟨hquanta, hsign⟩ := eq_of_whole? hwhole
    split
    case isFalse hlarge =>
      refine hdigits fun hzero => hlarge ?_
      rw [hzero, eq_comm, Nat.mul_eq_zero] at hquanta
      rw [hquanta.resolve_right (Nat.ne_of_gt Magnitude.one_pos)]
      decide
    case isTrue =>
      rw [ofText?_intText, ← hquanta, Magnitude.nearest_of_representable size.representable]
      by_cases hz : z = 0
      · have hzero : size.quanta = 0 := by rw [hquanta, hz, Int.natAbs_zero, Nat.zero_mul]
        rw [unsigned_finite_of_zero hzero, hz]
        exact congrArg (some <| finite false ·) (Magnitude.eq_zero_of_quanta hzero)
      · have hsize : size.quanta ≠ 0 := by
          rw [hquanta]
          exact Nat.mul_ne_zero (Int.natAbs_ne_zero.2 hz) (Nat.ne_of_gt Magnitude.one_pos)
        rw [hsign hz, unsigned_finite hsize]
        rfl

/-- The text of a finite number has digits, a sign and a point, and nothing else. -/
theorem mem_toText (negative : Bool) (size : Magnitude) :
    ∀ c ∈ (finite negative size).toText.toList,
      Decimal.isDigit c = true ∨ c = '-' ∨ c = '.' := by
  simp only [toText, intText]
  split
  · split
    all_goals
      rw [String.toList_ofList]
      exact Decimal.mem_toChars
  · rw [String.toList_ofList]
    exact Decimal.mem_toChars

/-- Whether a number is neither infinite nor undefined. -/
def isFinite : Number → Bool
  | .finite _ _ => true
  | _ => false

/-- The texts of the finite numbers are numbers, and those of the other numbers are not. -/
theorem isSome_ofText?_toText (x : Number) : (ofText? x.toText).isSome = x.isFinite := by
  cases x with
  | finite negative size =>
    rw [ofText?_toText]
    rfl
  | infinite negative => cases negative <;> decide +kernel
  | undefined => decide +kernel

end Number

end SmallBasic
