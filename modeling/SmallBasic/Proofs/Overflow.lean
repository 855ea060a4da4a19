import SmallBasic.Proofs.Intake
import SmallBasic.Proofs.Positional

/-!
# Overflow

The numbers that a program computes or reads are stored as texts. As long as the exact result is in
range, the text is that of a finite number and is read as this number again. A result that is out of
range is infinite or undefined, and its text spells no number: an addition to it is a concatenation,
and the other operators take it for zero.

## Main definitions

* `Operator.number?` — the number that an operator computes.
* `Operator.inRange`, `Decimal.inRange` — whether the exact result is rounded to a finite number.
* `Library.entered?` — the number that is read from the console.
* `IsResult` — the texts that are computed or entered, with their numbers.

## Main statements

* `Operator.isFinite_of_number?` — the results in range are the finite ones.
* `Decimal.isFinite_toNumber` — the decimals in range are the ones of finite numbers.
* `numbers_in_range` — what is computed or entered is a number again exactly if it is in range.
-/

namespace SmallBasic

/-! ## Finite results -/

namespace Number

variable {a b : Bool} {x y : Magnitude} {num den : Nat}

/-- The text of a number is read as the number if it is finite, and spells no number otherwise. -/
theorem ofText?_toText_eq (x : Number) :
    ofText? x.toText = if x.isFinite then some x.unsigned else none := by
  cases hfinite : x.isFinite with
  | false =>
    have hnone := isSome_ofText?_toText x
    rw [hfinite, Option.isSome_eq_false_iff, Option.isNone_iff_eq_none] at hnone
    simpa using hnone
  | true =>
    cases x with
    | finite negative size => exact ofText?_toText negative size
    | infinite | undefined => cases hfinite

theorem isFinite_ofSize (negative : Bool) (hden : 0 < den) :
    (ofSize negative (Magnitude.nearest num den)).isFinite =
      decide (num < Magnitude.overflow * den) := by
  rw [Bool.eq_iff_iff, decide_eq_true_iff, ← Nat.not_le, ← Magnitude.nearest_eq_none_iff hden]
  cases Magnitude.nearest num den <;> simp [ofSize, isFinite]

theorem isFinite_ofQuanta (negativeZero : Bool) (z : Int) :
    (ofQuanta negativeZero z).isFinite = decide (z.natAbs < Magnitude.overflow) := by
  rw [ofQuanta]
  split
  case isTrue hzero =>
    rw [hzero]
    exact (decide_eq_true (Nat.mul_pos (by decide) (twoTo_pos _))).symm
  case isFalse => rw [isFinite_ofSize _ Nat.one_pos, Nat.mul_one]

theorem isZero_infinite (negative : Bool) : (infinite negative).isZero = false := by
  have hlimit : (Magnitude.limit : Int) ≠ 0 :=
    Int.natCast_ne_zero.2 (Nat.ne_of_gt (twoTo_pos Magnitude.limitExponent))
  cases negative
  case false => exact beq_eq_false_iff_ne.2 fun hzero => hlimit (Option.some.inj hzero)
  case true =>
    exact beq_eq_false_iff_ne.2 fun hzero => hlimit (Int.neg_eq_zero.1 (Option.some.inj hzero))

theorem isFinite_add :
    ((finite a x).add (finite b y)).isFinite =
      decide ((signed a x + signed b y).natAbs < Magnitude.overflow) :=
  isFinite_ofQuanta _ _

theorem isFinite_sub :
    ((finite a x).sub (finite b y)).isFinite =
      decide ((signed a x - signed b y).natAbs < Magnitude.overflow) := by
  have hneg : signed (!b) y = -signed b y := by cases b <;> simp [signed]
  rw [sub, neg, isFinite_add, hneg, Int.sub_eq_add_neg]

theorem isFinite_mul :
    ((finite a x).mul (finite b y)).isFinite =
      decide (x.quanta * y.quanta < Magnitude.overflow * Magnitude.one) := by
  rw [mul, isFinite_ofSize _ Magnitude.one_pos]

theorem isFinite_div (hdivisor : y.quanta ≠ 0) :
    ((finite a x).div (finite b y)).isFinite =
      decide (x.quanta * Magnitude.one < Magnitude.overflow * y.quanta) := by
  rw [div, if_neg hdivisor, isFinite_ofSize _ (Nat.pos_of_ne_zero hdivisor)]

end Number

namespace Operator

/-- The number that an operator computes from two texts. Concatenations and truth values are not
numbers. -/
def number? (op : Operator) (left right : String) : Option Number :=
  match op with
  | .add => do (← Number.ofText? left).add (← Number.ofText? right)
  | .sub => some ((Number.ofText left).sub (Number.ofText right))
  | .mul => some ((Number.ofText left).mul (Number.ofText right))
  | .div =>
    some (if (Number.ofText right).isZero then .zero false
      else (Number.ofText left).div (Number.ofText right))
  | _ => none

/-- Whether arithmetic has an exact result and this is below the overflow. Division by zero gives
zero, and a finite number divided by an infinite one gives zero as well. -/
def inRange (op : Operator) : Number → Number → Bool
  | .finite a x, .finite b y =>
    match op with
    | .add => (Number.signed a x + Number.signed b y).natAbs < Magnitude.overflow
    | .sub => (Number.signed a x - Number.signed b y).natAbs < Magnitude.overflow
    | .mul => x.quanta * y.quanta < Magnitude.overflow * Magnitude.one
    | .div => y.quanta = 0 || x.quanta * Magnitude.one < Magnitude.overflow * y.quanta
    | _ => false
  | .finite _ _, .infinite _ => op = .div
  | _, y => op = .div && y.isZero

theorem isFinite_add : ∀ x y : Number, (x.add y).isFinite = inRange .add x y
  | .finite _ _, .finite _ _ => Number.isFinite_add
  | .infinite a, .infinite b => by cases a <;> cases b <;> rfl
  | .infinite _, .finite _ _ | .finite _ _, .infinite _ => rfl
  | .undefined, y => by cases y <;> rfl
  | .finite _ _, .undefined | .infinite _, .undefined => rfl

theorem isFinite_sub : ∀ x y : Number, (x.sub y).isFinite = inRange .sub x y
  | .finite _ _, .finite _ _ => Number.isFinite_sub
  | .infinite a, .infinite b => by cases a <;> cases b <;> rfl
  | .infinite _, .finite _ _ | .finite _ _, .infinite _ => rfl
  | .undefined, y => by cases y <;> rfl
  | .finite _ _, .undefined | .infinite _, .undefined => rfl

theorem isFinite_mul : ∀ x y : Number, (x.mul y).isFinite = inRange .mul x y
  | .finite _ _, .finite _ _ => Number.isFinite_mul
  | .infinite _, .infinite _ => rfl
  | .infinite _, .finite _ _ | .finite _ _, .infinite _ => by
    rw [Number.mul]
    split <;> rfl
  | .undefined, y => by cases y <;> rfl
  | .finite _ _, .undefined | .infinite _, .undefined => rfl

theorem isFinite_div : ∀ x y : Number,
    (if y.isZero then .zero false else x.div y).isFinite = inRange .div x y
  | .finite a x, .finite b y => by
    by_cases hzero : y.quanta = 0
    · rw [if_pos (Number.isZero_finite_iff.2 hzero)]
      simp [inRange, hzero, Number.zero, Number.isFinite]
    · rw [if_neg (mt Number.isZero_finite_iff.1 hzero), Number.isFinite_div hzero]
      simp [inRange, hzero]
  | .finite _ _, .infinite b => by
    rw [Number.isZero_infinite]
    rfl
  | .finite _ _, .undefined => rfl
  | .infinite _, y | .undefined, y => by
    cases hzero : y.isZero
    · cases y <;> simp [inRange, hzero, Number.div, Number.isFinite]
    · simp [inRange, hzero, Number.zero, Number.isFinite]

variable {op : Operator} {left right : String} {x : Number}

/-- Subtraction, multiplication and division compute a number from any texts, and addition does from
texts of numbers. -/
theorem exists_number? (hop : op.isComparator = false)
    (hadd : op = .add →
      (Number.ofText? left).isSome = true ∧ (Number.ofText? right).isSome = true) :
    ∃ x, op.number? left right = some x := by
  cases op with
  | add =>
    obtain ⟨hleft, hright⟩ := hadd rfl
    obtain ⟨a, ha⟩ := Option.isSome_iff_exists.1 hleft
    obtain ⟨b, hb⟩ := Option.isSome_iff_exists.1 hright
    exact ⟨a.add b, by simp [number?, ha, hb]⟩
  | sub | mul | div => exact ⟨_, rfl⟩
  | _ => cases hop

theorem exists_of_number?_add (hnumber : number? .add left right = some x) :
    ∃ a b, Number.ofText? left = some a ∧ Number.ofText? right = some b ∧ a.add b = x := by
  obtain ⟨a, ha, hsum⟩ := Option.bind_eq_some_iff.1 hnumber
  obtain ⟨b, hb, hsum⟩ := Option.bind_eq_some_iff.1 hsum
  exact ⟨a, b, ha, hb, Option.some.inj hsum⟩

/-- The text of an operator is that of the number it computes. -/
theorem apply_of_number? (hnumber : op.number? left right = some x) :
    op.apply left right = x.toText := by
  cases op with
  | add =>
    obtain ⟨a, b, ha, hb, rfl⟩ := exists_of_number?_add hnumber
    simp only [apply, addition, ha, hb]
  | sub | mul =>
    obtain rfl := Option.some.inj hnumber
    rfl
  | div =>
    obtain rfl := Option.some.inj hnumber
    rw [apply, division]
    split
    · decide +kernel
    · rfl
  | _ => cases hnumber

/-- The finite results are the ones in range. -/
theorem isFinite_of_number? (hnumber : op.number? left right = some x) :
    x.isFinite = op.inRange (Number.ofText left) (Number.ofText right) := by
  cases op with
  | add =>
    obtain ⟨a, b, ha, hb, rfl⟩ := exists_of_number?_add hnumber
    simp only [Number.ofText, ha, hb, Option.getD_some, isFinite_add]
  | sub => rw [← Option.some.inj hnumber, isFinite_sub]
  | mul => rw [← Option.some.inj hnumber, isFinite_mul]
  | div => rw [← Option.some.inj hnumber, isFinite_div]
  | _ => cases hnumber

end Operator

/-! ## Entered numbers -/

theorem twoTo_le_tenTo (k : Nat) : twoTo (3 * k) ≤ tenTo k := by
  rw [twoTo, tenTo, show Nat.pow 2 (3 * k) = Nat.pow 8 k from Nat.pow_mul 2 3 k]
  exact Nat.pow_le_pow_left (by decide) k

namespace Magnitude

theorem overflow_pos : 0 < overflow := Nat.mul_pos (by decide) (twoTo_pos _)

theorem overflow_lt : overflow < twoTo 2098 := by
  rw [overflow, show twoTo 2098 = twoTo 54 * twoTo 2044 from twoTo_add 54 2044]
  exact Nat.mul_lt_mul_of_pos_right (by decide) (twoTo_pos 2044)

theorem one_lt_overflow : one < overflow := by
  rw [overflow]
  calc one < twoTo 2044 := twoTo_lt_twoTo_iff.2 (by decide)
    _ ≤ (twoTo 54 - 1) * twoTo 2044 := Nat.le_mul_of_pos_left _ (by decide)

end Magnitude

namespace Decimal

variable {coefficient places : Nat}

/-- A power of ten that is out of reach is past the overflow. -/
theorem overflow_le_of_reach_lt (hcoefficient : coefficient ≠ 0) (hplaces : 400 < places) :
    Magnitude.overflow ≤ coefficient * tenTo places * Magnitude.one := by
  calc Magnitude.overflow ≤ twoTo 2098 := Nat.le_of_lt Magnitude.overflow_lt
    _ ≤ twoTo (3 * places + Magnitude.oneExponent) :=
      twoTo_le_twoTo (by unfold Magnitude.oneExponent; omega)
    _ = twoTo (3 * places) * Magnitude.one := twoTo_add _ _
    _ ≤ coefficient * tenTo places * Magnitude.one := by
      refine Nat.mul_le_mul_right _ ((twoTo_le_tenTo places).trans ?_)
      exact Nat.le_mul_of_pos_left _ (Nat.pos_of_ne_zero hcoefficient)

/-- A number with fewer bits than places after the point is below one. -/
theorem lt_tenTo_of_log2_lt (hcoefficient : coefficient ≠ 0) (hlog : coefficient.log2 < places) :
    coefficient < tenTo places :=
  calc coefficient < twoTo places := (log2_lt_iff hcoefficient).1 hlog
    _ ≤ twoTo (3 * places) := twoTo_le_twoTo (by omega)
    _ ≤ tenTo places := twoTo_le_tenTo places

/-- A whole number may be out of reach, and then it is infinite. -/
theorem isFinite_toNumber_whole (negative : Bool) (hcoefficient : coefficient ≠ 0) :
    (⟨negative, coefficient, places⟩ : Decimal).toNumber.isFinite =
      decide (coefficient * tenTo places * Magnitude.one < Magnitude.overflow) := by
  have hwithin : ¬(places : Int) + coefficient.log2 < -reach := by
    unfold reach
    omega
  rw [toNumber, if_neg hcoefficient]
  dsimp only
  rw [if_neg hwithin, if_pos (Int.natCast_nonneg places), Int.toNat_natCast]
  split
  case isTrue hlarge =>
    have hpast : Magnitude.overflow ≤ coefficient * tenTo places * Magnitude.one :=
      overflow_le_of_reach_lt hcoefficient (by unfold reach at hlarge; omega)
    rw [decide_eq_false (Nat.not_lt.2 hpast)]
    rfl
  case isFalse => rw [Number.isFinite_ofSize _ Nat.one_pos, Nat.mul_one]

/-- A fraction may be so small that it is zero. -/
theorem isFinite_toNumber_fraction (negative : Bool) (hcoefficient : coefficient ≠ 0) :
    (⟨negative, coefficient, -(places : Int)⟩ : Decimal).toNumber.isFinite =
      decide (coefficient * Magnitude.one < Magnitude.overflow * tenTo places) := by
  have hzeros : tenTo 0 = 1 := rfl
  have hreach : ¬reach < -(places : Int) := by
    unfold reach
    omega
  rw [toNumber, if_neg hcoefficient]
  dsimp only
  rw [if_neg hreach, Int.neg_neg, Int.toNat_natCast]
  split
  case isTrue hsmall =>
    have hbelow : coefficient < tenTo places :=
      lt_tenTo_of_log2_lt hcoefficient (by unfold reach at hsmall; omega)
    have hrange : coefficient * Magnitude.one < Magnitude.overflow * tenTo places := by
      rw [Nat.mul_comm Magnitude.overflow]
      exact Nat.mul_lt_mul'' hbelow Magnitude.one_lt_overflow
    rw [decide_eq_true hrange]
    rfl
  case isFalse =>
    split
    case isTrue hwhole =>
      obtain rfl : places = 0 := by omega
      rw [Int.toNat_neg_natCast, hzeros, Number.isFinite_ofSize _ Nat.one_pos, Nat.mul_one]
    case isFalse => rw [Number.isFinite_ofSize _ (tenTo_pos _)]

/-- Whether the decimal is below the overflow. -/
def inRange (d : Decimal) : Bool :=
  d.coefficient * tenTo d.exponent.toNat * Magnitude.one <
    Magnitude.overflow * tenTo (-d.exponent).toNat

/-- The decimals in range are the ones of finite numbers. -/
theorem isFinite_toNumber (d : Decimal) : d.toNumber.isFinite = d.inRange := by
  obtain ⟨negative, coefficient, exponent⟩ := d
  have hzeros : tenTo 0 = 1 := rfl
  by_cases hzero : coefficient = 0
  · have hbelow := Nat.mul_pos Magnitude.overflow_pos (tenTo_pos (-exponent).toNat)
    rw [toNumber, if_pos hzero, inRange, hzero, Nat.zero_mul, Nat.zero_mul, decide_eq_true hbelow]
    rfl
  obtain ⟨places, rfl | rfl⟩ := exponent.eq_nat_or_neg
  · rw [isFinite_toNumber_whole negative hzero, inRange, Int.toNat_natCast, Int.toNat_neg_natCast,
      hzeros, Nat.mul_one]
  · rw [isFinite_toNumber_fraction negative hzero, inRange, Int.neg_neg, Int.toNat_natCast,
      Int.toNat_neg_natCast, hzeros, Nat.mul_one]

end Decimal

namespace Library

variable {lib next : Library} {answer : String}

/-- The number that is entered: the first line that spells one. -/
def entered? (lib : Library) : Option Decimal := lib.console.pending.findSome? Decimal.ofText?

/-- What is read is the number that is entered, or zero at the end of input. -/
theorem readNumber_entered (hread : lib.readNumber = (.ready answer, next)) :
    answer = ((lib.entered?.map Decimal.toNumber).getD (.zero false)).toText := by
  have hskipped : lib.skipped.findSome? Decimal.ofText? = none := by
    rw [List.findSome?_eq_none_iff]
    intro line hline
    exact Option.map_eq_none_iff.1 (ofText?_of_mem_skipped hline)
  rw [entered?]
  rcases readNumber_ready hread with ⟨line, number, hsplit, hnumber, rfl⟩ | ⟨hsplit, -, rfl⟩
  · obtain ⟨decimal, hdecimal, rfl⟩ := Option.map_eq_some_iff.1 hnumber
    rw [hsplit, List.findSome?_append, hskipped, Option.none_or, List.findSome?_cons, hdecimal]
    rfl
  · rw [hsplit, hskipped]
    decide +kernel

end Library

/-! ## Results that are computed with -/

/-- A text that is computed or entered: the result of an operator, of an addition only if both texts
are those of numbers, or what is read from any lines. With it go the number that it stands for,
which is zero if there was no line to enter, and whether this number is in range. -/
inductive IsResult : String → Option Number → Bool → Prop
  | computed {op : Operator} {left right : String} (hop : op.isComparator = false)
      (hadd : op = .add →
        (Number.ofText? left).isSome = true ∧ (Number.ofText? right).isSome = true) :
      IsResult (op.apply left right) (op.number? left right)
        (op.inRange (.ofText left) (.ofText right))
  | entered {lib next : Library} {answer : String} {resumed : Bool}
      (hread : lib.call? (.window .readNumber) [] resumed = some (.ready answer, next)) :
      IsResult answer (some ((lib.entered?.map Decimal.toNumber).getD (.zero false)))
        ((lib.entered?.map Decimal.inRange).getD true)

variable {text : String} {number : Option Number} {inRange : Bool}

/-- A result is the text of a number, which is finite exactly if it is in range. -/
theorem IsResult.exists_number (hresult : IsResult text number inRange) :
    ∃ x, number = some x ∧ text = x.toText ∧ x.isFinite = inRange := by
  cases hresult with
  | computed hop hadd =>
    obtain ⟨x, hnumber⟩ := Operator.exists_number? hop hadd
    exact ⟨x, hnumber, Operator.apply_of_number? hnumber, Operator.isFinite_of_number? hnumber⟩
  | @entered lib _ _ _ hread =>
    refine ⟨_, rfl, Library.readNumber_entered (Option.some.inj hread), ?_⟩
    cases lib.entered? with
    | none => rfl
    | some d =>
      rw [Option.map_some, Option.map_some, Option.getD_some, Option.getD_some,
        Decimal.isFinite_toNumber]

/-- A text that spells no number is appended by an addition. -/
theorem Operator.add_apply_of_none (htext : Number.ofText? text = none) (other : String) :
    Operator.add.apply text other = text ++ other ∧
      Operator.add.apply other text = other ++ text := by
  cases hother : Number.ofText? other <;> simp [apply, addition, htext, hother]

/-- A text that spells no number is taken for zero by the operators that do not concatenate. -/
theorem Operator.apply_of_none {op : Operator} (hop : op ∈ [Operator.sub, .mul, .div])
    (htext : Number.ofText? text = none) (other : String) :
    op.apply text other = op.apply "0" other ∧ op.apply other text = op.apply other "0" := by
  have hzero : Number.ofText "0" = .zero false := by decide +kernel
  have hread : Number.ofText text = Number.ofText "0" := by
    rw [hzero, Number.ofText, htext, Option.getD_none]
  simp only [List.mem_cons, List.not_mem_nil, or_false] at hop
  obtain rfl | rfl | rfl := hop <;> simp only [apply, division, hread, and_self]

/-- What is computed or entered is a number again exactly if it is in range, and then its text is
read as this number. The text of a result out of range spells no number: `+` concatenates to it, and
the other operators take it for zero. -/
theorem numbers_in_range (hresult : IsResult text number inRange) :
    (∃ x, number = some x ∧ Number.ofText? text = if inRange then some x.unsigned else none) ∧
      (inRange = false → ∀ other,
        (Operator.add.apply text other = text ++ other ∧
          Operator.add.apply other text = other ++ text) ∧
        ∀ op ∈ [Operator.sub, .mul, .div],
          op.apply text other = op.apply "0" other ∧ op.apply other text = op.apply other "0") := by
  obtain ⟨x, hnumber, htext, hfinite⟩ := hresult.exists_number
  have hread : Number.ofText? text = if inRange then some x.unsigned else none := by
    rw [htext, Number.ofText?_toText_eq, hfinite]
  refine ⟨⟨x, hnumber, hread⟩, fun hpast other => ?_⟩
  have hnone : Number.ofText? text = none := hread.trans (if_neg (Bool.eq_false_iff.1 hpast))
  exact ⟨Operator.add_apply_of_none hnone other,
    fun op hop => Operator.apply_of_none hop hnone other⟩

/-- A sum that is close to the end of the range is still a number. A product past it is none, and
neither is a line with too large a number, to which an addition appends. -/
theorem numbers_in_range_powers :
    Number.ofText? (Operator.add.apply "1e308" "1e307") = some (.ofText "11e307") ∧
      Number.ofText? (Operator.mul.apply "1e308" "10") = none ∧
      ∃ answer next, Library.call? { console := { pending := ["?", "1e999"] } }
          (.window .readNumber) [] false = some (.ready answer, next) ∧
        Operator.add.apply answer "1" = answer ++ "1" := by
  have hsum : IsResult (Operator.add.apply "1e308" "1e307") (some (.ofText "11e307")) true := by
    have hexact : Operator.number? .add "1e308" "1e307" = some (.ofText "11e307") := by
      decide +kernel
    have hwithin : Operator.inRange .add (.ofText "1e308") (.ofText "1e307") = true := by
      decide +kernel
    rw [← hexact, ← hwithin]
    exact .computed rfl fun _ => by decide +kernel
  have hproduct : IsResult (Operator.mul.apply "1e308" "10")
      (Operator.number? .mul "1e308" "10") false := by
    have hpast : Operator.inRange .mul (.ofText "1e308") (.ofText "10") = false := by
      decide +kernel
    rw [← hpast]
    exact .computed rfl (fun hadd => by cases hadd)
  refine ⟨?_, ?_, ?_⟩
  · obtain ⟨⟨x, hx, hread⟩, -⟩ := numbers_in_range hsum
    rw [hread, ← Option.some.inj hx, if_pos rfl]
    decide +kernel
  · obtain ⟨⟨x, -, hread⟩, -⟩ := numbers_in_range hproduct
    rw [hread, if_neg Bool.false_ne_true]
  · obtain ⟨⟨outcome, next⟩, hread, rfl⟩ := Option.map_eq_some_iff.1
      (show (Library.call? { console := { pending := ["?", "1e999"] } } (.window .readNumber) []
        false).map Prod.fst = some (.ready "inf") by decide +kernel)
    have hpast : ((Library.entered? { console := { pending := ["?", "1e999"] } }).map
        Decimal.inRange).getD true = false := by
      decide +kernel
    exact ⟨_, next, hread, ((numbers_in_range (.entered hread)).2 hpast "1").1.1⟩

/-- The product of two numbers need not be one: an addition to it concatenates, and a subtraction
takes it for zero. -/
theorem product_is_no_number :
    Number.ofText? "1e308" = some (.ofText "1e308") ∧ Number.ofText? "10" = some (.ofText "10") ∧
      Number.ofText? (Operator.mul.apply "1e308" "10") = none ∧
      Operator.add.apply (Operator.mul.apply "1e308" "10") "0" = "inf0" ∧
      Operator.sub.apply (Operator.mul.apply "1e308" "10") "0" = "0" := by
  decide +kernel

end SmallBasic
