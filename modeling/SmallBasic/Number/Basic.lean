import SmallBasic.Number.Magnitude

/-!
# Numbers

The numbers that a program computes with: the binary64 format, whose operations give the exact
result rounded to the nearest number, ties to even. A finite number is a sign and a `Magnitude`,
so arithmetic is integer arithmetic on quanta followed by one rounding.

## Main definitions

* `Number` — finite numbers, the two infinities, and the undefined result.
* `Number.add`, `Number.sub`, `Number.mul`, `Number.div`, `Number.remainder` — arithmetic.
* `Number.rank?` — the place of a number on the line of integers, in quanta; it decides the order.
* `Number.floor`, `Number.ceiling`, `Number.round`, `Number.truncate` — whole neighbours.
* `Number.ofBits`, `Number.toBits` — the 64-bit encoding.
-/

namespace SmallBasic

/-- A binary64 number. Zero has a sign; it shows only in the encoding. -/
inductive Number where
  | finite (negative : Bool) (size : Magnitude)
  | infinite (negative : Bool)
  | undefined
deriving DecidableEq

namespace Number

instance : Inhabited Number := ⟨.finite false .zero⟩

/-- Zero with the given sign. -/
def zero (negative : Bool) : Number := .finite negative .zero

/-- A rounded size with its sign; a size past the end of the format is infinite. -/
def ofSize (negative : Bool) : Option Magnitude → Number
  | some size => .finite negative size
  | none => .infinite negative

/-- The number nearest to `z` quanta. `negativeZero` is the sign of an exact zero. -/
def ofQuanta (negativeZero : Bool) (z : Int) : Number :=
  if z = 0 then zero negativeZero else ofSize (decide (z < 0)) (Magnitude.nearest z.natAbs 1)

/-- The number nearest to a whole number. -/
def ofInt (z : Int) : Number := ofQuanta false (z * Magnitude.one)

/-- A size with its sign, as an integer number of quanta. -/
def signed (negative : Bool) (size : Magnitude) : Int :=
  if negative then -(size.quanta : Int) else size.quanta

/-- The place of a number among the integers, in quanta. An infinity stands just outside all
finite numbers, and an undefined result has no place. -/
def rank? : Number → Option Int
  | .finite negative size => some (signed negative size)
  | .infinite negative => some (if negative then -(Magnitude.limit : Int) else Magnitude.limit)
  | .undefined => none

/-- Compares two numbers by their ranks; no comparison with an undefined result holds. -/
def compareBy (holds : Int → Int → Bool) (x y : Number) : Bool :=
  match x.rank?, y.rank? with
  | some a, some b => holds a b
  | _, _ => false

/-- The order on numbers. -/
def lt (x y : Number) : Bool := compareBy (fun a b => decide (a < b)) x y

/-- The order on numbers, equality included. -/
def le (x y : Number) : Bool := compareBy (fun a b => decide (a ≤ b)) x y

/-- Whether a number is zero, of either sign. -/
def isZero (x : Number) : Bool := x.rank? == some 0

/-- The number with the other sign. -/
def neg : Number → Number
  | .finite negative size => .finite (!negative) size
  | .infinite negative => .infinite (!negative)
  | .undefined => .undefined

/-- The number without its sign. -/
def abs : Number → Number
  | .finite _ size => .finite false size
  | .infinite _ => .infinite false
  | .undefined => .undefined

/-- The exact sum, rounded. -/
def add : Number → Number → Number
  | .finite a x, .finite b y => ofQuanta (a && b) (signed a x + signed b y)
  | .infinite a, .infinite b => if a = b then .infinite a else .undefined
  | .infinite a, .finite _ _ => .infinite a
  | .finite _ _, .infinite b => .infinite b
  | .undefined, _ => .undefined
  | _, .undefined => .undefined

/-- The exact difference, rounded. -/
def sub (x y : Number) : Number := x.add y.neg

/-- The exact product, rounded. -/
def mul : Number → Number → Number
  | .finite a x, .finite b y =>
    ofSize (a != b) (Magnitude.nearest (x.quanta * y.quanta) Magnitude.one)
  | .infinite a, .infinite b => .infinite (a != b)
  | .infinite a, .finite b y => if y.quanta = 0 then .undefined else .infinite (a != b)
  | .finite a x, .infinite b => if x.quanta = 0 then .undefined else .infinite (a != b)
  | .undefined, _ => .undefined
  | _, .undefined => .undefined

/-- The exact quotient, rounded. -/
def div : Number → Number → Number
  | .finite a x, .finite b y =>
    if y.quanta = 0 then (if x.quanta = 0 then .undefined else .infinite (a != b))
    else ofSize (a != b) (Magnitude.nearest (x.quanta * Magnitude.one) y.quanta)
  | .infinite _, .infinite _ => .undefined
  | .infinite a, .finite b _ => .infinite (a != b)
  | .finite a _, .infinite b => zero (a != b)
  | .undefined, _ => .undefined
  | _, .undefined => .undefined

/-- What is left of `x` after taking away `y` a whole number of times, toward zero. The sign is
that of `x`, and the result is exact. -/
def remainder : Number → Number → Number
  | .finite a x, .finite _ y =>
    if y.quanta = 0 then .undefined else ofSize a (Magnitude.nearest (x.quanta % y.quanta) 1)
  | .finite a x, .infinite _ => .finite a x
  | .infinite _, _ => .undefined
  | .undefined, _ => .undefined
  | _, .undefined => .undefined

/-- The greater of two numbers; an undefined one gives way. -/
def max (x y : Number) : Number :=
  if x = .undefined ∨ x.lt y then y else x

/-- The lesser of two numbers; an undefined one gives way. -/
def min (x y : Number) : Number :=
  if x = .undefined ∨ y.lt x then y else x

/-- Replaces the quanta of a finite number by the whole number that `choose` gives for them. -/
def toWhole (choose : Int → Int) : Number → Number
  | .finite negative size =>
    ofQuanta negative (choose (signed negative size) * Magnitude.one)
  | x => x

/-- The greatest whole number that is not above. -/
def floor : Number → Number := toWhole fun z => z.fdiv Magnitude.one

/-- The least whole number that is not below. -/
def ceiling : Number → Number := toWhole fun z => -((-z).fdiv Magnitude.one)

/-- The whole part: the fraction is cut off. -/
def truncate : Number → Number := toWhole fun z => z.tdiv Magnitude.one

/-- The nearest whole number; a half goes away from zero. -/
def round : Number → Number := toWhole fun z =>
  (if z < 0 then -1 else 1) * (((2 * z.natAbs + Magnitude.one) / (2 * Magnitude.one) : Nat) : Int)

/-- The whole part as a count that is at most `cap`. A number below one counts as zero, and so
does an undefined one. -/
def toCount (cap : Nat) : Number → Nat
  | .finite false size => Nat.min (size.quanta / Magnitude.one) cap
  | .infinite false => cap
  | _ => 0

/-- The whole number that a number equals, if there is one. -/
def whole? : Number → Option Int
  | .finite negative size =>
    if size.quanta % Magnitude.one = 0 then
      some (if negative then -((size.quanta / Magnitude.one : Nat) : Int)
        else ((size.quanta / Magnitude.one : Nat) : Int))
    else none
  | _ => none

/-- The number with the given 64-bit encoding: one sign bit, eleven bits of exponent, and 52 bits
of fraction. -/
def ofBits (bits : UInt64) : Number :=
  let fraction := bits.toNat % twoTo 52
  let exponent := bits.toNat / twoTo 52 % twoTo 11
  let negative := twoTo 63 ≤ bits.toNat
  if exponent = 2047 then (if fraction = 0 then .infinite negative else .undefined)
  else if exponent = 0 then ofSize negative (Magnitude.nearest fraction 1)
  else ofSize negative (Magnitude.nearest ((twoTo 52 + fraction) * twoTo (exponent - 1)) 1)

/-- The encoding of a size: the exponent and the fraction. -/
def sizeBits (quanta : Nat) : Nat :=
  if quanta < twoTo 52 then quanta
  else
    let shift := quanta.log2 - 52
    (shift + 1) * twoTo 52 + (quanta / twoTo shift - twoTo 52)

/-- The 64-bit encoding of a number. -/
def toBits (x : Number) : UInt64 :=
  let sign (negative : Bool) : Nat := if negative then twoTo 63 else 0
  match x with
  | .finite negative size => UInt64.ofNat (sign negative + sizeBits size.quanta)
  | .infinite negative => UInt64.ofNat (sign negative + 2047 * twoTo 52)
  | .undefined => UInt64.ofNat (2047 * twoTo 52 + twoTo 51)

end Number

end SmallBasic
