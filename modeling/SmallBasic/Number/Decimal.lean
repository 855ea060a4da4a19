import SmallBasic.Number.Basic
import SmallBasic.Text.Blank

/-!
# Decimals

A decimal is what the text of a number says exactly: a sign, a coefficient and a power of ten.
Reading a number reads a decimal and rounds it once; writing a number finds the shortest decimal
that rounds back to it and writes that without an exponent.

## Main definitions

* `Decimal.ofText?` — the decimal that a text spells, if it spells one.
* `Decimal.toNumber` — the nearest number.
* `Number.shortest` — the fewest digits that read back, and of these the nearest.
* `Number.ofText?`, `Number.toText` — numbers as text.
-/

namespace SmallBasic

/-- The exact value `± coefficient * 10 ^ exponent`. -/
structure Decimal where
  negative : Bool
  coefficient : Nat
  exponent : Int
deriving DecidableEq, Repr

namespace Decimal

/-- A digit of the numerals `0` to `9`; no other script counts. -/
def isDigit (c : Char) : Bool := '0' ≤ c && c ≤ '9'

/-- The value of a list of digits. -/
def digitsValue (ds : List Char) : Nat :=
  ds.foldl (fun n d => 10 * n + (d.toNat - '0'.toNat)) 0

/-- An optional sign, and what follows it. -/
def readSign : List Char → Bool × List Char
  | '-' :: cs => (true, cs)
  | '+' :: cs => (false, cs)
  | cs => (false, cs)

theorem readSign_of_ne {cs : List Char} (hhead : ∀ c ∈ cs.head?, c ≠ '-' ∧ c ≠ '+') :
    readSign cs = (false, cs) := by
  unfold readSign
  split
  · exact absurd rfl (hhead '-' rfl).1
  · exact absurd rfl (hhead '+' rfl).2
  · rfl

/-- The digits after a point, and what follows them; no point, no digits. -/
def readFraction : List Char → List Char × List Char
  | '.' :: cs => cs.span isDigit
  | cs => ([], cs)

/-- The power of ten that ends a number: nothing, or `e` with a whole number. -/
def readExponent? : List Char → Option Int
  | [] => some 0
  | c :: cs =>
    let (negative, digits) := readSign cs
    if (c = 'e' ∨ c = 'E') ∧ digits ≠ [] ∧ digits.all isDigit then
      some (if negative then -(digitsValue digits : Int) else digitsValue digits)
    else none

/-- Reads an optional sign, digits with an optional point among them, and an optional exponent.
There is at least one digit before the exponent. -/
def ofChars? (cs : List Char) : Option Decimal :=
  let (negative, cs) := readSign cs
  let (whole, cs) := cs.span isDigit
  let (fraction, cs) := readFraction cs
  if whole = [] ∧ fraction = [] then none
  else (readExponent? cs).map fun exponent =>
    ⟨negative, digitsValue (whole ++ fraction), exponent - fraction.length⟩

/-- The decimal that a text spells. Blanks around it do not matter. -/
def ofText? (text : String) : Option Decimal := ofChars? (trim text.toList)

/-- No finite number reaches `10 ^ reach`, and none but zero is below `10 ^ -reach`. -/
def reach : Int := 400

/-- The nearest number. A decimal out of reach is not written out in full: it is infinite, or
rounds to zero. -/
def toNumber (d : Decimal) : Number :=
  if d.coefficient = 0 then .zero d.negative
  else if reach < d.exponent then .infinite d.negative
  else if d.exponent + d.coefficient.log2 < -reach then .zero d.negative
  else if 0 ≤ d.exponent then
    .ofSize d.negative
      (Magnitude.nearest (d.coefficient * tenTo d.exponent.toNat * Magnitude.one) 1)
  else
    .ofSize d.negative
      (Magnitude.nearest (d.coefficient * Magnitude.one) (tenTo (-d.exponent).toNat))

/-- The digits of a natural number. -/
def digits (n : Nat) : List Char := Nat.toDigits 10 n

/-- The decimal in positional notation, with no exponent. -/
def toChars (d : Decimal) : List Char :=
  let ds := digits d.coefficient
  let places := (-d.exponent).toNat
  (if d.negative then ['-'] else []) ++
    if 0 ≤ d.exponent then ds ++ List.replicate d.exponent.toNat '0'
    else if places < ds.length then
      ds.take (ds.length - places) ++ '.' :: ds.drop (ds.length - places)
    else '0' :: '.' :: (List.replicate (places - ds.length) '0' ++ ds)

end Decimal

namespace Number

/-- The two neighbours of `size` among the multiples of `10 ^ exponent`, as coefficients, the
nearer one first. Of two equally near ones the greater comes first. -/
def neighbours (size : Magnitude) (exponent : Int) : List Nat :=
  let num := size.quanta * tenTo (-exponent).toNat
  let den := Magnitude.one * tenTo exponent.toNat
  let below := num / den
  if 2 * (num % den) < den then [below, below + 1] else [below + 1, below]

/-- The neighbour at this power of ten that reads back as `size`, the nearer one if both do. -/
def readsBack? (size : Magnitude) (exponent : Int) : Option Decimal :=
  ((neighbours size exponent).map (⟨false, ·, exponent⟩)).find? fun d : Decimal =>
    d.toNumber = .finite false size

/-- A power of ten above `size`. -/
def tensAbove (size : Magnitude) : Int :=
  (((size.quanta.log2 : Int) - 1073) * 30103) / 100000 + 2

/-- All the digits of `size`: a quantum is `5 ^ 1074` units of the 1074th decimal place. -/
def exactDecimal (size : Magnitude) : Decimal :=
  ⟨false, size.quanta * Nat.pow 5 Magnitude.oneExponent, -(Magnitude.oneExponent : Int)⟩

/-- The decimal of fewest digits that reads back as `size`, nearest to it among those. Digits are
added one at a time; seventeen suffice, and all of them would be written if they did not. -/
def shortest (size : Magnitude) : Decimal :=
  let found := (List.range 21).findSome? fun (places : Nat) =>
    readsBack? size (tensAbove size - (places : Int))
  found.getD (exactDecimal size)

/-- Whole numbers below this size are written digit by digit. -/
def wholeLimit : Nat := 1000000000000000

/-- The text of a whole number. -/
def intText (z : Int) : String :=
  String.ofList (Decimal.toChars ⟨decide (z < 0), z.natAbs, 0⟩)

/-- The text of a number: positional, without an exponent, and without a sign for zero. -/
def toText (x : Number) : String :=
  match x with
  | .undefined => "NaN"
  | .infinite negative => if negative then "-inf" else "inf"
  | .finite negative size =>
    match x.whole? with
    | some z => if z.natAbs < wholeLimit then intText z
      else String.ofList ({ shortest size with negative }).toChars
    | none => String.ofList ({ shortest size with negative }).toChars

/-- The number that a text spells, if it spells one. It may be infinite, never undefined. -/
def ofText? (text : String) : Option Number := (Decimal.ofText? text).map Decimal.toNumber

/-- The numeric reading of any text: what spells no number counts as zero. -/
def ofText (text : String) : Number := (ofText? text).getD (.zero false)

end Number

end SmallBasic
