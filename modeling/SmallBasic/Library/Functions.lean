import SmallBasic.ArrayText
import SmallBasic.Catalogue.Basic
import SmallBasic.Number.Functions
import SmallBasic.Text.Slice
import SmallBasic.Value

/-!
# Methods without memory

The methods of the library whose value depends on their arguments alone. Each is given for the
number of arguments it takes, and for no other number.
-/

namespace SmallBasic

/-- The text of so many characters from a position, both as numbers of the language. Their fractions
are cut off; a position before the first character, or a negative length, gives nothing. -/
def subText (text : String) (start length : Number) : String :=
  if start.truncate.lt (.ofInt 1) || length.truncate.lt (.ofInt 0) then ""
  else slice text (start.toCount (text.length + 1)) (length.toCount text.length)

/-- The text of the character with a code, if there is such a character. -/
def characterText (code : Number) : String :=
  if code.truncate.lt (.ofInt 0) then ""
  else
    let n := code.toCount 0x110000
    if n.isValidChar then String.singleton (Char.ofNat n) else ""

namespace TextMethod

/-- The value of a text method. -/
def value? : TextMethod → List String → Option String
  | .append, [s, t] => some (s ++ t)
  | .convertToLowerCase, [s] => some (lowerCase s)
  | .convertToUpperCase, [s] => some (upperCase s)
  | .endsWith, [s, t] => some (truthText (hasEnd s t))
  | .startsWith, [s, t] => some (truthText (hasStart s t))
  | .getCharacter, [s] => some (characterText (Number.ofText s))
  | .getCharacterCode, [s] => some ((s.toList.head?.map Char.toNat).getD 0).repr
  | .getIndexOf, [s, t] => some (position s t).repr
  | .getLength, [s] => some s.length.repr
  | .getSubText, [s, start, length] =>
    some (subText s (Number.ofText start) (Number.ofText length))
  | .getSubTextToEnd, [s, start] => some (subText s (Number.ofText start) (.ofInt s.length))
  | .isSubText, [s, t] => some (truthText (hasPart s t))
  | _, _ => none

end TextMethod

namespace MathMethod

/-- The value of a mathematical method other than the random numbers. -/
def value? : MathMethod → List Number → Option Number
  | .abs, [x] => some x.abs
  | .arcCos, [x] => some x.arcCos
  | .arcSin, [x] => some x.arcSin
  | .arcTan, [x] => some x.arcTan
  | .ceiling, [x] => some x.ceiling
  | .cos, [x] => some x.cos
  | .floor, [x] => some x.floor
  | .getDegrees, [x] => some x.degrees
  | .getRadians, [x] => some x.radians
  | .log, [x] => some x.log10
  | .naturalLog, [x] => some x.naturalLog
  | .round, [x] => some x.round
  | .sin, [x] => some x.sin
  | .squareRoot, [x] => some x.squareRoot
  | .tan, [x] => some x.tan
  | .max, [x, y] => some (x.max y)
  | .min, [x, y] => some (x.min y)
  | .power, [x, y] => some (x.power y)
  | .remainder, [x, y] => some (if y.isZero then .zero false else x.remainder y)
  | _, _ => none

end MathMethod

end SmallBasic
