import SmallBasic.Number.Decimal
import SmallBasic.Text.Case

/-!
# Values

Every value of the language is a text. What an operator needs is a reading of it: a number
(`Number.ofText`) or a truth value, for which exactly the word "True" counts, in any case.
-/

namespace SmallBasic

/-- The text of a truth value. -/
def truthText (b : Bool) : String := if b then "True" else "False"

/-- Whether a text reads as true. -/
def isTrue (text : String) : Bool := sameName text "True"

end SmallBasic
