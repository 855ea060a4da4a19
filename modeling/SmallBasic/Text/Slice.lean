/-!
# Searching and slicing

Positions in a text count characters, from one. A search goes through the bytes of the text, so that
the byte it comes to has to be turned into a position.

## Main definitions

* `occurrence?` — how much of a list precedes the first occurrence of another one.
* `utf8`, `charsBefore?` — the bytes of a text, and how many characters stand before one of them.
* `position` — the first place where a text occurs in another, or zero.
* `slice` — so many characters from a position.
-/

namespace SmallBasic

/-- How many entries precede the first occurrence of `needle`. -/
def occurrence? {α : Type} [BEq α] (needle : List α) : List α → Option Nat
  | [] => if needle.isEmpty then some 0 else none
  | c :: cs =>
    if needle.isPrefixOf (c :: cs) then some 0 else (occurrence? needle cs).map (· + 1)

/-- The bytes of characters. -/
def utf8 (cs : List Char) : List UInt8 := cs.flatMap String.utf8EncodeChar

/-- How many characters stand before a byte. The byte has to be the first one of a character, or the
one after the last character. -/
def charsBefore? : (byte : Nat) → List Char → Option Nat
  | 0, _ => some 0
  | _ + 1, [] => none
  | byte + 1, c :: cs =>
    if c.utf8Size ≤ byte + 1 then (charsBefore? (byte + 1 - c.utf8Size) cs).map (· + 1) else none

/-- The first byte from which a text has the bytes of `needle`. -/
def byteIndex? (text needle : String) : Option Nat :=
  occurrence? (utf8 needle.toList) (utf8 text.toList)

/-- The position of the first occurrence of `needle`. It is zero if there is none, and for an empty
needle. -/
def position (text needle : String) : Nat :=
  if needle.isEmpty then 0
  else match (byteIndex? text needle).bind (charsBefore? · text.toList) with
    | some before => before + 1
    | none => 0

/-- Whether `needle` occurs in `text`. -/
def hasPart (text needle : String) : Bool := (byteIndex? text needle).isSome

/-- Whether `text` begins with `start`. -/
def hasStart (text start : String) : Bool := start.toList.isPrefixOf text.toList

/-- Whether `text` ends with `ending`. -/
def hasEnd (text ending : String) : Bool := ending.toList.isSuffixOf text.toList

/-- The `count` characters that begin at a position; fewer if the text ends before. -/
def slice (text : String) (start count : Nat) : String :=
  String.ofList ((text.toList.drop (start - 1)).take count)

end SmallBasic
