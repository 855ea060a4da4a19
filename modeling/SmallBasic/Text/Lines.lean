/-!
# Lines

Cutting a text into lines. A line ends with a line feed, which is dropped together with one carriage
return before it; a last line without a line feed is kept as it is, and an empty one is no line.
-/

namespace SmallBasic

/-- Drops the carriage return that ends a line given in reverse. -/
def dropReturn {α : Type} [DecidableEq α] (ret : α) : List α → List α
  | [] => []
  | c :: cs => if c = ret then cs else c :: cs

/-- The lines of a sequence, where `line` holds the unfinished one in reverse. -/
def linesFrom {α : Type} [DecidableEq α] (feed ret : α) (line : List α) : List α → List (List α)
  | [] => if line.isEmpty then [] else [line.reverse]
  | c :: cs =>
    if c = feed then (dropReturn ret line).reverse :: linesFrom feed ret [] cs
    else linesFrom feed ret (c :: line) cs

/-- The lines of a text. -/
def lines (text : String) : List String :=
  (linesFrom '\n' '\r' [] text.toList).map String.ofList

/-- The texts before the first line that is not well-formed UTF-8. -/
def decodeLines : List (List UInt8) → List String
  | [] => []
  | line :: rest =>
    match String.fromUTF8? ⟨line.toArray⟩ with
    | some text => text :: decodeLines rest
    | none => []

/-- The lines of a stream of bytes, up to the first one that cannot be decoded. -/
def linesOfBytes (bytes : ByteArray) : List String :=
  decodeLines (linesFrom 10 13 [] bytes.toList)

end SmallBasic
