import SmallBasic.Table

/-!
# Arrays as text

An array is the text `key=value;key=value;…;`, in which `\`, `=` and `;` inside a key or a value are
preceded by a backslash. A nested array is an ordinary value, so its own marks are escaped once more
per level. Every text can be read as an array: what is no complete pair does not count.

## Main definitions

* `ArrayText.encode`, `ArrayText.decode` — tables as text and back.
* `ArrayText.get`, `ArrayText.set` — access by a path of keys.
-/

namespace SmallBasic

namespace ArrayText

/-- The characters that stand for themselves only after a backslash. -/
def isMark (c : Char) : Bool := c == '\\' || c == '=' || c == ';'

/-- Puts a backslash before every mark. -/
def escape : List Char → List Char
  | [] => []
  | c :: cs => if isMark c then '\\' :: c :: escape cs else c :: escape cs

/-- One pair as it stands in the array. -/
def encodePair (pair : String × String) : List Char :=
  escape pair.1.toList ++ '=' :: (escape pair.2.toList ++ [';'])

/-- The text of an array with these pairs. -/
def encode (pairs : List (String × String)) : String :=
  String.ofList (pairs.flatMap encodePair)

/-- The complete pairs of an array text, in order. `key?` is the key whose value is being read, and
`part` holds what was read of the current part, in reverse. A part that ends before its `=` is
dropped, and so is whatever the text ends in. -/
def pairsFrom (key? : Option String) (part : List Char) : List Char → List (String × String)
  | [] => []
  | ['\\'] => []
  | '\\' :: c :: cs => pairsFrom key? (c :: part) cs
  | c :: cs =>
    match key? with
    | none =>
      if c = '=' then pairsFrom (some (String.ofList part.reverse)) [] cs
      else if c = ';' then pairsFrom none [] cs
      else pairsFrom none (c :: part) cs
    | some key =>
      if c = ';' then (key, String.ofList part.reverse) :: pairsFrom none [] cs
      else pairsFrom (some key) (c :: part) cs

/-- The complete pairs of an array text. -/
def pairs (array : String) : List (String × String) := pairsFrom none [] array.toList

/-- One level of an array. When a key repeats, its last value wins and its first place stays. -/
def decode (array : String) : Table String := Table.ofPairs (pairs array)

/-- The value at a path of keys. A missing key gives the empty text. -/
def get (array : String) : List String → String
  | [] => array
  | key :: path =>
    match (decode array).get? key with
    | some value => get value path
    | none => ""

/-- The array with a value stored at a path of keys. The empty path replaces the whole array. -/
def set (array : String) (path : List String) (value : String) : String :=
  match path with
  | [] => value
  | key :: path =>
    let table := decode array
    encode (table.insert key (set ((table.get? key).getD "") path value))

/-- The array without a key. -/
def remove (array key : String) : String := encode ((decode array).erase key)

/-- Whether a key is present. -/
def containsKey (array key : String) : Bool := (decode array).contains key

/-- Whether some key has this value. -/
def containsValue (array value : String) : Bool := (decode array).any (·.2 == value)

/-- The array with these values under the keys 1, 2, …. -/
def ofList (values : List String) : String :=
  encode (values.mapIdx fun i value => ((i + 1).repr, value))

/-- The keys of an array, as an array. -/
def allKeys (array : String) : String := ofList (decode array).keys

/-- The number of keys. -/
def itemCount (array : String) : Nat := (decode array).length

/-- Whether there is a complete pair. -/
def isArray (array : String) : Bool := !(decode array).isEmpty

end ArrayText

end SmallBasic
