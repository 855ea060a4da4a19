import SmallBasic.Text.CaseTable
import SmallBasic.Text.Word

/-!
# Letter case

Two notions of case. Names are compared with the case of ASCII letters folded (`foldCase`), and
texts are converted with the full case mappings of Unicode (`lowerCase`, `upperCase`), in which a
letter may become several and a sigma at the end of a word has a form of its own.
-/

namespace SmallBasic

/-- A name with its ASCII letters in lower case. Two spellings name the same thing exactly when
these agree. -/
def foldCase (name : String) : String := String.ofList (name.toList.map Char.toLower)

/-- Whether two spellings differ at most in the case of ASCII letters. -/
def sameName (a b : String) : Bool := foldCase a == foldCase b

namespace CaseTable

/-- The image of a code point under the runs, or itself. -/
def applyRuns (runs : List (Nat × Nat × Nat × Nat)) (n : Nat) : Nat :=
  match runs.find? fun (first, last, step, _) =>
      first ≤ n && n ≤ last && (n - first) % step == 0 with
  | some (first, _, _, image) => image + (n - first)
  | none => n

/-- The image of a character beyond ASCII: its sequence if it has one, else its run. -/
def image (sequences : List (Nat × List Nat)) (runs : List (Nat × Nat × Nat × Nat)) (c : Char) :
    List Char :=
  match sequences.lookup c.toNat with
  | some codes => codes.map Char.ofNat
  | none => [Char.ofNat (applyRuns runs c.toNat)]

end CaseTable

/-- The lower case of a character. -/
def lowerChar (c : Char) : List Char :=
  if c.toNat < 128 then [c.toLower]
  else CaseTable.image CaseTable.lowerSequences CaseTable.lowerRuns c

/-- The upper case of a character. -/
def upperChar (c : Char) : List Char :=
  if c.toNat < 128 then [c.toUpper]
  else CaseTable.image CaseTable.upperSequences CaseTable.upperRuns c

/-- A letter that has a case. -/
def isCased (c : Char) : Bool :=
  if c.toNat < 128 then c.isAlpha else inRanges CaseTable.casedRanges c.toNat

/-- A character that does not count when the letters around a sigma are looked for. -/
def isCaseIgnorable (c : Char) : Bool :=
  if c.toNat < 128 then c.toNat == 0x27 || c == '.' || c == ':' || c == '^' || c.toNat == 0x60
  else inRanges CaseTable.ignorableRanges c.toNat

/-- Whether the first character that counts has a case. -/
def startsCased (cs : List Char) : Bool :=
  match cs.dropWhile isCaseIgnorable with
  | c :: _ => isCased c
  | [] => false

/-- Lower case of the rest of a text, given the characters before it, last first. A capital sigma
that follows a letter and precedes none ends its word. -/
def lowerFrom (before : List Char) : List Char → List Char
  | [] => []
  | c :: cs =>
    (if c = 'Σ' then (if startsCased before && !startsCased cs then ['ς'] else ['σ'])
      else lowerChar c) ++ lowerFrom (c :: before) cs

/-- The text in lower case. -/
def lowerCase (text : String) : String := String.ofList (lowerFrom [] text.toList)

/-- The text in upper case. -/
def upperCase (text : String) : String := String.ofList (text.toList.flatMap upperChar)

end SmallBasic
