import SmallBasic.Text.Blank
import SmallBasic.Text.Word
import SmallBasic.Token.Basic

/-!
# Reading the tokens of a line

At each place that is not blank the text decides what kind of token starts there and how long it is.
A run of word characters is taken whole, so a reserved word is never split off a longer name. Where
no token starts, the rest of the line is one unexpected token.

## Main definitions

* `lexeme?` — kind and length of the token that starts a text.
* `scanFrom` — the tokens of a line, with or without comments.
* `scan` — all tokens of a line, comments included.
* `tokenize` — the tokens that count.
-/

namespace SmallBasic

/-- A name starts with an ASCII letter or an underscore. -/
def isNameStart (c : Char) : Bool := c.isAlpha || c == '_'

/-- Simple case folding of a letter, so far as it leads to ASCII: the long s folds to s. -/
def foldLetter (c : Char) : Char := if c = 'ſ' then 's' else c.toLower

/-- The reserved word that a text spells, in any case. -/
def keyword? (word : String) : Option Keyword := Keyword.all.find? fun k => sameName k.text word

/-- Whether a text spells a reserved word once its letters are folded. -/
def foldsToKeyword (word : List Char) : Bool :=
  Keyword.all.any fun k => word.map foldLetter == k.text.toList.map Char.toLower

/-- The kind of a maximal run of word characters. A reserved word written with a long s is reserved
for no statement, so it is a name. -/
def wordKind? (word : List Char) : Option Token.Kind :=
  match keyword? (String.ofList word) with
  | some k => some (.keyword k)
  | none =>
    if sameName (String.ofList word) "and" then some (.operator .and)
    else if sameName (String.ofList word) "or" then some (.operator .or)
    else if word.head?.any isNameStart || foldsToKeyword word then some .symbol
    else none

/-- The length of the number that starts a text: digits with an optional point after or among them,
or a point with digits after it. It is zero if no number starts there. -/
def numberLength (cs : List Char) : Nat :=
  let whole := (cs.takeWhile isDigit).length
  match cs.drop whole with
  | '.' :: rest =>
    let fraction := (rest.takeWhile isDigit).length
    if whole = 0 ∧ fraction = 0 then 0 else whole + 1 + fraction
  | _ => whole

/-- The length of a string whose opening quotation mark has been passed, up to and including the
closing one or up to the end. -/
def stringLength (cs : List Char) : Nat :=
  min ((cs.takeWhile (· != '"')).length + 1) cs.length

/-- The marks that are the same wherever they stand, and what they are. A mark of two characters
comes before the one that starts it. -/
def fixedMarks : List (List Char × Token.Kind) :=
  [(['('], .leftParen), ([')'], .rightParen), (['['], .leftBracket), ([']'], .rightBracket),
    (['.'], .dot), ([','], .comma), ([':'], .colon), (['<', '='], .operator .lessEqual),
    (['>', '='], .operator .greaterEqual), (['<', '>'], .operator .notEqual),
    (['<'], .operator .less), (['>'], .operator .greater), (['='], .operator .equal),
    (['-'], .operator .sub), (['+'], .operator .add), (['*'], .operator .mul),
    (['/'], .operator .div)]

/-- The fixed mark that starts a text, and its length. -/
def fixedMark? (cs : List Char) : Option (Token.Kind × Nat) :=
  (fixedMarks.find? fun entry => entry.1.isPrefixOf cs).map fun (mark, kind) => (kind, mark.length)

/-- Kind and length of the token that a mark starts: a string, a comment, or a fixed mark. -/
def markKind? : List Char → Option (Token.Kind × Nat)
  | [] => none
  | c :: cs =>
    if c = '"' then some (.string, 1 + stringLength cs)
    else if c.toNat = 0x27 then some (.comment, 1 + (cs.takeWhile (· != '\n')).length)
    else fixedMark? (c :: cs)

/-- Kind and length of the token that starts a text. Words come first, then numbers. -/
def lexeme? (cs : List Char) : Option (Token.Kind × Nat) :=
  let word := cs.takeWhile isWord
  match wordKind? word with
  | some kind => some (kind, word.length)
  | none => if 0 < numberLength cs then some (.number, numberLength cs) else markKind? cs

/-- The tokens of a line from a column on, with or without comments. The first `passed` characters
belong to a token that was already read. -/
def scanFrom (comments : Bool) (line : Nat) : (passed column : Nat) → List Char → List Token
  | _, _, [] => []
  | passed + 1, column, _ :: cs => scanFrom comments line passed (column + 1) cs
  | 0, column, c :: cs =>
    if isBlank c then scanFrom comments line 0 (column + 1) cs
    else match lexeme? (c :: cs) with
      | some (kind, length) =>
        let rest := scanFrom comments line (length - 1) (column + 1) cs
        if kind != .comment || comments then
          ⟨kind, String.ofList ((c :: cs).take length), line, column⟩ :: rest
        else rest
      | none => [⟨.unexpected, String.ofList (trimEnd (c :: cs)), line, column⟩]

/-- All tokens of a line, comments included. -/
def scan (line : Nat) (text : String) : List Token := scanFrom true line 0 0 text.toList

/-- The tokens of a line, without comments. -/
def tokenize (line : Nat) (text : String) : List Token := scanFrom false line 0 0 text.toList

end SmallBasic
