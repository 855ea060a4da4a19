import SmallBasic.Clause.Read
import SmallBasic.Program.Basic
import SmallBasic.Token.Scan

/-!
# Blocks

While a source is read, the statements so far form a draft, together with a stack of the blocks that
are still open. A line either adds one statement, which may link an open block to it, or is refused
and changes nothing.

## Main definitions

* `Draft.refusal?` — why a reserved word cannot come next.
* `Draft.add` — appends a clause and links the block it continues or closes.
* `Draft.readLine` — one line of source.
-/

namespace SmallBasic

/-- The statements so far, and the indices of those whose block is open, innermost first. -/
structure Draft where
  statements : Array Statement := #[]
  openBlocks : List Nat := []
deriving Repr

namespace Draft

/-- The reserved word of the open statement at an index. -/
def openerAt? (draft : Draft) (index : Nat) : Option Keyword :=
  draft.statements[index]?.bind (·.clause.opener?)

/-- The reserved word of the innermost open statement. -/
def innermost? (draft : Draft) : Option Keyword := draft.openBlocks.head?.bind draft.openerAt?

/-- Why a reserved word cannot come next: it continues or closes a block that is not the innermost
one, or it adds a branch after `Else`. -/
def refusal? (draft : Draft) (first : Token) (word : Keyword) : Option SyntaxError :=
  if !word.needsBlock then none
  else if draft.innermost?.map Keyword.block = some word.block then
    if draft.innermost? = some .else ∧ word ≠ .endIf then some first.unexpected else none
  else some (first.error (.unopened word word.block))

/-- Whether the body of a subroutine is open. -/
def inSub (draft : Draft) : Bool :=
  draft.openBlocks.any fun index => draft.openerAt? index == some .sub

/-- Links the statement at an index. -/
def link (statements : Array Statement) (index target : Nat) : Array Statement :=
  statements.modify index fun statement => { statement with link := some target }

/-- Appends a clause. One that continues or closes a block becomes the target of the innermost open
statement, and one that repeats the block leads back to it. -/
def add (draft : Draft) (line : Nat) (clause : Clause) : Draft :=
  let index := draft.statements.size
  match clause.role, draft.openBlocks with
  | .simple, blocks => ⟨draft.statements.push ⟨line, clause, none⟩, blocks⟩
  | .opens, blocks => ⟨draft.statements.push ⟨line, clause, none⟩, index :: blocks⟩
  | .continues, start :: blocks =>
    ⟨(link draft.statements start index).push ⟨line, clause, none⟩, index :: blocks⟩
  | .closes, start :: blocks =>
    ⟨(link draft.statements start index).push ⟨line, clause, none⟩, blocks⟩
  | .repeats, start :: blocks =>
    ⟨(link draft.statements start index).push ⟨line, clause, some start⟩, blocks⟩
  | _, [] => ⟨draft.statements.push ⟨line, clause, none⟩, []⟩

/-- Reads a line with at least one token. Whether its block is open is asked before the rest of the
line is read; whether a subroutine stands inside another is asked after. -/
def readTokens (draft : Draft) (number : Nat) (first : Token) (rest : List Token) :
    Except SyntaxError Draft := do
  if let .keyword word := first.kind then
    if let some error := draft.refusal? first word then throw error
  let clause ← (Line.ofTokens number (first :: rest)).readClause first rest
  if clause.opener? = some .sub ∧ draft.inSub then throw (first.error .nestedSub)
  return draft.add number clause

/-- Reads a line. A line without tokens adds nothing. -/
def readLine (draft : Draft) (number : Nat) (text : String) : Except SyntaxError Draft :=
  match tokenize number text with
  | [] => .ok draft
  | first :: rest => draft.readTokens number first rest

/-- Reads all lines. A line that is refused leaves the draft as it was. -/
def readLines (draft : Draft) (number : Nat) : List String → Draft × List SyntaxError
  | [] => (draft, [])
  | text :: rest =>
    match draft.readLine number text with
    | .ok next => next.readLines (number + 1) rest
    | .error error =>
      let (last, errors) := draft.readLines (number + 1) rest
      (last, error :: errors)

/-- The errors of the blocks that were never closed, outermost first. -/
def unclosed (draft : Draft) : List SyntaxError :=
  draft.openBlocks.reverse.filterMap fun index => do
    let statement ← draft.statements[index]?
    let opener ← statement.clause.opener?
    return ⟨statement.line, 0, .unclosed opener opener.closer⟩

end Draft

end SmallBasic
