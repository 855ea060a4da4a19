import SmallBasic.Expr.Basic
import SmallBasic.SyntaxError

/-!
# Reading expressions

An expression is read from the tokens of one line, from left to right, up to a token that may end it
or up to the end of the line. The reader returns what follows, so that the line can be read on.

    expression ::= operand (operator operand)*
    operand    ::= number | string | '-'+ number | '(' expression ')' | name index*
                 | name '.' name | name '.' name '(' [expression (',' expression)*] ')'
    index      ::= '[' expression ']'

Comparators are operators only where a condition is read, which includes parentheses in it but
neither indices nor arguments.

## Main definitions

* `Line` — what the reader knows of the line besides its tokens.
* `Closer`, `Ending` — what may end an expression.
* `Line.readExpr` — reads an expression and the token that ends it.
-/

namespace SmallBasic

/-- The number of a line and the column where it ends. -/
structure Line where
  number : Nat
  endColumn : Nat
deriving DecidableEq, Repr

namespace Token

/-- An error at a token. -/
def error (token : Token) (cause : SyntaxError.Cause) : SyntaxError :=
  ⟨token.line, token.column, cause⟩

/-- The error that a token should not be there. -/
def unexpected (token : Token) : SyntaxError := token.error (.unexpectedToken token.text)

end Token

/-- The error that a member cannot be used. An unknown object is reported at its own name, anything
else at the name of the member. -/
def memberError (object member : Token) (error : MemberError) : SyntaxError :=
  match error with
  | .unknownObject _ => object.error (.member error)
  | _ => member.error (.member error)

/-- What can end an expression. -/
inductive Closer where
  | endOfLine
  | rightParen
  | rightBracket
  | comma
  | then
  | to
deriving DecidableEq, Repr

namespace Closer

/-- The kind of token that ends the expression. The end of the line is no token. -/
def kind? : Closer → Option Token.Kind
  | .endOfLine => none
  | .rightParen => some .rightParen
  | .rightBracket => some .rightBracket
  | .comma => some .comma
  | .then => some (.keyword .then)
  | .to => some (.keyword .to)

/-- How a message names what should have ended the expression. -/
def description (closer : Closer) : String :=
  (closer.kind?.map Token.Kind.description).getD "end of line"

end Closer

/-- All that may end an expression. -/
abbrev Ending := List Closer

/-- Whether a token ends the expression. -/
def Ending.closes (ending : Ending) (kind : Token.Kind) : Bool :=
  ending.any fun closer => closer.kind? == some kind

/-- Only brackets, commas and reserved words end an expression before the end of the line. -/
theorem Ending.eq_of_closes {ending : Ending} {kind : Token.Kind}
    (hcloses : ending.closes kind = true) :
    kind = .rightParen ∨ kind = .rightBracket ∨ kind = .comma ∨ kind = .keyword .then ∨
      kind = .keyword .to := by
  obtain ⟨closer, -, hkind⟩ := List.any_eq_true.1 hcloses
  cases closer <;> grind [Closer.kind?]

theorem Ending.closes_operator (ending : Ending) (op : Operator) :
    ending.closes (.operator op) = false := by
  rw [Bool.eq_false_iff]
  intro hcloses
  simpa using Ending.eq_of_closes hcloses

/-- The operator that a token stands for, where comparators count only in conditions. -/
def operatorIn? (condition : Bool) : Token.Kind → Option Operator
  | .operator op => if condition || !op.isComparator then some op else none
  | _ => none

namespace Line

/-- The line that has these tokens. -/
def ofTokens (number : Nat) (tokens : List Token) : Line :=
  ⟨number, (tokens.getLast?.map Token.endColumn).getD 0⟩

/-- An error at the end of the line. -/
def endError (line : Line) (cause : SyntaxError.Cause) : SyntaxError :=
  ⟨line.number, line.endColumn, cause⟩

/-- The error that none of the expected tokens is there. If another token is there, that one is
unexpected. -/
def missing (line : Line) (expected : List String) : List Token → SyntaxError
  | token :: _ => token.unexpected
  | [] => line.endError (.expectedToken expected)

/-- Passes over a token of a kind. -/
def expect (line : Line) (kind : Token.Kind) : List Token → Except SyntaxError (List Token)
  | [] => .error (line.missing [kind.description] [])
  | token :: rest => if token.kind = kind then .ok rest else .error token.unexpected

/-- Reads a name. -/
def expectSymbol (line : Line) : List Token → Except SyntaxError (Token × List Token)
  | [] => .error (line.missing [Token.Kind.description .symbol] [])
  | token :: rest => if token.kind = .symbol then .ok (token, rest) else .error token.unexpected

/-- Nothing may follow on the line. -/
def expectEnd : List Token → Except SyntaxError Unit
  | [] => .ok ()
  | token :: _ => .error token.unexpected

/-- Reads any number of minus signs and the number they belong to. Two signs cancel out. -/
def readSigned (line : Line) (negative : Bool) : List Token → Except SyntaxError (Expr × List Token)
  | [] => .error (line.endError .expectedExpression)
  | token :: rest =>
    match token.kind with
    | .operator .sub => readSigned line (!negative) rest
    | .number => .ok (.literal (if negative then "-" ++ token.text else token.text), rest)
    | _ => .error token.unexpected

mutual

/-- Reads an expression. Returns the token that ended it, which is missing at the end of the line,
and the tokens after that. All readers report the cause `exhausted` if the fuel runs out. -/
def readExprWith (line : Line) (exhausted : SyntaxError.Cause) :
    (fuel : Nat) → Ending → (condition : Bool) → List Token →
      Except SyntaxError (Expr × Option Token × List Token)
  | 0, _, _, _ => .error (line.endError exhausted)
  | fuel + 1, ending, condition, tokens => do
    let (first, rest) ← readOperandWith line exhausted fuel ending condition tokens
    let (links, closer, rest) ← readLinksWith line exhausted fuel ending condition rest
    return (Chain.fold ⟨first, links⟩, closer, rest)

/-- Reads operators with their right operands up to the end of the expression. -/
def readLinksWith (line : Line) (exhausted : SyntaxError.Cause) :
    (fuel : Nat) → Ending → (condition : Bool) → List Token →
      Except SyntaxError (List (Operator × Expr) × Option Token × List Token)
  | 0, _, _, _ => .error (line.endError exhausted)
  | _ + 1, ending, _, [] =>
    if .endOfLine ∈ ending then .ok ([], none, [])
    else .error (line.missing (ending.map Closer.description) [])
  | fuel + 1, ending, condition, token :: rest =>
    if ending.closes token.kind then .ok ([], some token, rest)
    else match operatorIn? condition token.kind with
      | none => .error token.unexpected
      | some op => do
        let (operand, rest) ← readOperandWith line exhausted fuel ending condition rest
        let (links, closer, rest) ← readLinksWith line exhausted fuel ending condition rest
        return ((op, operand) :: links, closer, rest)

/-- Reads an operand. -/
def readOperandWith (line : Line) (exhausted : SyntaxError.Cause) :
    (fuel : Nat) → Ending → (condition : Bool) → List Token → Except SyntaxError (Expr × List Token)
  | 0, _, _, _ => .error (line.endError exhausted)
  | _ + 1, _, _, [] => .error (line.endError .expectedExpression)
  | fuel + 1, ending, condition, token :: rest =>
    match token.kind with
    | .number | .string => .ok (.literal token.content, rest)
    | .operator .sub => line.readSigned true rest
    | .leftParen => do
      let (inner, _, rest) ← readExprWith line exhausted fuel [.rightParen] condition rest
      return (inner, rest)
    | .symbol => readNameWith line exhausted fuel token rest
    | kind =>
      if ending.closes kind then .error (token.error .expectedExpression)
      else .error token.unexpected

/-- Reads what follows a name in an operand: indices, a member of the library, or nothing.
Subroutines have no value, so a name is not called. -/
def readNameWith (line : Line) (exhausted : SyntaxError.Cause) :
    (fuel : Nat) → Token → List Token → Except SyntaxError (Expr × List Token)
  | 0, _, _ => .error (line.endError exhausted)
  | _ + 1, name, [] => .ok (.variable name.text [], [])
  | fuel + 1, name, token :: rest =>
    match token.kind with
    | .leftBracket => do
      let (indices, rest) ← readIndicesWith line exhausted fuel (token :: rest)
      return (.variable name.text indices, rest)
    | .dot => do
      let (member, rest) ← line.expectSymbol rest
      match rest with
      | ⟨.leftParen, _, _, _⟩ :: rest =>
        let (args, rest) ← readArgsWith line exhausted fuel rest
        match Method.resolve name.text member.text args.length with
        | .ok method => return (.call method args, rest)
        | .error error => throw (memberError name member error)
      | rest =>
        match Field.resolve name.text member.text with
        | .ok field => return (.field field, rest)
        | .error error => throw (memberError name member error)
    | .leftParen => .error token.unexpected
    | _ => .ok (.variable name.text [], token :: rest)

/-- Reads any number of indices. -/
def readIndicesWith (line : Line) (exhausted : SyntaxError.Cause) :
    (fuel : Nat) → List Token → Except SyntaxError (List Expr × List Token)
  | 0, _ => .error (line.endError exhausted)
  | fuel + 1, ⟨.leftBracket, _, _, _⟩ :: rest => do
    let (index, _, rest) ← readExprWith line exhausted fuel [.rightBracket] false rest
    let (indices, rest) ← readIndicesWith line exhausted fuel rest
    return (index :: indices, rest)
  | _ + 1, rest => .ok ([], rest)

/-- Reads the arguments of a call after its opening parenthesis, and the closing one. -/
def readArgsWith (line : Line) (exhausted : SyntaxError.Cause) :
    (fuel : Nat) → List Token → Except SyntaxError (List Expr × List Token)
  | 0, _ => .error (line.endError exhausted)
  | _ + 1, ⟨.rightParen, _, _, _⟩ :: rest => .ok ([], rest)
  | fuel + 1, tokens => readMoreArgsWith line exhausted fuel tokens

/-- Reads at least one argument, and the closing parenthesis. -/
def readMoreArgsWith (line : Line) (exhausted : SyntaxError.Cause) :
    (fuel : Nat) → List Token → Except SyntaxError (List Expr × List Token)
  | 0, _ => .error (line.endError exhausted)
  | fuel + 1, tokens => do
    let (arg, closer, rest) ← readExprWith line exhausted fuel [.comma, .rightParen] false tokens
    match closer with
    | some ⟨.comma, _, _, _⟩ =>
      let (args, rest) ← readMoreArgsWith line exhausted fuel rest
      return (arg :: args, rest)
    | _ => return ([arg], rest)

end

/-- More than the reader can use: between two tokens that it passes, it descends at most four
levels. -/
def fuelFor (tokens : List Token) : Nat := 4 * tokens.length + 4

/-- Reads an expression, and returns the token that ended it and the tokens after that. -/
def readExpr (line : Line) (ending : Ending) (condition : Bool) (tokens : List Token) :
    Except SyntaxError (Expr × Option Token × List Token) :=
  readExprWith line .expectedExpression (fuelFor tokens) ending condition tokens

/-- Reads any number of indices. -/
def readIndices (line : Line) (tokens : List Token) : Except SyntaxError (List Expr × List Token) :=
  readIndicesWith line .expectedExpression (fuelFor tokens) tokens

/-- Reads the arguments of a call after its opening parenthesis, and the closing one. -/
def readArgs (line : Line) (tokens : List Token) : Except SyntaxError (List Expr × List Token) :=
  readArgsWith line .expectedExpression (fuelFor tokens) tokens

end Line

end SmallBasic
