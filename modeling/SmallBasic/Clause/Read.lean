import SmallBasic.Clause.Basic
import SmallBasic.Expr.Read

/-!
# Reading clauses

A line is read from its first token on: a reserved word starts a clause of its own, and a name
starts a label, an assignment, or a call. What is open around the line plays no part here.
-/

namespace SmallBasic

namespace Line

/-- Reads an expression that takes up the rest of the line. -/
def readRest (line : Line) (condition : Bool) (tokens : List Token) : Except SyntaxError Expr := do
  let (value, _, _) ← line.readExpr [.endOfLine] condition tokens
  return value

/-- Reads a condition and the word `Then`, with nothing after it. -/
def readCondition (line : Line) (tokens : List Token) : Except SyntaxError Expr := do
  let (condition, _, rest) ← line.readExpr [.then] true tokens
  expectEnd rest
  return condition

/-- Reads a name with nothing after it. -/
def readName (line : Line) (tokens : List Token) : Except SyntaxError String := do
  let (name, rest) ← line.expectSymbol tokens
  expectEnd rest
  return name.text

/-- Reads the counter and the bounds of a counting loop. -/
def readFor (line : Line) (tokens : List Token) : Except SyntaxError Clause := do
  let (counter, rest) ← line.expectSymbol tokens
  let rest ← line.expect (.operator .equal) rest
  let (lower, _, rest) ← line.readExpr [.to] false rest
  let upper ← line.readRest false rest
  return .for counter.text lower upper

/-- Reads the clause that a reserved word starts. -/
def readKeyword (line : Line) (first : Token) (word : Keyword) (rest : List Token) :
    Except SyntaxError Clause :=
  match word with
  | .if => .if <$> line.readCondition rest
  | .elseIf => .elseIf <$> line.readCondition rest
  | .else => (fun _ => .else) <$> expectEnd rest
  | .endIf => (fun _ => .endIf) <$> expectEnd rest
  | .while => .while <$> line.readRest true rest
  | .endWhile => (fun _ => .endWhile) <$> expectEnd rest
  | .for => line.readFor rest
  | .endFor => (fun _ => .endFor) <$> expectEnd rest
  | .sub => .sub <$> line.readName rest
  | .endSub => (fun _ => .endSub) <$> expectEnd rest
  | .goto => .goto <$> line.readName rest
  | .then | .to | .step => .error first.unexpected

/-- Reads the value assigned to a member of the library. A field takes any value, if it can be
written; an event takes the name of a subroutine. -/
def readMemberValue (line : Line) (object member : Token) (rest : List Token) :
    Except SyntaxError Clause :=
  match Member.resolve object.text member.text with
  | .error error => .error (memberError object member error)
  | .ok (_, .field field) =>
    if field.isWritable then .assign (.field field) <$> line.readRest false rest
    else .error (member.error (.readOnlyField field))
  | .ok (_, .event event) => do
    match ← line.readRest false rest with
    | .variable name [] => return .bind event name
    | _ => throw ((rest.headD member).error (.eventNeedsSub event))
  | .ok (found, .method method) =>
    .error (member.error (.member (.wrongKind found.name method.name "field")))

/-- Reads what follows an object and a dot: a call of a method, or an assignment to a member. -/
def readMember (line : Line) (object : Token) (tokens : List Token) :
    Except SyntaxError Clause := do
  let (member, rest) ← line.expectSymbol tokens
  match rest with
  | [] => throw (line.missing ["(", "="] [])
  | token :: rest =>
    match token.kind with
    | .leftParen =>
      let (args, rest) ← line.readArgs rest
      match Method.resolve object.text member.text args.length with
      | .error error => throw (memberError object member error)
      | .ok method =>
        expectEnd rest
        return .invoke method args
    | .operator .equal => line.readMemberValue object member rest
    | _ => throw token.unexpected

/-- Reads the clause that a name starts. -/
def readSymbol (line : Line) (name : Token) : List Token → Except SyntaxError Clause
  | [] => .error (name.error .unrecognizedStatement)
  | token :: rest =>
    match token.kind with
    | .colon => (fun _ => .label name.text) <$> expectEnd rest
    | .dot => line.readMember name rest
    | .leftBracket => do
      let (indices, rest) ← line.readIndices (token :: rest)
      let rest ← line.expect (.operator .equal) rest
      .assign (.variable name.text indices) <$> line.readRest false rest
    | .operator .equal => .assign (.variable name.text []) <$> line.readRest false rest
    | .leftParen => do
      let rest ← line.expect .rightParen rest
      expectEnd rest
      return .callSub name.text
    | _ => .error token.unexpected

/-- Reads the clause of a line with at least one token. -/
def readClause (line : Line) (first : Token) (rest : List Token) : Except SyntaxError Clause :=
  match first.kind with
  | .keyword word => line.readKeyword first word rest
  | .symbol => line.readSymbol first rest
  | _ => .error first.unexpected

end Line

end SmallBasic
