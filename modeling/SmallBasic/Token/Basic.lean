import SmallBasic.Operator

/-!
# Tokens

The words and marks of a source line, each with the text it was read from and its place. Lines and
columns count from zero, and columns count characters.
-/

namespace SmallBasic

/-- The reserved words of statements. -/
inductive Keyword where
  | if | elseIf | else | endIf | then
  | while | endWhile
  | for | endFor | to | step
  | sub | endSub
  | goto
deriving DecidableEq, Repr

namespace Keyword

/-- All reserved words of statements. -/
def all : List Keyword :=
  [.if, .elseIf, .else, .endIf, .then, .while, .endWhile, .for, .endFor, .to, .step, .sub, .endSub,
    .goto]

/-- The usual spelling. -/
def text : Keyword → String
  | .if => "If"
  | .elseIf => "ElseIf"
  | .else => "Else"
  | .endIf => "EndIf"
  | .then => "Then"
  | .while => "While"
  | .endWhile => "EndWhile"
  | .for => "For"
  | .endFor => "EndFor"
  | .to => "To"
  | .step => "Step"
  | .sub => "Sub"
  | .endSub => "EndSub"
  | .goto => "Goto"

end Keyword

/-- What a token is. The operators include `=`, which also stands for assignment. -/
inductive Token.Kind where
  | keyword (word : Keyword)
  | operator (op : Operator)
  | symbol
  | number
  | string
  | leftParen | rightParen
  | leftBracket | rightBracket
  | dot | comma | colon
  | comment
  | unexpected
deriving DecidableEq, Repr

/-- How a message names a token that should have been there. -/
def Token.Kind.description : Token.Kind → String
  | .keyword word => word.text
  | .symbol => "a variable or an object"
  | .number | .string => "a number or a string"
  | .leftParen => "("
  | .rightParen => ")"
  | .leftBracket => "["
  | .rightBracket => "]"
  | .dot => "."
  | .comma => ","
  | .colon => ":"
  | .operator .equal => "="
  | .operator op => if op.isComparator then "a comparator" else "an operator"
  | .comment => "a comment"
  | .unexpected => "unexpected token"

/-- A token with the text it was read from and its place. -/
structure Token where
  kind : Token.Kind
  text : String
  line : Nat
  column : Nat
deriving DecidableEq, Repr

namespace Token

/-- The column just past the token. -/
def endColumn (token : Token) : Nat := token.column + token.text.length

/-- A text without the quotation marks around it. The last one may be missing. -/
def unquote : List Char → List Char
  | '"' :: cs => if cs.getLast? = some '"' then cs.dropLast else cs
  | cs => cs

/-- What the token says: a string without its quotation marks, a comment without its apostrophe,
and the text of any other token. -/
def content (token : Token) : String :=
  match token.kind with
  | .string => String.ofList (unquote token.text.toList)
  | .comment => String.ofList (token.text.toList.drop 1)
  | _ => token.text

end Token

end SmallBasic
