import SmallBasic.Catalogue.Resolve
import SmallBasic.Text.Lines
import SmallBasic.Token.Basic

/-!
# Syntax errors

What can be wrong with a source text, where, and how it is reported. Lines and columns count from
zero here and from one in messages.
-/

namespace SmallBasic

/-- What is wrong at a place of the source. -/
inductive SyntaxError.Cause where
  | unexpectedToken (text : String)
  | expectedToken (choices : List String)
  | expectedExpression
  | unrecognizedStatement
  | unclosed (opener closer : Keyword)
  | unopened (found opener : Keyword)
  | nestedSub
  | duplicateLabel (name : String)
  | duplicateSub (name : String)
  | undefinedLabel (name : String)
  | undefinedSub (name : String)
  | member (error : MemberError)
  | readOnlyField (field : Field)
  | eventNeedsSub (event : Event)
  | subAssignedToVariable (name : String)
deriving DecidableEq, Repr

def SyntaxError.Cause.message : SyntaxError.Cause → String
  | .unexpectedToken text => "unexpected token '" ++ text ++ "'"
  | .expectedToken choices => "expected " ++ String.intercalate " or " choices
  | .expectedExpression => "expected an expression here"
  | .unrecognizedStatement => "unrecognized statement"
  | .unclosed opener closer => "'" ++ opener.text ++ "' is missing its closing " ++ closer.text
  | .unopened found opener => "'" ++ found.text ++ "' has no matching " ++ opener.text
  | .nestedSub => "a subroutine cannot be defined inside another subroutine"
  | .duplicateLabel name => "another label named '" ++ name ++ "' already exists"
  | .duplicateSub name => "another subroutine named '" ++ name ++ "' already exists"
  | .undefinedLabel name => "cannot find label '" ++ name ++ "' used in Goto"
  | .undefinedSub name => "subroutine '" ++ name ++ "' is not defined"
  | .member error => error.message
  | .readOnlyField field =>
    "the property '" ++ field.name ++ "' of '" ++ field.object.name ++ "' is read-only"
  | .eventNeedsSub event =>
    "event '" ++ event.object.name ++ "." ++ event.name ++
      "' can only be assigned a subroutine name"
  | .subAssignedToVariable name => "subroutine '" ++ name ++ "' can only be assigned to an event"

/-- An error and its place. -/
structure SyntaxError where
  line : Nat
  column : Nat
  cause : SyntaxError.Cause
deriving DecidableEq, Repr

namespace SyntaxError

/-- Earlier places come first. -/
def le (a b : SyntaxError) : Bool :=
  a.line < b.line || (a.line == b.line && a.column ≤ b.column)

def message (error : SyntaxError) : String :=
  "line " ++ (error.line + 1).repr ++ ", col " ++ (error.column + 1).repr ++ ": " ++
    error.cause.message

/-- The messages of several errors, one per line. -/
def messages (errors : List SyntaxError) : String :=
  String.intercalate "\n" (errors.map message)

/-- An error under its source line, with a caret below the place. -/
def excerpt (sourceLines : List String) (error : SyntaxError) : String :=
  (match sourceLines[error.line]? with
    | some text => text ++ "\n" ++ String.ofList (List.replicate error.column ' ') ++ "^\n"
    | none => "") ++
  "\t" ++ error.message ++ "\n"

/-- All errors under their source lines. -/
def annotate (source : String) (errors : List SyntaxError) : String :=
  String.join (errors.map (excerpt (lines source)))

end SyntaxError

end SmallBasic
