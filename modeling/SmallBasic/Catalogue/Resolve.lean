import SmallBasic.Catalogue.Basic
import SmallBasic.Text.Case

/-!
# Finding members by name

A member is named by its object and its own name, in any case. What can go wrong is found in a fixed
order: no such object, no such member, a member of another kind, a wrong number of arguments.

## Main definitions

* `MemberError` — the four ways in which a use of a member is wrong, with their wording.
* `Member.resolve` — the member that two names stand for.
* `Method.resolve`, `Field.resolve`, `Field.resolveWritable`, `Event.resolve` — a member of a kind.
-/

namespace SmallBasic

/-- Why two names do not stand for a member that can be used as intended. -/
inductive MemberError where
  | unknownObject (object : String)
  | unknownMember (object member : String)
  | wrongKind (object member wanted : String)
  | wrongArity (object member : String) (expected given : Nat)
deriving DecidableEq, Repr

def MemberError.message : MemberError → String
  | .unknownObject object => "unknown object '" ++ object ++ "'"
  | .unknownMember object member => "'" ++ object ++ "' has no member named '" ++ member ++ "'"
  | .wrongKind object member wanted => "'" ++ object ++ "." ++ member ++ "' is not a " ++ wanted
  | .wrongArity object member expected given =>
    "'" ++ object ++ "." ++ member ++ "' takes " ++ expected.repr ++ " argument(s) but " ++
      given.repr ++ " were supplied"

/-- The object with a name. -/
def Object.find? (name : String) : Option Object :=
  Object.all.find? fun object => sameName object.name name

/-- The member of an object with a name. -/
def Object.member? (object : Object) (name : String) : Option Member :=
  object.members.find? fun member => sameName member.name name

/-- The object and the member that two names stand for. -/
def Member.resolve (object member : String) : Except MemberError (Object × Member) :=
  match Object.find? object with
  | none => .error (.unknownObject object)
  | some found =>
    match found.member? member with
    | none => .error (.unknownMember found.name member)
    | some use => .ok (found, use)

/-- The method that two names stand for, called with so many arguments. -/
def Method.resolve (object member : String) (given : Nat) : Except MemberError Method := do
  match ← Member.resolve object member with
  | (_, .method method) =>
    if method.arity = given then return method
    else throw (.wrongArity method.object.name method.name method.arity given)
  | (found, other) => throw (.wrongKind found.name other.name "method")

/-- The field that two names stand for. -/
def Field.resolve (object member : String) : Except MemberError Field := do
  match ← Member.resolve object member with
  | (_, .field field) => return field
  | (found, other) => throw (.wrongKind found.name other.name "field")

/-- The field that two names stand for, if a program may assign to it. -/
def Field.resolveWritable (object member : String) : Except MemberError Field := do
  match ← Member.resolve object member with
  | (found, .field field) =>
    if field.isWritable then return field
    else throw (.wrongKind found.name field.name "writable field")
  | (found, other) => throw (.wrongKind found.name other.name "writable field")

/-- The event that two names stand for. -/
def Event.resolve (object member : String) : Except MemberError Event := do
  match ← Member.resolve object member with
  | (_, .event event) => return event
  | (found, other) => throw (.wrongKind found.name other.name "event")

end SmallBasic
