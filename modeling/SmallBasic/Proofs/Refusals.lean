import SmallBasic.Proofs.Phrases
import SmallBasic.Proofs.Services

/-!
# Refused uses of the library

A member of the library can be used by any two names. It is refused if there is no such object, or
the object has no such member, or the member is of another kind, or it does not take so many
arguments, which is looked at in this order. Otherwise it is served, and nothing else can go wrong.
A use that is refused changes nothing.

## Main definitions

* `Use` — a use of a member by its names.
* `Use.Refused` — when a use is refused, and why.
* `Library.answer` — what the library answers.
* `Service.serve` — how the implementations serve a use.

## Main statements

* `Use.refused_iff` — a use is refused for its names, or for the member that they stand for.
* `Library.treats` — the library and the implementations make the same of a member that is there.
* `Library.refused_or_served` — exactly the uses that are to be refused are, and all others served.
-/

namespace SmallBasic

/-! ## Uses -/

/-- A use of a member by name: calling a method, reading or writing a field, or binding an event. -/
inductive Use where
  | call (object member : String) (args : List String) (resumed : Bool)
  | read (object member : String)
  | write (object member value : String)
  | bind (object member : String) (target : Nat)
deriving DecidableEq, Repr

namespace Use

def object : Use → String
  | .call object _ _ _ | .read object _ | .write object _ _ | .bind object _ _ => object

def member : Use → String
  | .call _ member _ _ | .read _ member | .write _ member _ | .bind _ member _ => member

/-- The number of arguments, where arguments are given. -/
def given? : Use → Option Nat
  | .call _ _ args _ => some args.length
  | _ => none

/-- The kind of the members that can be used so. -/
def wanted : Use → String
  | .call _ _ _ _ => "method"
  | .read _ _ => "field"
  | .write _ _ _ => "writable field"
  | .bind _ _ _ => "event"

/-- Whether a member is of this kind. -/
def accepts : Use → Member → Bool
  | .call _ _ _ _, .method _ | .read _ _, .field _ | .bind _ _ _, .event _ => true
  | .write _ _ _, .field field => field.isWritable
  | _, _ => false

/-- When a use is refused, and why. -/
inductive Refused (use : Use) : MemberError → Prop
  /-- No object has this name. -/
  | unknownObject (hobject : ∀ object : Object, sameName object.name use.object = false) :
      Refused use (.unknownObject use.object)
  /-- The object has no member of this name. -/
  | unknownMember {object : Object} (hobject : sameName object.name use.object = true)
      (hmember : ∀ member ∈ object.members, sameName member.name use.member = false) :
      Refused use (.unknownMember object.name use.member)
  /-- The member is of another kind. -/
  | wrongKind {member : Member} (hnamed : member.IsNamed use.object use.member)
      (hkind : use.accepts member = false) :
      Refused use (.wrongKind member.object.name member.name use.wanted)
  /-- The method does not take so many arguments. -/
  | wrongArity {method : Method} {given : Nat}
      (hnamed : (Member.method method).IsNamed use.object use.member)
      (hgiven : use.given? = some given) (harity : given ≠ method.arity) :
      Refused use (.wrongArity method.object.name method.name method.arity given)

end Use

/-- What the library answers to a use, and its next state. -/
def Library.answer (lib : Library) : Use → Except MemberError (Outcome × Library)
  | .call object member args resumed => lib.callByName object member args resumed
  | .read object member => do
    let field ← Field.resolve object member
    return (.ready (lib.readField field), lib.afterReading field)
  | .write object member value => do return (.done, ← lib.writeByName object member value)
  | .bind object member target => do return (.done, ← lib.bindByName object member target)

namespace Service

/-- The object and the member that two names stand for. -/
def find (object member : String) : Service (Object × Member) :=
  match Member.resolve object member with
  | .ok found => return found
  | .error e => throw (.member e)

/-- Refuses a member that is of another kind. -/
def refuse {α : Type} (use : Use) (object : Object) (member : Member) : Service α :=
  throw (.member (.wrongKind object.name member.name use.wanted))

/-- Uses a member that was found, after checking that it can be used so, through the implementation
that has its spelling. -/
def grant (use : Use) (object : Object) (member : Member) : Service Outcome := do
  match use, member with
  | .call _ _ args resumed, .method m =>
    if m.arity = args.length then method object.name m.name args resumed
    else throw (.member (.wrongArity object.name m.name m.arity args.length))
  | .read _ _, .field f => return .ready (← readField object.name f.name)
  | .write _ _ value, .field f =>
    if f.isWritable then
      writeField object.name f.name value
      return .done
    else refuse use object member
  | .bind _ _ target, .event e =>
    bindEvent object.name e.name target
    return .done
  | _, _ => refuse use object member

/-- Serves a use. -/
def serve (use : Use) : Service Outcome := do
  let (object, member) ← find use.object use.member
  grant use object member

end Service

/-! ## When a use is refused -/

theorem Object.find?_eq_none_iff {name : String} :
    Object.find? name = none ↔ ∀ object : Object, sameName object.name name = false := by
  simp only [find?, List.find?_eq_none, Bool.not_eq_true]
  exact ⟨fun hnone object => hnone object object.mem_all, fun hnone object _ => hnone object⟩

theorem Object.member?_eq_none_iff {object : Object} {name : String} :
    object.member? name = none ↔ ∀ member ∈ object.members, sameName member.name name = false := by
  simp only [member?, List.find?_eq_none, Bool.not_eq_true]

/-- Two names stand for no member if there is no such object, or it has no such member. -/
theorem Member.resolve_eq_error_iff {object name : String} {e : MemberError} :
    Member.resolve object name = .error e ↔
      (∀ found : Object, sameName found.name object = false) ∧ e = .unknownObject object ∨
        ∃ found : Object, sameName found.name object = true ∧
          (∀ member ∈ found.members, sameName member.name name = false) ∧
          e = .unknownMember found.name name := by
  simp only [← Object.find?_eq_none_iff, ← Object.find?_eq_some_iff,
    ← Object.member?_eq_none_iff]
  unfold Member.resolve
  cases hobject : Object.find? object with
  | none => simp [eq_comm]
  | some found =>
    cases hmember : found.member? name with
    | none => simp [hmember, eq_comm]
    | some member => simp [hmember]

namespace Use

variable {use : Use} {member : Member} {e : MemberError}

/-- What is wrong with using a member so. -/
def fault? : Use → Member → Option MemberError
  | .call _ _ args _, .method m =>
    if m.arity = args.length then none
    else some (.wrongArity m.object.name m.name m.arity args.length)
  | .read _ _, .field _ | .bind _ _ _, .event _ => none
  | .write _ _ _, .field f =>
    if f.isWritable then none else some (.wrongKind f.object.name f.name "writable field")
  | use, member => some (.wrongKind member.object.name member.name use.wanted)

/-- Nothing is wrong with members of the right kind, but calls with other numbers of arguments. -/
theorem fault?_eq_some_iff :
    use.fault? member = some e ↔
      use.accepts member = false ∧ e = .wrongKind member.object.name member.name use.wanted ∨
        ∃ m given, member = .method m ∧ use.given? = some given ∧ given ≠ m.arity ∧
          e = .wrongArity m.object.name m.name m.arity given := by
  cases use with
  | call object name args resumed =>
    cases member with
    | method m => simp [fault?, accepts, given?, eq_comm]
    | field | event => simp [fault?, accepts, wanted, Member.object, Member.name, eq_comm]
  | read | bind =>
    cases member <;> simp [fault?, accepts, given?, wanted, Member.object, Member.name, eq_comm]
  | write object name value =>
    cases member with
    | field f =>
      cases hwritable : f.isWritable <;>
        simp [fault?, accepts, given?, wanted, hwritable, Member.object, Member.name, eq_comm]
    | method | event =>
      simp [fault?, accepts, given?, wanted, Member.object, Member.name, eq_comm]

/-- A use is refused if its names stand for no member, or for one that cannot be used so. -/
theorem refused_iff :
    use.Refused e ↔ Member.resolve use.object use.member = .error e ∨
      ∃ member, Member.IsNamed member use.object use.member ∧ use.fault? member = some e := by
  simp only [Member.resolve_eq_error_iff, fault?_eq_some_iff]
  constructor
  · intro hrefused
    cases hrefused with
    | unknownObject hobject => exact .inl (.inl ⟨hobject, rfl⟩)
    | unknownMember hobject hmember => exact .inl (.inr ⟨_, hobject, hmember, rfl⟩)
    | wrongKind hnamed hkind => exact .inr ⟨_, hnamed, .inl ⟨hkind, rfl⟩⟩
    | wrongArity hnamed hgiven harity =>
      exact .inr ⟨_, hnamed, .inr ⟨_, _, rfl, hgiven, harity, rfl⟩⟩
  · rintro ((⟨hobject, rfl⟩ | ⟨object, hobject, hmember, rfl⟩) | ⟨member, hnamed, hfault⟩)
    · exact .unknownObject hobject
    · exact .unknownMember hobject hmember
    · rcases hfault with ⟨hkind, rfl⟩ | ⟨m, given, rfl, hgiven, harity, rfl⟩
      · exact .wrongKind hnamed hkind
      · exact .wrongArity hnamed hgiven harity

theorem refused_iff_of_error {found : MemberError}
    (hresolve : Member.resolve use.object use.member = .error found) :
    use.Refused e ↔ found = e := by
  rw [refused_iff, hresolve, Except.error.injEq, or_iff_left_iff_imp]
  rintro ⟨member, hnamed, -⟩
  cases hresolve.symm.trans (Member.resolve_eq_ok_iff.2 ⟨rfl, hnamed⟩)

theorem refused_iff_of_named (hnamed : member.IsNamed use.object use.member) :
    use.Refused e ↔ use.fault? member = some e := by
  rw [refused_iff, Member.resolve_eq_ok_iff.2 ⟨rfl, hnamed⟩]
  constructor
  · rintro (hother | ⟨other, hother, hfault⟩)
    · cases hother
    · rwa [Member.eq_of_isNamed hnamed hother]
  · exact fun hfault => .inr ⟨member, hnamed, hfault⟩

end Use

/-! ## Uses and implementations -/

section Serve

variable {use : Use} {member : Member} {e : MemberError}

theorem Service.outcome_serve_of_error (hresolve : Member.resolve use.object use.member = .error e)
    (lib : Library) : (Service.serve use).outcome lib = (.error (.member e), lib) := by
  have hfind : (Service.find use.object use.member).outcome lib = (.error (.member e), lib) := by
    rw [Service.find, hresolve]
    rfl
  rw [Service.serve, Service.outcome_bind, hfind]

theorem Library.answer_of_error (hresolve : Member.resolve use.object use.member = .error e)
    (lib : Library) : lib.answer use = .error e := by
  cases use with
  | call object name args resumed =>
    simp only [Use.object, Use.member] at hresolve
    simp [answer, callByName, Method.resolve, hresolve, bind, Except.bind]
  | read object name =>
    simp only [Use.object, Use.member] at hresolve
    simp [answer, Field.resolve, hresolve, bind, Except.bind]
  | write object name value =>
    simp only [Use.object, Use.member] at hresolve
    simp [answer, writeByName, Field.resolveWritable, hresolve, bind, Except.bind]
  | bind object name target =>
    simp only [Use.object, Use.member] at hresolve
    simp [answer, bindByName, Event.resolve, hresolve, bind, Except.bind]

theorem Service.outcome_serve_of_named (hnamed : member.IsNamed use.object use.member)
    (lib : Library) :
    (Service.serve use).outcome lib = (Service.grant use member.object member).outcome lib := by
  have hfind : (Service.find use.object use.member).outcome lib =
      (.ok (member.object, member), lib) := by
    rw [Service.find, Member.resolve_eq_ok_iff.2 ⟨rfl, hnamed⟩]
    rfl
  rw [Service.serve, Service.outcome_bind, hfind]

/-- What becomes of the use of a member that is there: it is refused, or served. -/
def Library.Treats (lib : Library) (use : Use) (member : Member) : Prop :=
  match use.fault? member with
  | some e => lib.answer use = .error e ∧
      (Service.grant use member.object member).outcome lib = (.error (.member e), lib)
  | none => ∃ outcome next last, lib.answer use = .ok (outcome, next) ∧
      (Service.grant use member.object member).outcome lib = (.ok outcome, last) ∧
      next.SameStacks last

theorem Library.treats_call (lib : Library) {object name : String} (args : List String)
    (resumed : Bool) (hnamed : member.IsNamed object name) :
    lib.Treats (.call object name args resumed) member := by
  have hresolve := Member.resolve_eq_ok_iff.2 ⟨rfl, hnamed⟩
  cases member with
  | method m =>
    by_cases harity : m.arity = args.length
    · obtain ⟨outcome, next, last, hcall, hmethod, hsame⟩ :=
        Service.method_does m harity.symm resumed lib
      simp only [Treats, Use.fault?, if_pos harity]
      refine ⟨outcome, next, last, ?_, ?_, hsame⟩
      · simp [answer, callByName, Method.resolve, hresolve, harity, call, hcall, bind, Except.bind,
          pure, Except.pure]
      · simp only [Service.grant, if_pos harity]
        exact hmethod
    · simp only [Treats, Use.fault?, if_neg harity]
      refine ⟨?_, ?_⟩
      · simp [answer, callByName, Method.resolve, hresolve, harity, bind, Except.bind, throw,
          throwThe, MonadExceptOf.throw]
      · simp only [Service.grant, if_neg harity]
        rfl
  | field | event =>
    refine ⟨?_, rfl⟩
    simp [answer, callByName, Method.resolve, hresolve, bind, Except.bind, throw, throwThe,
      MonadExceptOf.throw, Use.wanted]

theorem Library.treats_read (lib : Library) {object name : String}
    (hnamed : member.IsNamed object name) : lib.Treats (.read object name) member := by
  have hresolve := Member.resolve_eq_ok_iff.2 ⟨rfl, hnamed⟩
  cases member with
  | field f =>
    refine ⟨.ready (lib.readField f), lib.afterReading f, _, ?_, ?_, .refl _⟩
    · simp [answer, Field.resolve, hresolve, bind, Except.bind, pure, Except.pure]
    · exact Service.outcome_map Outcome.ready (Service.readField_does f lib)
  | method | event =>
    refine ⟨?_, rfl⟩
    simp [answer, Field.resolve, hresolve, bind, Except.bind, throw, throwThe,
      MonadExceptOf.throw, Use.wanted]

theorem Library.treats_write (lib : Library) {object name : String} (value : String)
    (hnamed : member.IsNamed object name) : lib.Treats (.write object name value) member := by
  have hresolve := Member.resolve_eq_ok_iff.2 ⟨rfl, hnamed⟩
  cases member with
  | field f =>
    cases hwritable : f.isWritable with
    | true =>
      simp only [Treats, Use.fault?, hwritable, if_true]
      refine ⟨.done, lib.writeField f value, _, ?_, ?_, .refl _⟩
      · simp [answer, writeByName, Field.resolveWritable, hresolve, hwritable, bind, Except.bind,
          pure, Except.pure]
      · simp only [Service.grant, hwritable, if_true]
        exact Service.outcome_map (fun _ => Outcome.done)
          (Service.writeField_does hwritable value lib)
    | false =>
      simp only [Treats, Use.fault?, hwritable, Bool.false_eq_true, if_false]
      refine ⟨?_, ?_⟩
      · simp [answer, writeByName, Field.resolveWritable, hresolve, hwritable, bind, Except.bind,
          throw, throwThe, MonadExceptOf.throw, Member.object]
      · simp only [Service.grant, hwritable, Bool.false_eq_true, if_false]
        rfl
  | method | event =>
    refine ⟨?_, rfl⟩
    simp [answer, writeByName, Field.resolveWritable, hresolve, bind, Except.bind, throw, throwThe,
      MonadExceptOf.throw, Use.wanted]

theorem Library.treats_bind (lib : Library) {object name : String} (target : Nat)
    (hnamed : member.IsNamed object name) : lib.Treats (.bind object name target) member := by
  have hresolve := Member.resolve_eq_ok_iff.2 ⟨rfl, hnamed⟩
  cases member with
  | event event =>
    refine ⟨.done, lib.bindEvent event target, _, ?_, ?_, .refl _⟩
    · simp [answer, bindByName, Event.resolve, hresolve, bind, Except.bind, pure, Except.pure]
    · exact Service.outcome_map (fun _ => Outcome.done) (Service.bindEvent_does event target lib)
  | method | field =>
    refine ⟨?_, rfl⟩
    simp [answer, bindByName, Event.resolve, hresolve, bind, Except.bind, throw, throwThe,
      MonadExceptOf.throw, Use.wanted]

theorem Library.treats (lib : Library) (hnamed : member.IsNamed use.object use.member) :
    lib.Treats use member := by
  cases use with
  | call object name args resumed => exact lib.treats_call args resumed hnamed
  | read object name => exact lib.treats_read hnamed
  | write object name value => exact lib.treats_write value hnamed
  | bind object name target => exact lib.treats_bind target hnamed

end Serve

namespace Library

/-- What the implementations make of a use. Where the library answers with an error, there is no
other trouble, and everything is as before. Where it answers, they come to the same, and all objects
are as it says, but stacks without values may have come into being. -/
def Agrees (lib : Library) (answer : Except MemberError (Outcome × Library))
    (served : Except Trouble Outcome × Library) : Prop :=
  match answer with
  | .error e => served = (.error (.member e), lib)
  | .ok (outcome, next) => ∃ last, served = (.ok outcome, last) ∧ next.SameStacks last

/-- In every state the library refuses exactly the uses that are to be refused, and for the first
reason that there is. All others are served. No implementation is missing or asks for an argument
that is not there, and a use that is refused leaves the objects exactly as they were. -/
theorem refused_or_served (lib : Library) (use : Use) :
    (∀ e, lib.answer use = .error e ↔ use.Refused e) ∧
      lib.Agrees (lib.answer use) ((Service.serve use).outcome lib) := by
  cases hresolve : Member.resolve use.object use.member with
  | error found =>
    rw [lib.answer_of_error hresolve, Service.outcome_serve_of_error hresolve]
    refine ⟨fun e => ?_, rfl⟩
    rw [Use.refused_iff_of_error hresolve, Except.error.injEq]
  | ok found =>
    obtain ⟨object, member⟩ := found
    have hnamed := (Member.resolve_eq_ok_iff.1 hresolve).2
    have htreats := lib.treats hnamed
    rw [Service.outcome_serve_of_named hnamed]
    unfold Treats at htreats
    cases hfault : use.fault? member with
    | some e =>
      rw [hfault] at htreats
      obtain ⟨hanswer, hgrant⟩ := htreats
      rw [hanswer, hgrant]
      refine ⟨fun other => ?_, rfl⟩
      rw [Use.refused_iff_of_named hnamed, hfault, Except.error.injEq, Option.some.injEq]
    | none =>
      rw [hfault] at htreats
      obtain ⟨outcome, next, last, hanswer, hgrant, hsame⟩ := htreats
      rw [hanswer, hgrant]
      refine ⟨fun e => ?_, last, rfl, hsame⟩
      rw [Use.refused_iff_of_named hnamed, hfault]
      exact iff_of_false nofun nofun

/-- The kind of a member is looked at before the number of arguments. -/
example : ({} : Library).answer (.call "math" "PI" ["1", "2"] false) =
    .error (.wrongKind "Math" "Pi" "method") := by
  rfl

end Library

end SmallBasic
