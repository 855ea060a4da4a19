import SmallBasic.Action

/-!
# Members and their implementations

Every member of the catalogue is found under its own names, and every method is implemented for the
number of arguments that it takes. A request that respects the catalogue therefore has an answer,
whether the member is known or has to be found by name.

## Main definitions

* `Request.Fits` — a request that uses the library as the catalogue says.
* `World.performByName` — answers a request through the names of the member it uses.

## Main statements

* `Library.exists_call` — a method has an implementation for its arity.
* `World.perform_call_iff` — what a call does to the world.
* `World.exists_perform` — a request that fits has an answer.
* `World.performByName_eq` — finding the member by name makes no difference.
-/

namespace SmallBasic

/-! ## Finding members -/

/-- Objects and members are found under the names that the catalogue gives them. -/
theorem Object.find?_name_and_member?_name : ∀ object ∈ Object.all,
    Object.find? object.name = some object ∧
      ∀ member ∈ object.members, object.member? member.name = some member := by
  decide +kernel

theorem Object.mem_all (object : Object) : object ∈ Object.all := by
  cases object <;> decide

theorem Member.resolve_name {object : Object} {member : Member} {name : String}
    (hmember : member ∈ object.members) (hname : member.name = name) :
    Member.resolve object.name name = .ok (object, member) := by
  obtain ⟨hobject, hfound⟩ := Object.find?_name_and_member?_name object object.mem_all
  simp [Member.resolve, hobject, ← hname, hfound member hmember]

theorem Method.mem_members (method : Method) : Member.method method ∈ method.object.members := by
  cases method with
  | window m | math m | text m | array m | stack m | program m | timer m => cases m <;> decide

theorem Field.mem_members (field : Field) : Member.field field ∈ field.object.members := by
  cases field with
  | window f | clock f => cases f <;> decide
  | pi | argumentCount | directory | interval => decide

theorem Event.mem_members (event : Event) : Member.event event ∈ event.object.members := by
  cases event
  decide

theorem Method.resolve_name (method : Method) :
    Method.resolve method.object.name method.name method.arity = .ok method := by
  have hname : (Member.method method).name = method.name := rfl
  have hfound := Member.resolve_name method.mem_members hname
  simp [Method.resolve, hfound, bind, Except.bind, pure, Except.pure]

theorem Field.resolve_name (field : Field) :
    Field.resolve field.object.name field.name = .ok field := by
  have hname : (Member.field field).name = field.name := rfl
  have hfound := Member.resolve_name field.mem_members hname
  simp [Field.resolve, hfound, bind, Except.bind, pure, Except.pure]

theorem Field.resolveWritable_name {field : Field} (hwritable : field.isWritable = true) :
    Field.resolveWritable field.object.name field.name = .ok field := by
  have hname : (Member.field field).name = field.name := rfl
  have hfound := Member.resolve_name field.mem_members hname
  simp [Field.resolveWritable, hfound, hwritable, bind, Except.bind, pure, Except.pure]

theorem Event.resolve_name (event : Event) :
    Event.resolve event.object.name event.name = .ok event := by
  have hname : (Member.event event).name = event.name := rfl
  have hfound := Member.resolve_name event.mem_members hname
  simp [Event.resolve, hfound, bind, Except.bind, pure, Except.pure]

/-! ## Calling methods -/

/-- At most three arguments, spelled out. -/
theorem exists_args {args : List String} {n : Nat} (hargs : args.length = n) (hn : n ≤ 3) :
    (n = 0 ∧ args = []) ∨ (∃ a, n = 1 ∧ args = [a]) ∨ (∃ a b, n = 2 ∧ args = [a, b]) ∨
      ∃ a b c, n = 3 ∧ args = [a, b, c] := by
  match args, hargs with
  | [], hargs => exact .inl ⟨hargs.symm, rfl⟩
  | [a], hargs => exact .inr (.inl ⟨a, hargs.symm, rfl⟩)
  | [a, b], hargs => exact .inr (.inr (.inl ⟨a, b, hargs.symm, rfl⟩))
  | [a, b, c], hargs => exact .inr (.inr (.inr ⟨a, b, c, hargs.symm, rfl⟩))
  | _ :: _ :: _ :: _ :: _, hargs =>
    simp at hargs
    omega

theorem Method.arity_le (method : Method) : method.arity ≤ 3 := by
  cases method with
  | window m | math m | text m | array m | stack m | program m | timer m => cases m <;> decide

namespace Library

theorem isSome_call? (lib : Library) {method : Method} {args : List String}
    (hargs : args.length = method.arity) (resumed : Bool) :
    (lib.call? method args resumed).isSome = true := by
  obtain ⟨hn, rfl⟩ | ⟨a, hn, rfl⟩ | ⟨a, b, hn, rfl⟩ | ⟨a, b, c, hn, rfl⟩ :=
    exists_args hargs method.arity_le
  all_goals
    cases method with
    | window m | math m | text m | array m | stack m | program m | timer m =>
      cases m <;> first | rfl | cases hn

/-- A method is implemented for the number of arguments that it takes. -/
theorem exists_call (lib : Library) {method : Method} {args : List String}
    (hargs : args.length = method.arity) (resumed : Bool) :
    ∃ outcome next, lib.call method args resumed = .ok (outcome, next) := by
  obtain ⟨⟨outcome, next⟩, hcall⟩ := Option.isSome_iff_exists.1 (lib.isSome_call? hargs resumed)
  exact ⟨outcome, next, by rw [call, hcall]⟩

end Library

/-! ## Requests -/

/-- A request that uses the library as the catalogue says. Where `binds` is false it binds no
event. -/
def Request.Fits (r : Request) (binds : Prop := True) : Prop :=
  match r with
  | .call method args => args.length = method.arity
  | .writeField field _ => field.isWritable = true
  | .bindEvent _ _ => binds
  | .readVariable _ | .writeVariable _ _ | .readField _ => True

namespace World

/-- Answers a request. A member of the library is looked up by its names. -/
def performByName (world : World) (resumed : Bool) :
    Request → Except MemberError (Outcome × World)
  | .readVariable name => world.perform resumed (.readVariable name)
  | .writeVariable name value => world.perform resumed (.writeVariable name value)
  | .readField field => do
    let value ← world.library.readByName field.object.name field.name
    return (.ready value, world.withLibrary (world.library.afterReading field))
  | .writeField field value => do
    let library ← world.library.writeByName field.object.name field.name value
    return (.done, world.withLibrary library)
  | .bindEvent event target => do
    let library ← world.library.bindByName event.object.name event.name target
    return (.done, world.withLibrary library)
  | .call method args => do
    let (outcome, library) ←
      world.library.callByName method.object.name method.name args resumed
    return (outcome, world.withLibrary library)

/-- A call changes the library, as its method does. -/
theorem perform_call_iff {world next : World} {resumed : Bool} {method : Method}
    {args : List String} {outcome : Outcome} :
    world.perform resumed (.call method args) = .ok (outcome, next) ↔
      ∃ library, world.library.call? method args resumed = some (outcome, library) ∧
        next = world.withLibrary library := by
  simp only [perform, Library.call]
  cases world.library.call? method args resumed with
  | none => simp [bind, Except.bind]
  | some result =>
    simp only [bind, Except.bind, pure, Except.pure, Except.ok.injEq, Prod.mk.injEq,
      Option.some.injEq]
    constructor
    · rintro ⟨rfl, rfl⟩
      exact ⟨result.2, rfl, rfl⟩
    · rintro ⟨library, rfl, rfl⟩
      exact ⟨rfl, rfl⟩

variable {r : Request} {binds : Prop}

/-- A request that fits has an answer. -/
theorem exists_perform (world : World) (resumed : Bool) (hfits : r.Fits binds) :
    ∃ outcome next, world.perform resumed r = .ok (outcome, next) := by
  cases r with
  | call method args =>
    obtain ⟨outcome, next, hcall⟩ := world.library.exists_call hfits resumed
    refine ⟨outcome, world.withLibrary next, ?_⟩
    simp [perform, hcall, bind, Except.bind, pure, Except.pure]
  | _ => exact ⟨_, _, rfl⟩

/-- Finding the member of a request by name makes no difference. -/
theorem performByName_eq (world : World) (resumed : Bool) (hfits : r.Fits binds) :
    world.performByName resumed r = world.perform resumed r := by
  cases r with
  | readVariable | writeVariable => rfl
  | readField field =>
    simp [performByName, perform, Library.readByName, Field.resolve_name, bind, Except.bind, pure,
      Except.pure]
  | writeField field value =>
    simp [performByName, perform, Library.writeByName, Field.resolveWritable_name hfits, bind,
      Except.bind, pure, Except.pure]
  | bindEvent event target =>
    simp [performByName, perform, Library.bindByName, Event.resolve_name, bind, Except.bind, pure,
      Except.pure]
  | call method args =>
    have hargs : args.length = method.arity := hfits
    simp [performByName, perform, Library.callByName, hargs, Method.resolve_name, bind, Except.bind]

end World

end SmallBasic
