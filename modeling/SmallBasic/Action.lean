import SmallBasic.Library.Basic
import SmallBasic.Store
import SmallBasic.Token.Basic

/-!
# Actions

A running statement talks to what all threads share, the variables and the library, one request at a
time. An action is what is left of a statement: the next request and how to go on with its answer.
Only a call of a method may have to wait, and then the action that is left is kept as it is until
the wait is over.

## Main definitions

* `World` — the variables and the library.
* `Request`, `World.perform` — what can be asked of the world, and the answer.
* `Action` — requests in order, each depending on the answers before it.
* `Action.run` — runs an action until it is done, fails, or has to wait.
* `Suspension.resume` — goes on with an action after a wait.
-/

namespace SmallBasic

/-- Why a thread cannot go on. A program that parses has no such reason; statements that were moved
out of their places may. -/
inductive Fault where
  | member (error : MemberError)
  | brokenLink (index : Nat) (word : Keyword)
deriving DecidableEq, Repr

def Fault.message : Fault → String
  | .member error => error.message
  | .brokenLink index word =>
    "internal error: statement " ++ index.repr ++ " has a broken " ++ word.text ++ " link"

/-- What all threads of a program share. -/
structure World where
  store : Store := {}
  library : Library := {}

/-- What a statement can ask of the world. -/
inductive Request where
  | readVariable (name : String)
  | writeVariable (name value : String)
  | readField (field : Field)
  | writeField (field : Field) (value : String)
  | bindEvent (event : Event) (target : Nat)
  | call (method : Method) (args : List String)
deriving DecidableEq, Repr

namespace World

/-- The world with another library. -/
def withLibrary (world : World) (library : Library) : World := { world with library }

/-- Answers a request. A request that has no answer of its own answers with the empty text. -/
def perform (world : World) (resumed : Bool) : Request → Except MemberError (Outcome × World)
  | .readVariable name => .ok (.ready (world.store.get name), world)
  | .writeVariable name value => .ok (.done, { world with store := world.store.set name value })
  | .readField field =>
    .ok (.ready (world.library.readField field),
      world.withLibrary (world.library.afterReading field))
  | .writeField field value => .ok (.done, world.withLibrary (world.library.writeField field value))
  | .bindEvent event target => .ok (.done, world.withLibrary (world.library.bindEvent event target))
  | .call method args => do
    let (outcome, library) ← world.library.call method args resumed
    return (outcome, world.withLibrary library)

end World

/-- Requests in order, up to a result or a fault. -/
inductive Action (α : Type) where
  | done (value : α)
  | fail (fault : Fault)
  | ask (request : Request) (next : String → Action α)

namespace Action

variable {α β : Type}

/-- One action after another. -/
def andThen (action : Action α) (f : α → Action β) : Action β :=
  match action with
  | .done value => f value
  | .fail fault => .fail fault
  | .ask request next => .ask request fun answer => (next answer).andThen f

instance : Monad Action where
  pure := .done
  bind := andThen

/-- The action of a single request. -/
def request (r : Request) : Action String := .ask r .done

end Action

/-- A call that waits, and how to go on with its value. -/
structure Suspension (α : Type) where
  request : Request
  next : String → Action α

/-- How far an action has come. -/
inductive Progress (α : Type) where
  | done (value : α)
  | failed (fault : Fault)
  | blocked (block : Block) (rest : Suspension α)

/-- Runs an action until it is done, fails, or has to wait. -/
def Action.run {α : Type} : Action α → World → Progress α × World
  | .done value, world => (.done value, world)
  | .fail fault, world => (.failed fault, world)
  | .ask request next, world =>
    match world.perform false request with
    | .error error => (.failed (.member error), world)
    | .ok (.ready answer, world) => (next answer).run world
    | .ok (.blocked block, world) => (.blocked block ⟨request, next⟩, world)

/-- Repeats the call that had to wait, and goes on. -/
def Suspension.resume {α : Type} (rest : Suspension α) (world : World) : Progress α × World :=
  match world.perform true rest.request with
  | .error error => (.failed (.member error), world)
  | .ok (.ready answer, world) => (rest.next answer).run world
  | .ok (.blocked block, world) => (.blocked block rest, world)

end SmallBasic
