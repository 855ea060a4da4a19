import SmallBasic.Proofs.CaselessParsing
import SmallBasic.Proofs.Safety

/-!
# Runs without case

The world answers a request for a variable without regard to the case of its name, so a program runs
as the program without case does. Two spellings of a source therefore run alike: after the same
moves their machines share the world, and their threads stand at the same places and wait for the
same things.

## Main definitions

* `Action.caseless`, `Machine.caseless` — what is left to do, without the case of names.
* `Machine.Mirrors` — two machines that cannot be told apart but by the spelling of names.

## Main statements

* `Program.execute_caseless` — a statement does what the statement without case does.
* `Machine.after_caseless` — the same moves take a machine and the machine without case along.
* `parse_respelled` — two spellings have the same errors, or the same program and the same runs.
-/

namespace SmallBasic

/-! ## Actions -/

/-- The request without the case of the variable's name. -/
def Request.caseless : Request → Request
  | .readVariable name => .readVariable (foldCase name)
  | .writeVariable name value => .writeVariable (foldCase name) value
  | request => request

/-- The world does not mind the case of names. -/
theorem World.perform_caseless (world : World) (resumed : Bool) (request : Request) :
    world.perform resumed request.caseless = world.perform resumed request := by
  cases request <;> simp [Request.caseless, World.perform, Store.get, Store.set]

namespace Action

variable {α β : Type}

/-- The action without the case of the names in its requests. -/
def caseless : Action α → Action α
  | .done value => .done value
  | .fail fault => .fail fault
  | .ask request next => .ask request.caseless fun answer => (next answer).caseless

theorem caseless_bind (action : Action α) (f : α → Action β) :
    (action >>= f).caseless = action.caseless >>= fun value => (f value).caseless := by
  induction action with
  | done | fail => rfl
  | ask request next ih => exact congrArg (ask request.caseless) (funext ih)

@[simp] theorem caseless_pure (value : α) : (pure value : Action α).caseless = pure value := rfl

@[simp] theorem caseless_request (r : Request) : (request r).caseless = request r.caseless := rfl

end Action

mutual

theorem Expr.eval_caseless : (e : Expr) → e.caseless.eval = e.eval.caseless
  | .literal text => by simp [Expr.caseless, Expr.eval]
  | .variable name indices => by
    simp [Expr.caseless, Expr.eval, Expr.evalAll_caseless indices, Action.caseless_bind,
      Request.caseless]
  | .field f => by simp [Expr.caseless, Expr.eval, Request.caseless]
  | .binary op left right => by
    simp [Expr.caseless, Expr.eval, left.eval_caseless, right.eval_caseless, Action.caseless_bind]
  | .call method args => by
    simp [Expr.caseless, Expr.eval, Expr.evalAll_caseless args, Action.caseless_bind,
      Request.caseless]

theorem Expr.evalAll_caseless :
    (es : List Expr) → Expr.evalAll (Expr.caselessAll es) = (Expr.evalAll es).caseless
  | [] => by simp [Expr.caselessAll, Expr.evalAll]
  | e :: es => by
    simp [Expr.caselessAll, Expr.evalAll, e.eval_caseless, Expr.evalAll_caseless es,
      Action.caseless_bind]

end

theorem Place.store_caseless (place : Place) (value : String) :
    place.caseless.store value = (place.store value).caseless := by
  cases place with
  | field f => simp [Place.caseless, Place.store, Action.caseless_bind, Request.caseless]
  | «variable» name indices =>
    cases indices with
    | nil => simp [Place.caseless, Place.store, Action.caseless_bind, Request.caseless]
    | cons index indices =>
      simp only [Place.caseless, Place.store, List.map_cons]
      rw [← List.map_cons, ← Expr.caselessAll_eq_map, Expr.evalAll_caseless]
      simp [Action.caseless_bind, Request.caseless]

/-! ## Statements -/

namespace Program

variable (program : Program)

@[simp] theorem size_caseless : program.caseless.size = program.size := by
  simp [size, caseless]

@[simp] theorem get?_caseless (index : Nat) :
    program.caseless.get? index = (program.get? index).map Statement.caseless := by
  simp [get?, caseless]

@[simp] theorem target_caseless (statement : Statement) :
    program.caseless.target statement.caseless = program.target statement := by
  rw [target, size_caseless]
  rfl

theorem selectBranch_caseless (limit index : Nat) :
    program.caseless.selectBranch limit index = (program.selectBranch limit index).caseless := by
  induction limit generalizing index with
  | zero => rfl
  | succ limit ih =>
    rw [selectBranch, selectBranch, get?_caseless]
    cases program.get? index with
    | none => rfl
    | some statement =>
      simp only [Option.map_some, target_caseless]
      obtain ⟨line, clause, link⟩ := statement
      cases clause with
      | elseIf condition =>
        simp only [Statement.caseless, Clause.caseless, condition.eval_caseless,
          Action.caseless_bind]
        refine congrArg _ (funext fun value => ?_)
        split
        · rfl
        · exact ih _
      | _ => rfl

theorem skipBranches_caseless (limit index : Nat) :
    program.caseless.skipBranches limit index = (program.skipBranches limit index).caseless := by
  induction limit generalizing index with
  | zero => rfl
  | succ limit ih =>
    rw [skipBranches, skipBranches, get?_caseless]
    cases program.get? index with
    | none => rfl
    | some statement =>
      simp only [Option.map_some, target_caseless]
      obtain ⟨line, clause, link⟩ := statement
      cases clause with
      | elseIf | «else» => exact ih _
      | _ => rfl

theorem repeatFor_caseless (index start : Nat) :
    program.caseless.repeatFor index start = (program.repeatFor index start).caseless := by
  rw [repeatFor, repeatFor, get?_caseless]
  cases program.get? start with
  | none => rfl
  | some statement =>
    obtain ⟨line, clause, link⟩ := statement
    cases clause with
    | «for» counter lower upper =>
      simp only [Option.map_some, Statement.caseless, Clause.caseless, upper.eval_caseless,
        Action.caseless_bind, Action.caseless_request, Request.caseless]
      refine congrArg _ (funext fun value => congrArg _ (funext fun _ => congrArg _
        (funext fun bound => ?_)))
      split <;> rfl
    | _ => rfl

/-- A statement does what the statement without case does. -/
theorem execute_caseless (index : Nat) (statement : Statement) :
    program.caseless.execute index statement.caseless =
      (program.execute index statement).caseless := by
  unfold execute
  simp only [target_caseless, walkLimit, size_caseless]
  obtain ⟨line, clause, link⟩ := statement
  cases clause with
  | assign place value =>
    simp [Statement.caseless, Clause.caseless, value.eval_caseless, place.store_caseless,
      Action.caseless_bind]
  | bind event handler =>
    simp [Statement.caseless, Clause.caseless, Action.caseless_bind, Request.caseless]
  | invoke method args =>
    simp [Statement.caseless, Clause.caseless, ← Expr.caselessAll_eq_map, Expr.evalAll_caseless,
      Action.caseless_bind, Request.caseless]
  | «if» condition =>
    simp only [Statement.caseless, Clause.caseless, condition.eval_caseless, Action.caseless_bind,
      selectBranch_caseless]
    refine congrArg _ (funext fun value => ?_)
    split
    · rfl
    · rw [Action.caseless_bind]
      rfl
  | elseIf | «else» =>
    simp only [Statement.caseless, Clause.caseless, Action.caseless_bind, skipBranches_caseless,
      Action.caseless_pure]
  | «while» condition =>
    simp only [Statement.caseless, Clause.caseless, condition.eval_caseless, Action.caseless_bind]
    refine congrArg _ (funext fun value => ?_)
    split <;> rfl
  | «for» counter lower upper =>
    simp only [Statement.caseless, Clause.caseless, lower.eval_caseless, upper.eval_caseless,
      Action.caseless_bind, Action.caseless_request, Request.caseless]
    refine congrArg _ (funext fun first => congrArg _ (funext fun _ => congrArg _
      (funext fun last => ?_)))
    split <;> rfl
  | endFor => exact program.repeatFor_caseless index _
  | _ => rfl

end Program

/-! ## Threads -/

/-- The suspended call without the case of names. -/
def Suspension.caseless {α : Type} (rest : Suspension α) : Suspension α :=
  ⟨rest.request.caseless, fun answer => (rest.next answer).caseless⟩

def Progress.caseless {α : Type} : Progress α → Progress α
  | .done value => .done value
  | .failed fault => .failed fault
  | .blocked block rest => .blocked block rest.caseless

theorem Action.run_caseless {α : Type} (action : Action α) (world : World) :
    action.caseless.run world = Prod.map Progress.caseless id (action.run world) := by
  induction action generalizing world with
  | done | fail => rfl
  | ask request next ih =>
    rw [caseless, run, run, World.perform_caseless]
    split
    · rfl
    · exact ih _ _
    · rfl

theorem Suspension.resume_caseless {α : Type} (rest : Suspension α) (world : World) :
    rest.caseless.resume world = Prod.map Progress.caseless id (rest.resume world) := by
  rw [resume, resume, caseless, World.perform_caseless]
  dsimp only
  split
  · rfl
  · exact (rest.next _).run_caseless _
  · rfl

namespace Thread

def Phase.caseless : Phase → Phase
  | .ready => .ready
  | .waiting block rest => .waiting block rest.caseless
  | .woken rest => .woken rest.caseless
  | .finished => .finished

/-- The thread without the case of names in what it has left to do. -/
def caseless (thread : Thread) : Thread := { thread with phase := thread.phase.caseless }

@[simp] theorem block?_caseless (thread : Thread) : thread.caseless.block? = thread.block? := by
  obtain ⟨id, ip, returns, phase⟩ := thread
  cases phase <;> rfl

@[simp] theorem isFinished_caseless (thread : Thread) :
    thread.caseless.isFinished = thread.isFinished := by
  obtain ⟨id, ip, returns, phase⟩ := thread
  cases phase <;> rfl

theorem unblock_caseless (thread : Thread) : thread.caseless.unblock = thread.unblock.caseless := by
  obtain ⟨id, ip, returns, phase⟩ := thread
  cases phase <;> rfl

theorem goto_caseless (thread : Thread) (program : Program) (index : Nat) :
    thread.caseless.goto program.caseless index =
      ((thread.goto program index).1, (thread.goto program index).2.caseless) := by
  simp only [goto, Program.size_caseless]
  split <;> rfl

theorem settle_caseless (thread : Thread) (program : Program) (progress : Progress Flow) :
    thread.caseless.settle program.caseless progress.caseless =
      ((thread.settle program progress).1, (thread.settle program progress).2.caseless) := by
  cases progress with
  | failed | blocked => rfl
  | done flow =>
    obtain ⟨id, ip, returns, phase⟩ := thread
    cases flow with
    | next => exact goto_caseless ⟨id, ip, returns, phase⟩ program (ip + 1)
    | jump target => exact goto_caseless ⟨id, ip, returns, phase⟩ program target
    | enter target => exact goto_caseless ⟨id, ip, (ip + 1) :: returns, phase⟩ program target
    | leave =>
      cases returns with
      | nil => rfl
      | cons address returns => exact goto_caseless ⟨id, ip, returns, phase⟩ program address

/-- A step of a thread is the step of the thread without case. -/
theorem step_caseless (thread : Thread) (program : Program) (world : World) :
    thread.caseless.step program.caseless world =
      ((thread.step program world).1, (thread.step program world).2.1.caseless,
        (thread.step program world).2.2) := by
  have hsettle := thread.settle_caseless program
  obtain ⟨id, ip, returns, phase⟩ := thread
  cases phase with
  | finished | waiting => rfl
  | woken rest =>
    simp only [step, caseless, Phase.caseless, rest.resume_caseless, Prod.map] at hsettle ⊢
    rw [hsettle]
    rfl
  | ready =>
    simp only [step, caseless, Phase.caseless, Program.get?_caseless] at hsettle ⊢
    cases program.get? ip with
    | none => rfl
    | some statement =>
      simp only [Option.map_some, Program.execute_caseless, Action.run_caseless, Prod.map]
      rw [hsettle]
      rfl

end Thread

/-! ## Machines -/

def Round.caseless (round : Round) : Round :=
  { round with threads := round.threads.map Thread.caseless }

namespace Machine

variable (machine : Machine)

/-- The machine without the case of names. -/
def caseless : Machine :=
  { machine with
    program := machine.program.caseless
    threads := machine.threads.map Thread.caseless }

theorem isParked_caseless (world : World) (now : Nat) (thread : Thread) :
    isParked world now thread.caseless = isParked world now thread := by
  rw [isParked, Thread.block?_caseless, isParked]

theorem round_caseless (program : Program) (now : Nat) (threads : List Thread) (world : World) :
    round program.caseless now (threads.map Thread.caseless) world =
      (round program now threads world).caseless := by
  induction threads generalizing world with
  | nil => rfl
  | cons thread threads ih =>
    simp only [List.map_cons, round, isParked_caseless, Thread.unblock_caseless,
      Thread.step_caseless, ih]
    generalize thread.unblock.step program world = result
    obtain ⟨report, stepped, next⟩ := result
    by_cases hparked : isParked world now thread = true
    · rw [if_pos hparked, if_pos hparked]
      rfl
    · rw [if_neg hparked, if_neg hparked]
      cases report with
      | failed fault => rfl
      | ran | blocked | finished =>
        dsimp only
        by_cases hended : next.library.ended = true
        · rw [if_pos hended, if_pos hended]
          rfl
        · rw [if_neg hended, if_neg hended]
          rfl

theorem spawn_caseless (ip : Nat) : machine.caseless.spawn ip = (machine.spawn ip).caseless := by
  simp [spawn, caseless, Thread.start, Thread.caseless, Thread.Phase.caseless]

theorem awaken_caseless (now : Nat) :
    machine.caseless.awaken now = ((machine.awaken now).1, (machine.awaken now).2.caseless) := by
  have hworld : machine.caseless.world = machine.world := rfl
  unfold awaken
  rw [hworld]
  obtain ⟨handler?, library⟩ := (machine.world.library.setNow now).due now
  cases handler? with
  | none => rfl
  | some handler =>
    exact congrArg (Prod.mk true)
      (spawn_caseless { machine with world := machine.world.withLibrary library } handler)

/-- A tick of a machine is the tick of the machine without case. -/
theorem tick_caseless (now : Nat) :
    machine.caseless.tick now = ((machine.tick now).1, (machine.tick now).2.caseless) := by
  unfold tick
  by_cases hended : machine.ended = true
  · rw [if_pos hended, if_pos (show machine.caseless.ended = true from hended)]
  rw [if_neg hended, if_neg (show ¬machine.caseless.ended = true from hended), awaken_caseless]
  obtain ⟨started, awake⟩ := machine.awaken now
  have hround := round_caseless awake.program now awake.threads awake.world
  simp only [caseless, hround, Round.caseless]
  generalize round awake.program now awake.threads awake.world = result
  obtain ⟨threads, world, progressed, ended, fault?⟩ := result
  have hfilter : (threads.map Thread.caseless).filter (!·.isFinished) =
      (threads.filter (!·.isFinished)).map Thread.caseless := by
    rw [List.filter_map]
    exact congrArg _ (List.filter_congr fun thread _ => by simp)
  cases fault? with
  | some fault => rfl
  | none =>
    dsimp only
    rw [hfilter]
    cases ended <;> simp [isFinished]

theorem apply_caseless (move : Move) :
    machine.caseless.apply move = (machine.apply move).caseless := by
  cases move with
  | tick now => rw [apply, tick_caseless, apply]
  | spawn ip => exact machine.spawn_caseless ip
  | push | close => rfl

theorem after_caseless (moves : List Move) :
    machine.caseless.after moves = (machine.after moves).caseless := by
  induction moves generalizing machine with
  | nil => rfl
  | cons move moves ih =>
    rw [after, List.foldl_cons, apply_caseless]
    exact ih (machine.apply move)

theorem start_caseless (program : Program) (library : Library) :
    start program.caseless library = (start program library).caseless := by
  unfold start
  rw [Program.size_caseless]
  split
  · exact spawn_caseless { program, world := { library } } 0
  · rfl

/-- The machines share the world, whose variables have one value each under all spellings of their
names, and their threads stand at the same places and wait for the same things. Neither does a tick
report anything else. -/
structure Mirrors (machine other : Machine) : Prop where
  world_eq : machine.world = other.world
  value_eq : ∀ name spelling, foldCase name = foldCase spelling →
    machine.world.store.get name = other.world.store.get spelling
  ids_eq : machine.threads.map (·.id) = other.threads.map (·.id)
  ips_eq : machine.threads.map (·.ip) = other.threads.map (·.ip)
  returns_eq : machine.threads.map (·.returns) = other.threads.map (·.returns)
  blocks_eq : machine.threads.map (·.block?) = other.threads.map (·.block?)
  ended_eq : machine.ended = other.ended
  report_eq : ∀ now, (machine.tick now).1 = (other.tick now).1

/-- What does not depend on the case of a thread's names is the same for all threads. -/
theorem map_eq_of_caseless {α : Type} {threads others : List Thread} {view : Thread → α}
    (hview : ∀ thread, view thread.caseless = view thread)
    (hsame : threads.map Thread.caseless = others.map Thread.caseless) :
    threads.map view = others.map view := by
  have hmap : ∀ threads : List Thread,
      (threads.map Thread.caseless).map view = threads.map view := by
    intro threads
    rw [List.map_map]
    exact List.map_congr_left fun thread _ => hview thread
  rw [← hmap threads, hsame, hmap others]

theorem mirrors_of_caseless {machine other : Machine} (hsame : machine.caseless = other.caseless) :
    machine.Mirrors other := by
  have hworld : machine.caseless.world = other.caseless.world := by rw [hsame]
  have hthreads : machine.caseless.threads = other.caseless.threads := by rw [hsame]
  have hended : machine.caseless.ended = other.caseless.ended := by rw [hsame]
  constructor
  case world_eq => exact hworld
  case value_eq =>
    intro name spelling hname
    rw [show machine.world = other.world from hworld, Store.get, hname, Store.get]
  case ids_eq => exact map_eq_of_caseless (fun _ => rfl) hthreads
  case ips_eq => exact map_eq_of_caseless (fun _ => rfl) hthreads
  case returns_eq => exact map_eq_of_caseless (fun _ => rfl) hthreads
  case blocks_eq => exact map_eq_of_caseless Thread.block?_caseless hthreads
  case ended_eq => exact hended
  case report_eq =>
    intro now
    have htick := congrArg (fun machine => (machine.tick now).1) hsame
    simpa only [tick_caseless] using htick

/-- Programs that are equal without case run alike. -/
theorem mirrors_after {program other : Program} (hsame : program.caseless = other.caseless)
    (library : Library) (moves : List Move) :
    ((start program library).after moves).Mirrors ((start other library).after moves) := by
  apply mirrors_of_caseless
  rw [← after_caseless, ← after_caseless, ← start_caseless, ← start_caseless, hsame]

end Machine

/-- The case of letters outside string literals never matters. Of two spellings of a source both
have errors, and these are the same up to the case of the texts they quote; or both parse, the
programs are the same up to the case of the names in their statements, and whatever is done to both
of their machines, neither shows what the other does not. -/
theorem parse_respelled {source other : String} (hrespells : Respells source other) :
    (∃ program respelled, Program.parse source = .ok program ∧
        Program.parse other = .ok respelled ∧ program.caseless = respelled.caseless ∧
        ∀ (library : Library) (moves : List Machine.Move),
          ((Machine.start program library).after moves).Mirrors
            ((Machine.start respelled library).after moves)) ∨
      ∃ errors respelled, Program.parse source = .error errors ∧
        Program.parse other = .error respelled ∧
        errors.map SyntaxError.caseless = respelled.map SyntaxError.caseless := by
  have halike := hrespells.alike_parse
  generalize Program.parse source = parsed at halike
  generalize Program.parse other = reparsed at halike
  cases halike with
  | ok hsame => exact .inl ⟨_, _, rfl, rfl, hsame, Machine.mirrors_after hsame⟩
  | error hsame => exact .inr ⟨_, _, rfl, rfl, hsame⟩

theorem parse_respelled_greeting :
    Respells "Name = \"Ada\"\nGreet()\nSub Greet\nTextWindow.WriteLine(Name)\nEndSub"
        "NAME = \"Ada\"\ngReEt()\nsub GREET\ntextwindow.WRITELINE(name)\nENDSUB" ∧
      ∃ program respelled,
        Program.parse "Name = \"Ada\"\nGreet()\nSub Greet\nTextWindow.WriteLine(Name)\nEndSub" =
          .ok program ∧
        Program.parse "NAME = \"Ada\"\ngReEt()\nsub GREET\ntextwindow.WRITELINE(name)\nENDSUB" =
          .ok respelled ∧
        program.caseless = respelled.caseless ∧
        ∀ (library : Library) (moves : List Machine.Move),
          ((Machine.start program library).after moves).Mirrors
            ((Machine.start respelled library).after moves) := by
  have hrespells : Respells
      "Name = \"Ada\"\nGreet()\nSub Greet\nTextWindow.WriteLine(Name)\nEndSub"
      "NAME = \"Ada\"\ngReEt()\nsub GREET\ntextwindow.WRITELINE(name)\nENDSUB" :=
    ⟨by decide +kernel, by decide +kernel⟩
  refine ⟨hrespells, ?_⟩
  rcases parse_respelled hrespells with hparses | ⟨errors, _, herrors, -⟩
  · exact hparses
  · obtain ⟨program, hparse⟩ := Program.exists_of_isOk
      "Name = \"Ada\"\nGreet()\nSub Greet\nTextWindow.WriteLine(Name)\nEndSub" (by decide +kernel)
    cases herrors.symm.trans hparse

end SmallBasic
