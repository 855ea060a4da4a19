import Mathlib.Data.List.Basic
import SmallBasic.Proofs.Dispatch

/-!
# What methods do

A method is implemented for the number of arguments that it takes, and for no other. So the calls of
an object can be gone through method by method, each with its arguments spelled out. A method looks
at what belongs to its object, and leaves what belongs to another.

## Main definitions

* `Library.ChangesOwn` — what a method may change.

## Main statements

* `WindowMethod.args_cases`, `ProgramMethod.args_cases`, `ArrayMethod.args_cases`,
  `StackMethod.args_cases`, `TimerMethod.args_cases` — the methods of an object, each with its
  arguments.
* `Library.callMath?_own`, `Library.callArray?_own`, `Library.callStack?_own` — what a method looks
  at.
* `Library.callMath?_map`, `Library.callArray?_map`, `Library.callStack?_map` — a method and a
  change of something else can be taken in either order.
* `Library.changesOwn_call?` — a method leaves what belongs to another object.
-/

namespace SmallBasic

/-! ## Methods with their arguments -/

@[elab_as_elim]
theorem WindowMethod.args_cases {motive : WindowMethod → List String → Prop}
    (write : ∀ text, motive .write [text])
    (writeLine : ∀ text, motive .writeLine [text])
    (read : motive .read [])
    (readNumber : motive .readNumber [])
    (pause : motive .pause [])
    (pauseWithoutMessage : motive .pauseWithoutMessage [])
    (pauseIfVisible : motive .pauseIfVisible [])
    (clear : motive .clear [])
    («show» : motive .show [])
    (hide : motive .hide [])
    (other : ∀ method args, args.length ≠ method.arity → motive method args)
    (method : WindowMethod) (args : List String) : motive method args := by
  by_cases hargs : args.length = method.arity
  · cases method with
    | write | writeLine =>
      obtain ⟨text, rfl⟩ := List.length_eq_one_iff.1 hargs
      solve_by_elim
    | _ =>
      obtain rfl := List.length_eq_zero_iff.1 hargs
      assumption
  · exact other method args hargs

@[elab_as_elim]
theorem ProgramMethod.args_cases {motive : ProgramMethod → List String → Prop}
    (getArgument : ∀ index, motive .getArgument [index])
    (delay : ∀ length, motive .delay [length])
    («end» : motive .end [])
    (other : ∀ method args, args.length ≠ method.arity → motive method args)
    (method : ProgramMethod) (args : List String) : motive method args := by
  by_cases hargs : args.length = method.arity
  · cases method with
    | getArgument | delay =>
      obtain ⟨text, rfl⟩ := List.length_eq_one_iff.1 hargs
      solve_by_elim
    | «end» =>
      obtain rfl := List.length_eq_zero_iff.1 hargs
      exact «end»
  · exact other method args hargs

@[elab_as_elim]
theorem ArrayMethod.args_cases {motive : ArrayMethod → List String → Prop}
    (containsIndex : ∀ array key, motive .containsIndex [array, key])
    (containsValue : ∀ array value, motive .containsValue [array, value])
    (getAllIndices : ∀ array, motive .getAllIndices [array])
    (getItemCount : ∀ array, motive .getItemCount [array])
    (isArray : ∀ array, motive .isArray [array])
    (setValue : ∀ name key value, motive .setValue [name, key, value])
    (getValue : ∀ name key, motive .getValue [name, key])
    (removeValue : ∀ name key, motive .removeValue [name, key])
    (other : ∀ method args, args.length ≠ method.arity → motive method args)
    (method : ArrayMethod) (args : List String) : motive method args := by
  by_cases hargs : args.length = method.arity
  · cases method with
    | getAllIndices | getItemCount | isArray =>
      obtain ⟨array, rfl⟩ := List.length_eq_one_iff.1 hargs
      solve_by_elim
    | containsIndex | containsValue | getValue | removeValue =>
      obtain ⟨first, second, rfl⟩ := List.length_eq_two.1 hargs
      solve_by_elim
    | setValue =>
      obtain ⟨name, key, value, rfl⟩ := List.length_eq_three.1 hargs
      exact setValue name key value
  · exact other method args hargs

@[elab_as_elim]
theorem StackMethod.args_cases {motive : StackMethod → List String → Prop}
    (pushValue : ∀ name value, motive .pushValue [name, value])
    (popValue : ∀ name, motive .popValue [name])
    (getCount : ∀ name, motive .getCount [name])
    (other : ∀ method args, args.length ≠ method.arity → motive method args)
    (method : StackMethod) (args : List String) : motive method args := by
  by_cases hargs : args.length = method.arity
  · cases method with
    | pushValue =>
      obtain ⟨name, value, rfl⟩ := List.length_eq_two.1 hargs
      exact pushValue name value
    | popValue | getCount =>
      obtain ⟨name, rfl⟩ := List.length_eq_one_iff.1 hargs
      solve_by_elim
  · exact other method args hargs

@[elab_as_elim]
theorem TimerMethod.args_cases {motive : TimerMethod → List String → Prop}
    (pause : motive .pause [])
    (resume : motive .resume [])
    (other : ∀ method args, args ≠ [] → motive method args)
    (method : TimerMethod) (args : List String) : motive method args := by
  by_cases hargs : args = []
  · subst hargs
    cases method <;> assumption
  · exact other method args hargs

namespace Library

variable {lib next : Library} {args : List String} {resumed : Bool} {outcome : Outcome}
  {value : String}

/-! ## Numbers of arguments -/

theorem callWindow?_eq_none (lib : Library) (resumed : Bool) {method : WindowMethod}
    (hargs : args.length ≠ method.arity) : lib.callWindow? resumed method args = none := by
  unfold callWindow?
  split <;> first | rfl | exact absurd rfl hargs

theorem callProgram?_eq_none (lib : Library) (resumed : Bool) {method : ProgramMethod}
    (hargs : args.length ≠ method.arity) : lib.callProgram? resumed method args = none := by
  unfold callProgram?
  split <;> first | rfl | exact absurd rfl hargs

theorem callArray?_eq_none (lib : Library) {method : ArrayMethod}
    (hargs : args.length ≠ method.arity) : lib.callArray? method args = none := by
  unfold callArray?
  split <;> first | rfl | exact absurd rfl hargs

theorem callStack?_eq_none (lib : Library) {method : StackMethod}
    (hargs : args.length ≠ method.arity) : lib.callStack? method args = none := by
  unfold callStack?
  split <;> first | rfl | exact absurd rfl hargs

theorem callTimer?_eq_none (lib : Library) {method : TimerMethod} (hargs : args ≠ []) :
    lib.callTimer? method args = none := by
  unfold callTimer?
  split <;> first | rfl | exact absurd rfl hargs

/-! ## Methods that never wait -/

/-- The library that a call leaves, whatever its value is. -/
theorem eq_snd_of_some {α : Type} {result : α × Library} {value : α}
    (hresult : some result = some (value, next)) : next = result.2 :=
  (congrArg Prod.snd (Option.some.inj hresult)).symm

/-- A method that never waits is ready at once. -/
theorem exists_of_ready {result : Option (String × Library)}
    (hready : ready result = some (outcome, next)) :
    ∃ value, result = some (value, next) ∧ outcome = .ready value := by
  obtain ⟨⟨value, after⟩, hfound, hsame⟩ := Option.map_eq_some_iff.1 hready
  obtain ⟨hvalue, hafter⟩ := Prod.mk.inj hsame
  exact ⟨value, by rw [hfound, ← hafter], hvalue.symm⟩

/-- What a method leaves that looks at a part of the library. -/
theorem exists_own {result : Option (String × Library)} {merge : Library → Library}
    (hresult : result.map (Prod.map id merge) = some (value, next)) : ∃ own, next = merge own := by
  obtain ⟨own, -, hsame⟩ := Option.map_eq_some_iff.1 hresult
  exact ⟨own.2, (Prod.mk.inj hsame).2.symm⟩

/-- A random number is all that a mathematical method takes from the library. -/
theorem callMath?_of_ne (lib : Library) {method : MathMethod} (hrandom : method ≠ .getRandomNumber)
    (args : List String) : lib.callMath? method args =
      (method.value? (args.map Number.ofText)).map fun value => (value.toText, lib) := by
  unfold callMath?
  split
  · exact absurd rfl hrandom
  · rfl

theorem callMath?_own (lib : Library) (method : MathMethod) (args : List String) :
    lib.callMath? method args =
      (callMath? { dice := lib.dice } method args).map
        (Prod.map id fun own => { lib with dice := own.dice }) := by
  unfold callMath?
  split
  · rw [Option.map_some, Prod.map_apply, id]
  · rw [Option.map_map]
    rfl

theorem callArray?_own (lib : Library) (method : ArrayMethod) (args : List String) :
    lib.callArray? method args =
      (callArray? { namedArrays := lib.namedArrays } method args).map
        (Prod.map id fun own => { lib with namedArrays := own.namedArrays }) := by
  cases method, args using ArrayMethod.args_cases with
  | removeValue name key =>
    simp only [callArray?]
    cases lib.namedArrays.get? name <;> rfl
  | other method args hargs =>
    rw [callArray?_eq_none _ hargs, callArray?_eq_none _ hargs]
    rfl
  | _ => rfl

theorem callStack?_own (lib : Library) (method : StackMethod) (args : List String) :
    lib.callStack? method args =
      (callStack? { namedStacks := lib.namedStacks } method args).map
        (Prod.map id fun own => { lib with namedStacks := own.namedStacks }) := by
  cases method, args using StackMethod.args_cases with
  | popValue name =>
    simp only [callStack?, stack]
    cases (lib.namedStacks.get? name).getD [] <;> rfl
  | other method args hargs =>
    rw [callStack?_eq_none _ hargs, callStack?_eq_none _ hargs]
    rfl
  | _ => rfl

section Map

variable (lib : Library) (f : Library → Library)

/-- What leaves the dice alone can as well be done after a mathematical method. -/
theorem callMath?_map (hf : ∀ dice, f { lib with dice } = { f lib with dice })
    (method : MathMethod) (args : List String) :
    (f lib).callMath? method args = (lib.callMath? method args).map (Prod.map id f) := by
  have hsame : (f lib).dice = lib.dice := (congrArg Library.dice (hf lib.dice) :)
  rw [(f lib).callMath?_own, lib.callMath?_own, hsame, Option.map_map, Prod.map_comp_map]
  congr 2
  exact funext fun own => (hf own.dice).symm

/-- What leaves the arrays alone can as well be done after a method of arrays. -/
theorem callArray?_map (hf : ∀ namedArrays, f { lib with namedArrays } = { f lib with namedArrays })
    (method : ArrayMethod) (args : List String) :
    (f lib).callArray? method args = (lib.callArray? method args).map (Prod.map id f) := by
  have hsame : (f lib).namedArrays = lib.namedArrays :=
    (congrArg Library.namedArrays (hf lib.namedArrays) :)
  rw [(f lib).callArray?_own, lib.callArray?_own, hsame, Option.map_map, Prod.map_comp_map]
  congr 2
  exact funext fun own => (hf own.namedArrays).symm

/-- What leaves the stacks alone can as well be done after a method of stacks. -/
theorem callStack?_map (hf : ∀ namedStacks, f { lib with namedStacks } = { f lib with namedStacks })
    (method : StackMethod) (args : List String) :
    (f lib).callStack? method args = (lib.callStack? method args).map (Prod.map id f) := by
  have hsame : (f lib).namedStacks = lib.namedStacks :=
    (congrArg Library.namedStacks (hf lib.namedStacks) :)
  rw [(f lib).callStack?_own, lib.callStack?_own, hsame, Option.map_map, Prod.map_comp_map]
  congr 2
  exact funext fun own => (hf own.namedStacks).symm

end Map

/-! ## What methods change -/

/-- What a method may change: only methods of the window change the console, only those of the
program whether it has ended, and only those of arrays the arrays. Of the timer a method changes
when it is due, and the time it does not change. -/
structure ChangesOwn (method : Method) (lib next : Library) : Prop where
  console_eq : (∀ m, method ≠ .window m) → next.console = lib.console
  ended_eq : (∀ m, method ≠ .program m) → next.ended = lib.ended
  namedArrays_eq : (∀ m, method ≠ .array m) → next.namedArrays = lib.namedArrays
  timer_eq : ∃ due?, next.timer = { lib.timer with due? }
  now_eq : next.now = lib.now

theorem changesOwn_window (lib : Library) (method : WindowMethod) (console : Console)
    (window : Window) : lib.ChangesOwn (.window method) { lib with console, window } :=
  ⟨fun hne => absurd rfl (hne method), fun _ => rfl, fun _ => rfl, ⟨_, rfl⟩, rfl⟩

theorem changesOwn_readLine (lib : Library) (method : WindowMethod) :
    lib.ChangesOwn (.window method) lib.readLine.2 := by
  unfold readLine
  dsimp only
  split <;> exact lib.changesOwn_window method _ _

theorem changesOwn_readNumber (lib : Library) (method : WindowMethod) :
    lib.ChangesOwn (.window method) lib.readNumber.2 := by
  unfold readNumber
  dsimp only
  split <;> exact lib.changesOwn_window method _ _

theorem changesOwn_pause (lib : Library) (method : WindowMethod) (message : String)
    (resumed : Bool) : lib.ChangesOwn (.window method) (lib.pause message resumed).2 := by
  cases resumed <;> exact lib.changesOwn_window method _ _

theorem changesOwn_callWindow? {method : WindowMethod}
    (hcall : lib.callWindow? resumed method args = some (outcome, next)) :
    lib.ChangesOwn (.window method) next := by
  cases method, args using WindowMethod.args_cases with
  | read =>
    obtain rfl := eq_snd_of_some hcall
    exact lib.changesOwn_readLine _
  | readNumber =>
    obtain rfl := eq_snd_of_some hcall
    exact lib.changesOwn_readNumber _
  | pause | pauseWithoutMessage =>
    obtain rfl := eq_snd_of_some hcall
    exact lib.changesOwn_pause _ _ resumed
  | pauseIfVisible =>
    obtain rfl := eq_snd_of_some hcall
    split
    · exact lib.changesOwn_pause _ _ resumed
    · exact lib.changesOwn_window _ _ _
  | other method args hargs => cases (callWindow?_eq_none lib resumed hargs).symm.trans hcall
  | _ =>
    obtain rfl := eq_snd_of_some hcall
    exact lib.changesOwn_window _ _ _

theorem changesOwn_callProgram? {method : ProgramMethod}
    (hcall : lib.callProgram? resumed method args = some (outcome, next)) :
    lib.ChangesOwn (.program method) next := by
  cases method, args using ProgramMethod.args_cases with
  | other method args hargs => cases (callProgram?_eq_none lib resumed hargs).symm.trans hcall
  | _ =>
    cases hcall
    exact ⟨fun _ => rfl, fun hne => absurd rfl (hne _), fun _ => rfl, ⟨_, rfl⟩, rfl⟩

theorem changesOwn_callTimer? {method : TimerMethod}
    (hcall : lib.callTimer? method args = some (value, next)) :
    lib.ChangesOwn (.timer method) next := by
  cases method, args using TimerMethod.args_cases with
  | other method args hargs => cases (callTimer?_eq_none lib hargs).symm.trans hcall
  | _ =>
    cases hcall
    exact ⟨fun _ => rfl, fun _ => rfl, fun _ => rfl, ⟨_, rfl⟩, rfl⟩

/-- A method leaves what belongs to another object. -/
theorem changesOwn_call? {method : Method}
    (hcall : lib.call? method args resumed = some (outcome, next)) :
    lib.ChangesOwn method next := by
  cases method with
  | window m => exact changesOwn_callWindow? hcall
  | program m => exact changesOwn_callProgram? hcall
  | timer m =>
    obtain ⟨value, hvalue, -⟩ := exists_of_ready hcall
    exact changesOwn_callTimer? hvalue
  | text m =>
    obtain ⟨value, hvalue, -⟩ := exists_of_ready hcall
    obtain ⟨text, -, hsame⟩ := Option.map_eq_some_iff.1 hvalue
    obtain ⟨-, rfl⟩ := Prod.mk.inj hsame
    exact ⟨fun _ => rfl, fun _ => rfl, fun _ => rfl, ⟨_, rfl⟩, rfl⟩
  | array m =>
    obtain ⟨value, hvalue, -⟩ := exists_of_ready hcall
    rw [callArray?_own] at hvalue
    obtain ⟨own, rfl⟩ := exists_own hvalue
    exact ⟨fun _ => rfl, fun _ => rfl, fun hne => absurd rfl (hne m), ⟨_, rfl⟩, rfl⟩
  | math m =>
    obtain ⟨value, hvalue, -⟩ := exists_of_ready hcall
    rw [callMath?_own] at hvalue
    obtain ⟨own, rfl⟩ := exists_own hvalue
    exact ⟨fun _ => rfl, fun _ => rfl, fun _ => rfl, ⟨_, rfl⟩, rfl⟩
  | stack m =>
    obtain ⟨value, hvalue, -⟩ := exists_of_ready hcall
    rw [callStack?_own] at hvalue
    obtain ⟨own, rfl⟩ := exists_own hvalue
    exact ⟨fun _ => rfl, fun _ => rfl, fun _ => rfl, ⟨_, rfl⟩, rfl⟩

end Library

end SmallBasic
