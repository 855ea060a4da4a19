import SmallBasic.Proofs.ArrayQueries
import SmallBasic.Proofs.Methods
import SmallBasic.Proofs.Refusals

/-!
# Arrays under names

Every array that is kept under a name is one text, which is read, changed and written again by each
call. To a program the arrays are still a store with a cell for each name and key: what is found in
a cell is what was stored there last, if it was not removed since. Nothing that is done to the other
cells or to any other object shows there, in whatever order the members are used.

## Main definitions

* `Library.Step`, `Library.run` — what can happen to a library, and a run of it.
* `Library.Step.Touches` — the calls that store something in a cell or remove it.
* `Library.Stored` — what is stored in a cell after a run, told from the steps alone.

## Main statements

* `Library.arrayValue_step_of_not_touches` — a step leaves every cell that it does not touch.
* `Library.getValue_run` — what is found in a cell after any run.
-/

namespace SmallBasic

/-- The use calls a method with these arguments, under whatever spelling of its name. -/
def Use.Calls (use : Use) (method : Method) (args : List String) : Prop :=
  ∃ object name resumed, use = .call object name args resumed ∧
    (Member.method method).IsNamed object name

namespace Library

/-! ## Cells -/

/-- What is under the key of the array with the name. -/
def arrayValue (lib : Library) (name key : String) : String :=
  ArrayText.get ((lib.namedArrays.get? name).getD "") [key]

section Cells

variable {lib next : Library} {name key value : String}

theorem arrayValue_congr (hsame : next.namedArrays = lib.namedArrays) :
    next.arrayValue name key = lib.arrayValue name key := by
  rw [arrayValue, arrayValue, hsame]

/-- Storing an array changes the cells of its name and no others. -/
theorem arrayValue_insert (lib : Library) (other text name key : String) :
    { lib with namedArrays := lib.namedArrays.insert other text }.arrayValue name key =
      if name = other then ArrayText.get text [key] else lib.arrayValue name key := by
  simp only [arrayValue, Table.get?_insert]
  split <;> rfl

/-- Storing an array that keeps all values but the one of a cell changes no other cell. -/
theorem arrayValue_insert_of_ne {other found text : String} (hcell : ¬(name = other ∧ key = found))
    (hkept : ∀ key ≠ found, ArrayText.get text [key] = lib.arrayValue other key) :
    { lib with namedArrays := lib.namedArrays.insert other text }.arrayValue name key =
      lib.arrayValue name key := by
  rw [arrayValue_insert]
  split
  · rename_i hname
    subst hname
    exact hkept key fun hkey => hcell ⟨rfl, hkey⟩
  · rfl

/-- A call that is about arrays stores something in a cell, or removes it, or leaves it. -/
theorem arrayValue_callArray? {method : ArrayMethod} {args : List String} {result : String}
    (hcall : lib.callArray? method args = some (result, next)) (name key : String) :
    (∃ value, method = .setValue ∧ args = [name, key, value]) ∨
      (method = .removeValue ∧ args = [name, key]) ∨
      next.arrayValue name key = lib.arrayValue name key := by
  cases method, args using ArrayMethod.args_cases with
  | setValue other found value =>
    obtain rfl := eq_snd_of_some hcall
    by_cases hcell : name = other ∧ key = found
    · exact .inl ⟨value, rfl, by rw [hcell.1, hcell.2]⟩
    · refine .inr (.inr (arrayValue_insert_of_ne hcell fun key hkey => ?_))
      rw [ArrayText.get_set_of_ne hkey, arrayValue]
  | removeValue other found =>
    obtain rfl := eq_snd_of_some hcall
    by_cases hcell : name = other ∧ key = found
    · exact .inr (.inl ⟨rfl, by rw [hcell.1, hcell.2]⟩)
    · refine .inr (.inr ?_)
      cases hstored : lib.namedArrays.get? other with
      | none => rfl
      | some array =>
        refine arrayValue_insert_of_ne hcell fun key hkey => ?_
        rw [ArrayText.get_remove_of_ne hkey, arrayValue, hstored, Option.getD_some]
  | other method args hargs => cases (callArray?_eq_none lib hargs).symm.trans hcall
  | _ =>
    obtain rfl := eq_snd_of_some hcall
    exact .inr (.inr rfl)

end Cells

/-! ## Steps -/

/-- What can happen to a library: a program uses a member, or its host sets the time, looks for an
event, adds an input line or closes the input. -/
inductive Step where
  | use (use : Use)
  | setNow (now : Nat)
  | due (now : Nat)
  | push (line : String)
  | close
deriving DecidableEq, Repr

/-- The library after a step. A use that is refused changes nothing. -/
def step (lib : Library) : Step → Library
  | .use use =>
    match lib.answer use with
    | .ok (_, next) => next
    | .error _ => lib
  | .setNow now => lib.setNow now
  | .due now => (lib.due now).2
  | .push line => { lib with console := lib.console.push line }
  | .close => { lib with console := lib.console.close }

/-- The library after a run. -/
def run (lib : Library) (steps : List Step) : Library := steps.foldl step lib

/-- A call that stores something under the key of the array with the name, or removes the key. -/
inductive Step.Touches (name key : String) : Step → Prop
  | stores {use : Use} (value : String) (hcalls : use.Calls (.array .setValue) [name, key, value]) :
      Touches name key (.use use)
  | removes {use : Use} (hcalls : use.Calls (.array .removeValue) [name, key]) :
      Touches name key (.use use)

section Steps

variable {lib next : Library} {use : Use} {name key value : String} {outcome : Outcome}

/-- A call is answered by the method that it names. -/
theorem answer_eq_of_calls {method : Method} {args : List String} (hcalls : use.Calls method args)
    (hcall : ∀ resumed, lib.call? method args resumed = some (outcome, next))
    (harity : method.arity = args.length) : lib.answer use = .ok (outcome, next) := by
  obtain ⟨object, member, resumed, rfl, hnamed⟩ := hcalls
  have hresolve := Method.resolve_eq_ok_iff.2 ⟨hnamed, harity⟩
  refine Except.bind_eq_ok_iff.2 ⟨method, hresolve, ?_⟩
  rw [call, hcall]

/-- A use that is answered calls a method, or does not concern the arrays. -/
theorem calls_or_namedArrays_eq (hanswer : lib.answer use = .ok (outcome, next)) :
    (∃ method args resumed, use.Calls method args ∧
        lib.call? method args resumed = some (outcome, next)) ∨
      next.namedArrays = lib.namedArrays := by
  cases use with
  | call object member args resumed =>
    obtain ⟨method, hresolve, hcall⟩ := Except.bind_eq_ok_iff.1 hanswer
    have hnamed := (Method.resolve_eq_ok_iff.1 hresolve).1
    refine .inl ⟨method, args, resumed, ⟨object, member, resumed, rfl, hnamed⟩, ?_⟩
    unfold call at hcall
    split at hcall
    · rename_i hsome
      rw [hsome, Except.ok.inj hcall]
    · cases hcall
  | read object member =>
    obtain ⟨field, -, hfield⟩ := Except.bind_eq_ok_iff.1 hanswer
    cases hfield
    refine .inr ?_
    cases field <;> rfl
  | write object member value =>
    obtain ⟨last, hwrite, hlast⟩ := Except.bind_eq_ok_iff.1 hanswer
    obtain ⟨field, -, hfield⟩ := Except.bind_eq_ok_iff.1 hwrite
    cases hlast
    cases hfield
    refine .inr ?_
    cases field <;> rfl
  | bind object member target =>
    obtain ⟨last, hbind, hlast⟩ := Except.bind_eq_ok_iff.1 hanswer
    obtain ⟨event, -, hevent⟩ := Except.bind_eq_ok_iff.1 hbind
    cases hlast
    cases hevent
    exact .inr rfl

/-- A step leaves every cell that it does not touch. -/
theorem arrayValue_step_of_not_touches {step : Step} (htouches : ¬step.Touches name key)
    (lib : Library) : (lib.step step).arrayValue name key = lib.arrayValue name key := by
  cases step with
  | use use =>
    simp only [Library.step]
    cases hanswer : lib.answer use with
    | error e => rfl
    | ok answer =>
      rcases calls_or_namedArrays_eq hanswer with ⟨method, args, resumed, hcalls, hcall⟩ | hsame
      · by_cases harray : ∃ m, method = .array m
        · obtain ⟨m, rfl⟩ := harray
          obtain ⟨result, hresult, -⟩ := exists_of_ready hcall
          rcases arrayValue_callArray? hresult name key with ⟨value, rfl, rfl⟩ | ⟨rfl, rfl⟩ | hkept
          · exact absurd (.stores value hcalls) htouches
          · exact absurd (.removes hcalls) htouches
          · exact hkept
        · exact arrayValue_congr
            ((changesOwn_call? hcall).namedArrays_eq fun m hm => harray ⟨m, hm⟩)
      · exact arrayValue_congr hsame
  | setNow | due | push | close => rfl

theorem step_eq_of_answer (hanswer : lib.answer use = .ok (outcome, next)) :
    lib.step (.use use) = next := by
  simp only [step, hanswer]

/-- Storing a value in a cell puts it there. -/
theorem arrayValue_step_of_stores (hcalls : use.Calls (.array .setValue) [name, key, value])
    (lib : Library) : (lib.step (.use use)).arrayValue name key = value := by
  let stored := (lib.namedArrays.get? name).getD ""
  let changed := ArrayText.set stored [key] value
  have hanswer : lib.answer use =
      .ok (.done, { lib with namedArrays := lib.namedArrays.insert name changed }) :=
    answer_eq_of_calls hcalls (fun _ => rfl) rfl
  rw [step_eq_of_answer hanswer, arrayValue_insert, if_pos rfl]
  exact ArrayText.get_set_append stored [key] [] value

/-- Removing a cell leaves nothing there. -/
theorem arrayValue_step_of_removes (hcalls : use.Calls (.array .removeValue) [name, key])
    (lib : Library) : (lib.step (.use use)).arrayValue name key = "" := by
  cases hstored : lib.namedArrays.get? name with
  | none =>
    have hcall : lib.callArray? .removeValue [name, key] = some ("", lib) := by
      simp only [callArray?, hstored]
    have hanswer : lib.answer use = .ok (.done, lib) :=
      answer_eq_of_calls hcalls (fun _ => congrArg ready hcall) rfl
    rw [step_eq_of_answer hanswer, arrayValue, hstored]
    exact ArrayText.get_empty [key]
  | some array =>
    have hcall : lib.callArray? .removeValue [name, key] = some ("", { lib with
        namedArrays := lib.namedArrays.insert name (ArrayText.remove array key) }) := by
      simp only [callArray?, hstored]
    have hanswer : lib.answer use = .ok (.done, { lib with
        namedArrays := lib.namedArrays.insert name (ArrayText.remove array key) }) :=
      answer_eq_of_calls hcalls (fun _ => congrArg ready hcall) rfl
    rw [step_eq_of_answer hanswer, arrayValue_insert, if_pos rfl]
    exact ArrayText.get_remove_self array key

theorem answer_getValue (hcalls : use.Calls (.array .getValue) [name, key]) (lib : Library) :
    lib.answer use = .ok (.ready (lib.arrayValue name key), lib) :=
  answer_eq_of_calls hcalls (fun _ => rfl) rfl

end Steps

/-! ## Runs -/

/-- The value was stored under the key of the array with the name, and no step after that touched
it. -/
def Stored (name key : String) (steps : List Step) (value : String) : Prop :=
  ∃ earlier use later, steps = earlier ++ .use use :: later ∧
    use.Calls (.array .setValue) [name, key, value] ∧ ∀ step ∈ later, ¬step.Touches name key

section Runs

variable {name key value : String} {steps : List Step}

theorem run_append (lib : Library) (steps more : List Step) :
    lib.run (steps ++ more) = (lib.run steps).run more := List.foldl_append

theorem arrayValue_run_of_not_touches (huntouched : ∀ step ∈ steps, ¬step.Touches name key)
    (lib : Library) : (lib.run steps).arrayValue name key = lib.arrayValue name key := by
  induction steps generalizing lib with
  | nil => rfl
  | cons step steps ih =>
    obtain ⟨hstep, hsteps⟩ := List.forall_mem_cons.1 huntouched
    exact (ih hsteps (lib.step step)).trans (arrayValue_step_of_not_touches hstep lib)

theorem arrayValue_run_of_stored (hstored : Stored name key steps value) (lib : Library) :
    (lib.run steps).arrayValue name key = value := by
  obtain ⟨earlier, use, later, rfl, hcalls, hlater⟩ := hstored
  rw [run_append]
  exact (arrayValue_run_of_not_touches hlater _).trans (arrayValue_step_of_stores hcalls _)

/-- Where nothing was stored, or it was removed, nothing is found. -/
theorem arrayValue_run_of_not_stored {lib : Library} (hempty : lib.arrayValue name key = "")
    (hnot : ∀ value, ¬Stored name key steps value) :
    (lib.run steps).arrayValue name key = "" := by
  induction steps using List.reverseRecOn with
  | nil => exact hempty
  | append_singleton steps step ih =>
    rw [run_append]
    by_cases htouches : step.Touches name key
    · cases htouches with
      | stores value hcalls => exact absurd ⟨steps, _, [], rfl, hcalls, by simp⟩ (hnot value)
      | removes hcalls => exact arrayValue_step_of_removes hcalls _
    · refine (arrayValue_step_of_not_touches htouches _).trans (ih fun value hstored => ?_)
      obtain ⟨earlier, use, later, rfl, hcalls, hlater⟩ := hstored
      refine hnot value ⟨earlier, use, later ++ [step], by simp, hcalls, ?_⟩
      intro other hother
      rcases List.mem_append.1 hother with hother | hother
      · exact hlater other hother
      · exact List.mem_singleton.1 hother ▸ htouches

/-- After any run of a library that has no arrays at first, asking for the value under a key of a
named array gives what was stored there last, unless it was removed since, or else nothing. Asking
changes nothing, and what it gives is changed by no step but a call that stores or removes a value
under this key of this array: not by calls about other keys or names, not by a stack of the same
name, and not by anything else. -/
theorem getValue_run {use : Use} (hcalls : use.Calls (.array .getValue) [name, key])
    (lib : Library) (steps : List Step) :
    let last := { lib with namedArrays := [] }.run steps
    (∀ value, Stored name key steps value → last.answer use = .ok (.ready value, last)) ∧
      ((∀ value, ¬Stored name key steps value) → last.answer use = .ok (.ready "", last)) ∧
      ∀ step : Step, ¬step.Touches name key → ∀ value,
        last.answer use = .ok (.ready value, last) →
          (last.step step).answer use = .ok (.ready value, last.step step) := by
  intro last
  refine ⟨fun value hstored => ?_, fun hnot => ?_, fun step htouches value hanswer => ?_⟩
  · rw [answer_getValue hcalls, arrayValue_run_of_stored hstored]
  · have hempty : { lib with namedArrays := [] }.arrayValue name key = "" :=
      ArrayText.get_empty [key]
    rw [answer_getValue hcalls, arrayValue_run_of_not_stored hempty hnot]
  · rw [answer_getValue hcalls] at hanswer ⊢
    rw [arrayValue_step_of_not_touches htouches]
    cases hanswer
    rfl

/-- A value that was stored again after it was removed, in an array whose name and keys are marks,
beside another key and a stack of the same name. -/
theorem getValue_run_again :
    Use.Calls (.call "ARRAY" "getvalue" ["a;b", "="] false) (.array .getValue) ["a;b", "="] ∧
      let last := ({} : Library).run [
        .use (.call "Array" "SetValue" ["a;b", "=", "old"] false),
        .use (.call "Array" "RemoveValue" ["a;b", "="] false),
        .use (.call "array" "SETVALUE" ["a;b", "=", "x\\=y;"] false),
        .use (.call "Stack" "PushValue" ["a;b", "top"] false),
        .use (.call "Array" "SetValue" ["a;b", "\\=", "beside"] false)]
      last.answer (.call "ARRAY" "getvalue" ["a;b", "="] false) =
        .ok (.ready "x\\=y;", last) := by
  have hcalls : Use.Calls (.call "ARRAY" "getvalue" ["a;b", "="] false) (.array .getValue)
      ["a;b", "="] :=
    ⟨"ARRAY", "getvalue", false, rfl, by decide +kernel, by decide +kernel⟩
  have hstores : Use.Calls (.call "array" "SETVALUE" ["a;b", "=", "x\\=y;"] false)
      (.array .setValue) ["a;b", "=", "x\\=y;"] :=
    ⟨"array", "SETVALUE", false, rfl, by decide +kernel, by decide +kernel⟩
  have hlater : ∀ step ∈ [
      Step.use (.call "Stack" "PushValue" ["a;b", "top"] false),
      Step.use (.call "Array" "SetValue" ["a;b", "\\=", "beside"] false)],
      ¬step.Touches "a;b" "=" := by
    simp only [List.forall_mem_cons]
    refine ⟨?_, ?_, by simp⟩
    all_goals
      rintro (⟨value, object, member, resumed, heq, -⟩ | ⟨object, member, resumed, heq, -⟩) <;>
        simp at heq
  have hstored : Stored "a;b" "=" [
      .use (.call "Array" "SetValue" ["a;b", "=", "old"] false),
      .use (.call "Array" "RemoveValue" ["a;b", "="] false),
      .use (.call "array" "SETVALUE" ["a;b", "=", "x\\=y;"] false),
      .use (.call "Stack" "PushValue" ["a;b", "top"] false),
      .use (.call "Array" "SetValue" ["a;b", "\\=", "beside"] false)] "x\\=y;" :=
    ⟨[.use (.call "Array" "SetValue" ["a;b", "=", "old"] false),
      .use (.call "Array" "RemoveValue" ["a;b", "="] false)], _, _, rfl, hstores, hlater⟩
  exact ⟨hcalls, (getValue_run hcalls {} _).1 _ hstored⟩

end Runs

end Library

end SmallBasic
