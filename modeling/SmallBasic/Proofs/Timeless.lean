import SmallBasic.Proofs.Methods

/-!
# Worlds up to the time

The time reaches a program through the clock, and through what a call waits for. Nothing else that a
request does depends on it: two worlds that differ at most in the time answer alike and stay alike.
This file also says what a request leaves as it was, and that a call which had to wait succeeds when
it is repeated, once input is closed.

## Main definitions

* `World.Alike` — worlds that differ at most in the time.
* `Request.isClock` — whether a request asks for the time.

## Main statements

* `World.Alike.perform` — requests that do not ask for the time are answered alike.
* `World.perform_resumed` — a repeated call has an answer, once input is closed.
-/

namespace SmallBasic

/-! ## Worlds without the time -/

/-- The library without the time: the instant, the clock, and the instant of the next tick. -/
def Library.timeless (lib : Library) : Library :=
  { lib with now := 0, clock := {}, timer := { lib.timer with due? := none } }

/-- The world without the time. -/
def World.timeless (world : World) : World := world.withLibrary world.library.timeless

/-- The worlds differ at most in the time. -/
def World.Alike (world other : World) : Prop := world.timeless = other.timeless

/-- The outcome without what is waited for. -/
def Outcome.timeless : Outcome → Outcome
  | .ready value => .ready value
  | .blocked _ => .blocked .signal

/-- Whether a request asks for the time. -/
def Request.isClock : Request → Bool
  | .readField (.clock _) => true
  | _ => false

namespace Library

/-- The result of a call without the time. -/
def timelessResult : Option (Outcome × Library) → Option (Outcome × Library) :=
  Option.map fun result => (result.1.timeless, result.2.timeless)

theorem readLine_timeless (lib : Library) :
    timelessResult (some lib.timeless.readLine) = timelessResult (some lib.readLine) := by
  by_cases hready : lib.console.isReady = true <;>
    simp [readLine, reveal, timeless, timelessResult, hready]

theorem readNumber_timeless (lib : Library) :
    timelessResult (some lib.timeless.readNumber) = timelessResult (some lib.readNumber) := by
  by_cases hready : (lib.console.drop
      (lib.console.pending.takeWhile fun line => (Number.ofText? line).isNone).length).isReady <;>
    simp [readNumber, reveal, timeless, timelessResult, hready]

theorem pause_timeless (lib : Library) (message : String) (resumed : Bool) :
    timelessResult (some (lib.timeless.pause message resumed)) =
      timelessResult (some (lib.pause message resumed)) := by
  cases resumed <;> rfl

theorem callWindow?_timeless (lib : Library) (resumed : Bool) (method : WindowMethod)
    (args : List String) :
    timelessResult (lib.timeless.callWindow? resumed method args) =
      timelessResult (lib.callWindow? resumed method args) := by
  cases method, args using WindowMethod.args_cases with
  | read => exact lib.readLine_timeless
  | readNumber => exact lib.readNumber_timeless
  | pause => exact lib.pause_timeless pauseMessage resumed
  | pauseWithoutMessage => exact lib.pause_timeless "" resumed
  | pauseIfVisible =>
    by_cases hvisible : lib.window.visible = true
    · simp only [callWindow?, timeless, hvisible, if_true]
      exact lib.pause_timeless pauseMessage resumed
    · simp [callWindow?, timeless, timelessResult, hvisible]
  | other method args hargs => rw [callWindow?_eq_none _ _ hargs, callWindow?_eq_none _ _ hargs]
  | _ => rfl

theorem callProgram?_timeless (lib : Library) (resumed : Bool) (method : ProgramMethod)
    (args : List String) :
    timelessResult (lib.timeless.callProgram? resumed method args) =
      timelessResult (lib.callProgram? resumed method args) := by
  cases method, args using ProgramMethod.args_cases with
  | delay length =>
    simp only [callProgram?, delay, timelessResult, Option.map_some]
    split <;> rfl
  | other method args hargs => rw [callProgram?_eq_none _ _ hargs, callProgram?_eq_none _ _ hargs]
  | _ => rfl

theorem callMath?_timeless (lib : Library) (method : MathMethod) (args : List String) :
    timelessResult (ready (lib.timeless.callMath? method args)) =
      timelessResult (ready (lib.callMath? method args)) := by
  rw [lib.callMath?_map timeless fun _ => rfl]
  cases lib.callMath? method args <;> rfl

theorem callArray?_timeless (lib : Library) (method : ArrayMethod) (args : List String) :
    timelessResult (ready (lib.timeless.callArray? method args)) =
      timelessResult (ready (lib.callArray? method args)) := by
  rw [lib.callArray?_map timeless fun _ => rfl]
  cases lib.callArray? method args <;> rfl

theorem callStack?_timeless (lib : Library) (method : StackMethod) (args : List String) :
    timelessResult (ready (lib.timeless.callStack? method args)) =
      timelessResult (ready (lib.callStack? method args)) := by
  rw [lib.callStack?_map timeless fun _ => rfl]
  cases lib.callStack? method args <;> rfl

theorem callTimer?_timeless (lib : Library) (method : TimerMethod) (args : List String) :
    timelessResult (ready (lib.timeless.callTimer? method args)) =
      timelessResult (ready (lib.callTimer? method args)) := by
  cases method, args using TimerMethod.args_cases with
  | other method args hargs => rw [callTimer?_eq_none _ hargs, callTimer?_eq_none _ hargs]
  | _ => rfl

/-- The time makes no difference to a call, but for what it waits for. -/
theorem call?_timeless (lib : Library) (method : Method) (args : List String) (resumed : Bool) :
    timelessResult (lib.timeless.call? method args resumed) =
      timelessResult (lib.call? method args resumed) := by
  cases method with
  | window m => exact lib.callWindow?_timeless resumed m args
  | program m => exact lib.callProgram?_timeless resumed m args
  | math m => exact lib.callMath?_timeless m args
  | text m => dsimp only [call?]; cases m.value? args <;> rfl
  | array m => exact lib.callArray?_timeless m args
  | stack m => exact lib.callStack?_timeless m args
  | timer m => exact lib.callTimer?_timeless m args

theorem readField_timeless (lib : Library) {field : Field}
    (hclock : (Request.readField field).isClock = false) :
    lib.timeless.readField field = lib.readField field := by
  cases field with
  | clock f => cases hclock
  | _ => rfl

theorem afterReading_timeless (lib : Library) (field : Field) :
    (lib.timeless.afterReading field).timeless = (lib.afterReading field).timeless := by
  cases field <;> rfl

theorem writeField_timeless (lib : Library) (field : Field) (value : String) :
    (lib.timeless.writeField field value).timeless = (lib.writeField field value).timeless := by
  cases field <;> rfl

/-! ## What a call keeps -/

/-- What no call changes: whether input is closed, and what an event starts. -/
structure Keeps (lib next : Library) : Prop where
  closed : next.console.closed = lib.console.closed
  handler : next.timer.handler? = lib.timer.handler?

theorem closed_take (console : Console) : console.take.2.closed = console.closed := by
  unfold Console.take
  split
  · rfl
  · dsimp only
    split <;> rfl

theorem closed_drop (console : Console) (count : Nat) :
    (console.drop count).closed = console.closed := by
  induction count generalizing console with
  | zero => rfl
  | succ count ih => rw [Console.drop, ih, closed_take]

theorem closed_clear (console : Console) : console.clear.closed = console.closed := by
  unfold Console.clear
  split
  · rfl
  · split <;> rfl

theorem closed_readLine (lib : Library) :
    lib.readLine.2.console.closed = lib.console.closed := by
  by_cases hready : lib.console.isReady = true <;>
    simp [readLine, reveal, hready, closed_take]

theorem closed_readNumber (lib : Library) :
    lib.readNumber.2.console.closed = lib.console.closed := by
  by_cases hready : (lib.console.drop
      (lib.console.pending.takeWhile fun line => (Number.ofText? line).isNone).length).isReady <;>
    simp [readNumber, reveal, hready, closed_take, closed_drop]

theorem closed_pause (lib : Library) (message : String) (resumed : Bool) :
    (lib.pause message resumed).2.console.closed = lib.console.closed := by
  cases resumed
  · rfl
  · exact closed_take lib.console

theorem closed_callWindow? {lib next : Library} {resumed : Bool} {method : WindowMethod}
    {args : List String} {outcome : Outcome}
    (hcall : lib.callWindow? resumed method args = some (outcome, next)) :
    next.console.closed = lib.console.closed := by
  cases method, args using WindowMethod.args_cases with
  | read =>
    obtain rfl := eq_snd_of_some hcall
    exact lib.closed_readLine
  | readNumber =>
    obtain rfl := eq_snd_of_some hcall
    exact lib.closed_readNumber
  | pause | pauseWithoutMessage =>
    obtain rfl := eq_snd_of_some hcall
    exact lib.closed_pause _ resumed
  | pauseIfVisible =>
    obtain rfl := eq_snd_of_some hcall
    split
    · exact lib.closed_pause _ resumed
    · rfl
  | clear =>
    obtain rfl := eq_snd_of_some hcall
    exact closed_clear lib.console
  | other method args hargs => cases (callWindow?_eq_none lib resumed hargs).symm.trans hcall
  | _ =>
    obtain rfl := eq_snd_of_some hcall
    rfl

/-- No call opens or closes the input, or binds an event. -/
theorem keeps_call? {lib next : Library} {method : Method} {args : List String} {resumed : Bool}
    {outcome : Outcome} (hcall : lib.call? method args resumed = some (outcome, next)) :
    lib.Keeps next := by
  have hchanges := changesOwn_call? hcall
  obtain ⟨due?, htimer⟩ := hchanges.timer_eq
  refine ⟨?_, by rw [htimer]⟩
  cases method with
  | window m => exact closed_callWindow? hcall
  | _ => exact congrArg Console.closed (hchanges.console_eq (by simp))

/-! ## Calls that wait -/

theorem isReady_of_closed {console : Console} (hclosed : console.closed = true) :
    console.isReady = true := by
  simp [Console.isReady, hclosed]

theorem callWindow?_resumed {lib next : Library} (hclosed : lib.console.closed = true)
    {method : WindowMethod} {args : List String} {block : Block}
    (hcall : lib.callWindow? false method args = some (.blocked block, next)) :
    block ≠ .input ∧
      ∃ answer after, next.callWindow? true method args = some (.ready answer, after) := by
  cases method, args using WindowMethod.args_cases with
  | read =>
    have hready := isReady_of_closed hclosed
    simp [callWindow?, readLine, reveal, hready] at hcall
  | readNumber =>
    have hready := isReady_of_closed ((closed_drop lib.console (lib.console.pending.takeWhile
      fun line => (Number.ofText? line).isNone).length).trans hclosed)
    simp [callWindow?, readNumber, reveal, hready] at hcall
  | pause | pauseWithoutMessage =>
    cases hcall
    exact ⟨by simp, _, _, rfl⟩
  | pauseIfVisible =>
    simp only [callWindow?] at hcall
    split at hcall
    · cases hcall
      exact ⟨by simp, _, _, rfl⟩
    · cases hcall
  | other method args hargs => cases (callWindow?_eq_none lib false hargs).symm.trans hcall
  | _ => cases hcall

theorem callProgram?_resumed {lib next : Library} {method : ProgramMethod} {args : List String}
    {block : Block} (hcall : lib.callProgram? false method args = some (.blocked block, next)) :
    block ≠ .input ∧
      ∃ answer after, next.callProgram? true method args = some (.ready answer, after) := by
  cases method, args using ProgramMethod.args_cases with
  | delay length =>
    simp only [callProgram?, delay, Bool.false_or, Option.some.injEq, Prod.mk.injEq] at hcall
    obtain ⟨hblock, rfl⟩ := hcall
    split at hblock
    · cases hblock
    · cases hblock
      exact ⟨by simp, _, _, rfl⟩
  | other method args hargs => cases (callProgram?_eq_none lib false hargs).symm.trans hcall
  | _ => cases hcall

/-- Once input is closed, a call that waits does not wait for input, and it succeeds when it is
repeated. -/
theorem call?_resumed {lib next : Library} (hclosed : lib.console.closed = true) {method : Method}
    {args : List String} {block : Block}
    (hcall : lib.call? method args false = some (.blocked block, next)) :
    block ≠ .input ∧ ∃ answer after, next.call? method args true = some (.ready answer, after) := by
  cases method with
  | window m => exact callWindow?_resumed hclosed hcall
  | program m => exact callProgram?_resumed hcall
  | math m | text m | array m | stack m | timer m =>
    obtain ⟨value, -, hready⟩ := exists_of_ready hcall
    cases hready

end Library

namespace World

/-- An answer without the time. -/
def timelessAnswer : Except MemberError (Outcome × World) → Except MemberError (Outcome × World) :=
  Except.map fun answer => (answer.1.timeless, answer.2.timeless)

theorem perform_timeless (world : World) (resumed : Bool) {r : Request}
    (hclock : r.isClock = false) :
    timelessAnswer (world.timeless.perform resumed r) =
      timelessAnswer (world.perform resumed r) := by
  cases r with
  | readVariable | writeVariable => rfl
  | readField field =>
    have hread := world.library.readField_timeless hclock
    have hafter := world.library.afterReading_timeless field
    simp only [perform, timelessAnswer, Except.map, timeless, withLibrary, hread, hafter]
  | writeField field value =>
    have hwrite := world.library.writeField_timeless field value
    simp only [perform, timelessAnswer, Except.map, timeless, withLibrary, hwrite]
  | bindEvent event target =>
    cases event
    rfl
  | call method args =>
    have hcall := world.library.call?_timeless method args resumed
    have hlib : world.timeless.library = world.library.timeless := rfl
    simp only [perform, Library.call, hlib]
    cases hfound : world.library.call? method args resumed <;>
      cases hother : world.library.timeless.call? method args resumed <;>
      simp only [hfound, hother, Library.timelessResult, Option.map_some, Option.map_none,
        Option.some.injEq, Prod.mk.injEq, reduceCtorEq] at hcall
    · rfl
    · simp only [timelessAnswer, bind, Except.bind, pure, Except.pure, Except.map, hcall.1,
        timeless, withLibrary, hcall.2]

variable {world other next : World} {resumed : Bool} {r : Request} {outcome : Outcome}

@[refl] theorem Alike.refl (world : World) : world.Alike world := rfl

theorem Alike.symm (halike : world.Alike other) : other.Alike world := Eq.symm halike

theorem Alike.trans (halike : world.Alike other) (hother : other.Alike next) : world.Alike next :=
  Eq.trans halike hother

theorem Alike.store_eq (halike : world.Alike other) : world.store = other.store :=
  congrArg (·.store) (show world.timeless = other.timeless from halike)

theorem Alike.console_eq (halike : world.Alike other) :
    world.library.console = other.library.console :=
  congrArg (·.library.console) halike

theorem Alike.ended_eq (halike : world.Alike other) : world.library.ended = other.library.ended :=
  congrArg (·.library.ended) halike

theorem Alike.handler_eq (halike : world.Alike other) :
    world.library.timer.handler? = other.library.timer.handler? :=
  congrArg (·.library.timer.handler?) halike

/-- Requests that do not ask for the time are answered alike. -/
theorem Alike.perform (halike : world.Alike other) (hclock : r.isClock = false)
    (hperform : world.perform resumed r = .ok (outcome, next)) :
    ∃ outcome' next', other.perform resumed r = .ok (outcome', next') ∧
      outcome'.timeless = outcome.timeless ∧ next.Alike next' := by
  have hsame : timelessAnswer (other.perform resumed r) = timelessAnswer (.ok (outcome, next)) := by
    rw [← perform_timeless other resumed hclock, ← halike, perform_timeless world resumed hclock,
      hperform]
  cases hother : other.perform resumed r with
  | error error => simp [hother, timelessAnswer, Except.map] at hsame
  | ok answer =>
    simp only [hother, timelessAnswer, Except.map, Except.ok.injEq, Prod.mk.injEq] at hsame
    exact ⟨answer.1, answer.2, rfl, hsame.1, hsame.2.symm⟩

/-- A request opens or closes no input, and only binding an event sets what it starts. -/
theorem keeps_perform (hperform : world.perform resumed r = .ok (outcome, next))
    (hfits : r.Fits False) : world.library.Keeps next.library := by
  cases r with
  | readVariable | writeVariable =>
    cases hperform
    exact ⟨rfl, rfl⟩
  | readField field | writeField field value =>
    cases hperform
    cases field <;> exact ⟨rfl, rfl⟩
  | bindEvent => exact hfits.elim
  | call method args =>
    obtain ⟨library, hcall, rfl⟩ := perform_call_iff.1 hperform
    exact Library.keeps_call? hcall

/-- Once input is closed, a request that waits does not wait for input, and it has an answer when it
is repeated. -/
theorem perform_resumed {block : Block} (hclosed : world.library.console.closed = true)
    (hperform : world.perform false r = .ok (.blocked block, next)) :
    r.isClock = false ∧ block ≠ .input ∧
      ∃ answer after, next.perform true r = .ok (.ready answer, after) := by
  cases r with
  | readVariable | writeVariable | readField | writeField | bindEvent => cases hperform
  | call method args =>
    obtain ⟨library, hcall, rfl⟩ := perform_call_iff.1 hperform
    obtain ⟨hinput, answer, after, hagain⟩ := Library.call?_resumed hclosed hcall
    exact ⟨rfl, hinput, answer, world.withLibrary after, perform_call_iff.2 ⟨after, hagain, rfl⟩⟩

end World

end SmallBasic
