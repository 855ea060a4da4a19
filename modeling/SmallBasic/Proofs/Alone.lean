import SmallBasic.Proofs.Structured
import SmallBasic.Proofs.Waiting

/-!
# A thread alone

A thread that is alone with its world, and whose input is closed, evaluates its statements: a run of
a statement, with whatever waits there are in it, comes to the verdict of the evaluation. The time
that passes meanwhile shows only in what the clock answers.

## Main definitions

* `Gives` — the answers of the clock are those given in advance.
* `World.Plays` — a world is that of a scene.
* `Suspension.Resumable` — a call that will have an answer when it is repeated.
* `Progress.Brings` — how far a statement has come towards its verdict.
* `Action.Contains` — the waits that are in an action.

## Main statements

* `Action.Sound.leads` — running a statement brings it towards its verdict.
* `Suspension.Resumable.leads` — so does going on with it.
-/

namespace SmallBasic

/-! ## The clock -/

/-- The answers of the clock among some attempts. -/
def clockAnswers (log : List Attempt) : List String :=
  (exchanges log).filterMap fun exchange => if exchange.1.isClock then some exchange.2 else none

/-- From a number on, the clock gives these answers. -/
def Gives (clock : Nat → String) : (start : Nat) → List String → Prop
  | _, [] => True
  | start, answer :: answers => clock start = answer ∧ Gives clock (start + 1) answers

theorem gives_append_iff {clock : Nat → String} {start : Nat} {answers more : List String} :
    Gives clock start (answers ++ more) ↔
      Gives clock start answers ∧ Gives clock (start + answers.length) more := by
  induction answers generalizing start with
  | nil => simp [Gives]
  | cons answer answers ih =>
    rw [List.cons_append, Gives, Gives, ih, List.length_cons, and_assoc, Nat.add_right_comm,
      Nat.add_assoc]

section Answers

variable {request : Request} {resumed : Bool} {answer : String} {log : List Attempt}

@[simp] theorem clockAnswers_nil : clockAnswers [] = [] := rfl

theorem clockAnswers_clock (hclock : request.isClock = true) :
    clockAnswers (⟨request, resumed, .ready answer⟩ :: log) = answer :: clockAnswers log := by
  simp [clockAnswers, exchanges, Attempt.exchange?, hclock]

theorem clockAnswers_other (hclock : request.isClock = false) :
    clockAnswers (⟨request, resumed, .ready answer⟩ :: log) = clockAnswers log := by
  simp [clockAnswers, exchanges, Attempt.exchange?, hclock]

end Answers

/-! ## Worlds and scenes -/

/-- The world is that of the scene, but for the time. Input is closed, and no event is bound. -/
structure World.Plays (world : World) (scene : Scene) : Prop where
  alike : world.Alike scene.world
  closed : scene.world.library.console.closed = true
  handler : scene.world.library.timer.handler? = none

namespace World.Plays

variable {world after : World} {scene : Scene} {r : Request} {resumed : Bool} {outcome : Outcome}

theorem ended_eq (hplays : world.Plays scene) :
    world.library.ended = scene.world.library.ended := hplays.alike.ended_eq

/-- Reading the clock changes nothing but the time. -/
theorem read (hplays : world.Plays scene) (halike : after.Alike world) (readings : Nat) :
    after.Plays { scene with readings } :=
  ⟨halike.trans hplays.alike, hplays.closed, hplays.handler⟩

/-- A request that does not ask for the time is answered as in the scene. -/
theorem perform (hplays : world.Plays scene) (hfits : r.Fits False) (hclock : r.isClock = false)
    (hperform : world.perform resumed r = .ok (outcome, after)) :
    ∃ outcome' next, scene.world.perform resumed r = .ok (outcome', next) ∧
      outcome'.timeless = outcome.timeless ∧ after.Plays { scene with world := next } := by
  obtain ⟨outcome', next, hother, houtcome, halike⟩ := hplays.alike.perform hclock hperform
  have hkeeps := keeps_perform hother hfits
  exact ⟨outcome', next, hother, houtcome, halike, hkeeps.closed.trans hplays.closed,
    hkeeps.handler.trans hplays.handler⟩

end World.Plays

theorem Outcome.eq_ready_of_timeless {outcome : Outcome} {answer : String}
    (hsame : outcome.timeless = (Outcome.ready answer).timeless) : outcome = .ready answer := by
  cases outcome with
  | ready value => exact hsame
  | blocked block => cases hsame

theorem Outcome.eq_blocked_of_timeless {outcome : Outcome} {block : Block}
    (hsame : outcome.timeless = (Outcome.blocked block).timeless) :
    ∃ other, outcome = .blocked other := by
  cases outcome with
  | ready value => cases hsame
  | blocked other => exact ⟨other, rfl⟩

/-! ## Statements -/

section Statements

variable {α : Type} {clock : Nat → String} {world : World} {scene next : Scene}

/-- In this scene the call that waits has an answer when it is repeated. -/
structure Suspension.Resumable (rest : Suspension α) (scene : Scene) : Prop where
  fits : rest.request.Fits False
  next : ∀ answer, (rest.next answer).Sound False
  clock : rest.request.isClock = false
  answered : ∃ answer after, scene.world.perform true rest.request = .ok (.ready answer, after)

/-- How far a statement has come towards its verdict: it is done, it waits, or the program has
ended. -/
inductive Progress.Brings (clock : Nat → String) (next : Scene) :
    Progress α → Verdict α → Prop
  | done {value : α} (hrunning : next.Running) :
      Brings clock next (.done value) (.goes value next)
  | waits {block : Block} {rest : Suspension α} (hrunning : next.Running)
      (hrest : rest.Resumable next) :
      Brings clock next (.blocked block rest) (rest.evaluate clock next)
  | ended {progress : Progress α} (hended : next.world.library.ended = true)
      (hprogress : ∀ fault, progress ≠ .failed fault) :
      Brings clock next progress (.stops next)

/-- The waits that are in an action. -/
inductive Action.Contains : Action α → Suspension α → Prop
  | here {r : Request} {next : String → Action α} : Contains (.ask r next) ⟨r, next⟩
  | there {r : Request} {next : String → Action α} {rest : Suspension α} {answer : String}
      (hrest : Contains (next answer) rest) : Contains (.ask r next) rest

/-- An action waits for one of its own requests. -/
theorem Action.contains_of_run {action : Action α} {world : World} {block : Block}
    {rest : Suspension α} (hrun : (action.run world).1 = .blocked block rest) :
    action.Contains rest := by
  induction action generalizing world with
  | done | fail => cases hrun
  | ask r next ih =>
    unfold Action.run at hrun
    cases hperform : world.perform false r with
    | error error =>
      rw [hperform] at hrun
      cases hrun
    | ok result =>
      obtain ⟨outcome, after⟩ := result
      rw [hperform] at hrun
      cases outcome with
      | ready answer => exact .there (ih answer hrun)
      | blocked found =>
        cases hrun
        exact .here

/-- From a scene, a run with this result and these attempts leads to the next scene, and towards the
verdict. -/
structure Scene.Leads (scene : Scene) (clock : Nat → String) (verdict : Verdict α)
    (result : Progress α × World) (log : List Attempt) (next : Scene) : Prop where
  brings : result.1.Brings clock next verdict
  plays : result.2.Plays next
  readings : next.readings = scene.readings + (clockAnswers log).length

/-- An action that is done. -/
theorem Scene.leads_done (hplays : world.Plays scene) (value : α) :
    scene.Leads clock ((Action.done value).evaluate clock scene) (.done value, world) [] scene := by
  refine ⟨?_, hplays, rfl⟩
  unfold Action.evaluate
  cases hended : scene.world.library.ended with
  | true => exact .ended hended (by simp)
  | false => exact .done hended

theorem Request.perform_clock {r : Request} (hclock : r.isClock = true) (world : World) :
    ∃ answer after, world.perform false r = .ok (.ready answer, after) ∧ after.Alike world := by
  cases r with
  | readField field =>
    refine ⟨_, _, rfl, ?_⟩
    cases field <;> rfl
  | _ => cases hclock

/-- A call that has to wait in the scene as well. -/
theorem Scene.leads_blocked {r : Request} {after : String → Action α} {log : List Attempt}
    {later : World} {block other : Block} {moved : World} (hfits : r.Fits False)
    (hnext : ∀ answer, (after answer).Sound False) (hclock : r.isClock = false)
    (hclosed : scene.world.library.console.closed = true)
    (hperform : scene.world.perform false r = .ok (.blocked other, moved))
    (hplays : later.Plays { scene with world := moved }) (hlog : clockAnswers log = []) :
    scene.Leads clock ((Action.ask r after).evaluate clock scene)
      (.blocked block ⟨r, after⟩, later) log { scene with world := moved } := by
  refine ⟨?_, hplays, by simp [hlog]⟩
  simp only [Action.evaluate, Scene.answer, hclock, hperform, Bool.false_eq_true, if_false]
  cases hended : moved.library.ended with
  | true => exact .ended hended (by simp)
  | false =>
    obtain ⟨-, -, answered⟩ := World.perform_resumed hclosed hperform
    exact .waits hended ⟨hfits, hnext, hclock, answered⟩

/-- Running a statement brings it towards its verdict. -/
theorem Action.Sound.leads {action : Action α} (hsound : action.Sound False)
    (hplays : world.Plays scene)
    (hgives : Gives clock scene.readings (clockAnswers (action.attempts world))) :
    ∃ next, scene.Leads clock (action.evaluate clock scene) (action.run world)
      (action.attempts world) next := by
  induction hsound generalizing world scene with
  | done => exact ⟨scene, Scene.leads_done hplays _⟩
  | @ask r after hfits hafter ih =>
    unfold Action.attempts at hgives
    unfold Action.run Action.attempts
    cases hclock : r.isClock with
    | true =>
      obtain ⟨answer, later, hperform, halike⟩ := Request.perform_clock hclock world
      rw [hperform] at hgives ⊢
      simp only [clockAnswers_clock hclock, Gives] at hgives ⊢
      obtain ⟨next, hbrings, hnext, hreadings⟩ := ih answer (hplays.read halike _) hgives.2
      refine ⟨next, ?_, hnext, ?_⟩
      · simpa only [Action.evaluate, Scene.answer, hclock, if_true, hgives.1,
          Verdict.goes_andThen] using hbrings
      · rw [hreadings, clockAnswers_clock hclock, List.length_cons]
        simp only
        omega
    | false =>
      obtain ⟨outcome, later, hperform⟩ := world.exists_perform false hfits
      obtain ⟨outcome', moved, hscene, hsame, hlater⟩ := hplays.perform hfits hclock hperform
      rw [hperform] at hgives ⊢
      cases outcome with
      | ready answer =>
        obtain rfl := Outcome.eq_ready_of_timeless hsame
        simp only [clockAnswers_other hclock] at hgives
        obtain ⟨next, hbrings, hnext, hreadings⟩ := ih answer hlater hgives
        refine ⟨next, ?_, hnext, ?_⟩
        · simpa only [Action.evaluate, Scene.answer, hclock, hscene, Bool.false_eq_true, if_false,
            Verdict.goes_andThen] using hbrings
        · rw [clockAnswers_other hclock]
          exact hreadings
      | blocked block =>
        obtain ⟨other, rfl⟩ := Outcome.eq_blocked_of_timeless hsame
        exact ⟨_, Scene.leads_blocked hfits hafter hclock hplays.closed hscene hlater rfl⟩

/-- A call that is repeated in the world of the scene has the answer that it has there. -/
theorem Suspension.Resumable.perform {rest : Suspension α} (hrest : rest.Resumable scene)
    (hplays : world.Plays scene) :
    ∃ answer later moved, world.perform true rest.request = .ok (.ready answer, later) ∧
      scene.world.perform true rest.request = .ok (.ready answer, moved) ∧
      later.Plays { scene with world := moved } := by
  obtain ⟨answer, moved, hscene⟩ := hrest.answered
  obtain ⟨outcome, later, hperform⟩ := world.exists_perform true hrest.fits
  obtain ⟨outcome', moved', hscene', hsame, hlater⟩ :=
    hplays.perform hrest.fits hrest.clock hperform
  obtain ⟨rfl, rfl⟩ := Prod.mk.inj (Except.ok.inj (hscene.symm.trans hscene'))
  obtain rfl := Outcome.eq_ready_of_timeless hsame.symm
  exact ⟨answer, later, moved, hperform, hscene, hlater⟩

/-- Going on with a statement after a wait brings it towards its verdict. -/
theorem Suspension.Resumable.leads {rest : Suspension α} (hrest : rest.Resumable scene)
    (hplays : world.Plays scene)
    (hgives : Gives clock scene.readings (clockAnswers (rest.attempts world))) :
    ∃ next, scene.Leads clock (rest.evaluate clock scene) (rest.resume world)
      (rest.attempts world) next := by
  obtain ⟨answer, later, moved, hperform, hscene, hlater⟩ := hrest.perform hplays
  obtain ⟨hfits, hafter, hclock, -⟩ := hrest
  unfold Suspension.attempts at hgives
  unfold Suspension.resume Suspension.attempts
  rw [hperform] at hgives ⊢
  simp only [clockAnswers_other hclock] at hgives
  obtain ⟨next, hbrings, hnext, hreadings⟩ := (hafter answer).leads hlater hgives
  refine ⟨next, ?_, hnext, ?_⟩
  · simpa only [Suspension.evaluate, Scene.repeat, hscene, Verdict.goes_andThen] using hbrings
  · rw [clockAnswers_other hclock]
    exact hreadings

/-- A statement that goes on after a wait comes to a later one. -/
theorem Suspension.Resumable.contains_of_resume {rest left : Suspension α} {block : Block}
    (hrest : rest.Resumable scene) (hplays : world.Plays scene)
    (hresume : (rest.resume world).1 = .blocked block left) :
    ∃ answer, (rest.next answer).Contains left := by
  obtain ⟨answer, later, -, hperform, -⟩ := hrest.perform hplays
  unfold Suspension.resume at hresume
  rw [hperform] at hresume
  exact ⟨answer, Action.contains_of_run hresume⟩

end Statements

/-! ## Threads -/

namespace Thread

variable {program : Program} {clock : Nat → String} {thread : Thread} {world : World}
  {scene : Scene} {verdict : Verdict Flow}

/-- What the thread still has to do of its statement comes to this verdict. -/
inductive Pends (program : Program) (clock : Nat → String) (thread : Thread) (scene : Scene) :
    Verdict Flow → Prop
  | ready {statement : Statement} (hphase : thread.phase = .ready)
      (hstatement : program.get? thread.ip = some statement) :
      Pends program clock thread scene ((program.execute thread.ip statement).evaluate clock scene)
  | waiting {block : Block} {rest : Suspension Flow} (hphase : thread.phase = .waiting block rest)
      (hrest : rest.Resumable scene) :
      Pends program clock thread scene (rest.evaluate clock scene)

/-- The waits that the thread may come to in its statement, after the one it is in. -/
inductive MayWait (program : Program) (thread : Thread) (rest : Suspension Flow) : Prop
  | ready {statement : Statement} (hphase : thread.phase = .ready)
      (hstatement : program.get? thread.ip = some statement)
      (hcontains : (program.execute thread.ip statement).Contains rest)
  | waiting {block : Block} {now : Suspension Flow} {answer : String}
      (hphase : thread.phase = .waiting block now)
      (hcontains : (now.next answer).Contains rest)

/-- Where a thread goes does not depend on its phase. -/
theorem settle_phase (thread : Thread) (program : Program) (phase : Phase)
    (progress : Progress Flow) :
    { thread with phase }.settle program progress = thread.settle program progress := by
  cases progress with
  | failed | blocked => rfl
  | done flow =>
    cases flow with
    | next | jump | enter => rfl
    | leave =>
      simp only [settle, follow]
      split <;> rfl

/-- A step of a thread that can go on brings its statement towards the verdict. -/
theorem Pends.step (hpends : thread.Pends program clock scene verdict) (hlinked : program.Linked)
    (hbinds : ∀ event handler, .bind event handler ∉ program.clauses) (hplays : world.Plays scene)
    (hgives : Gives clock scene.readings (clockAnswers (thread.unblock.attempts program world))) :
    ∃ progress later next,
      thread.unblock.step program world =
        ((thread.settle program progress).1, (thread.settle program progress).2, later) ∧
      scene.Leads clock verdict (progress, later) (thread.unblock.attempts program world) next ∧
      ∀ block rest, progress = .blocked block rest → thread.MayWait program rest := by
  cases hpends with
  | @ready statement hphase hstatement =>
    have hclause : program.clause? thread.ip = some statement.clause := by
      simp [Program.clause?, hstatement]
    have hmem := List.mem_of_getElem? ((Program.getElem?_clauses program thread.ip).trans hclause)
    have hsound : (program.execute thread.ip statement).Sound False :=
      hlinked.execute_ensures hstatement fun event handler hbind =>
        hbinds event handler (hbind ▸ hmem)
    rw [unblock_of_ready hphase, attempts_of_ready hphase hstatement] at hgives ⊢
    obtain ⟨next, hleads⟩ := hsound.leads hplays hgives
    refine ⟨_, _, next, step_of_ready hphase hstatement world, hleads, ?_⟩
    intro block rest hblocked
    exact .ready hphase hstatement (Action.contains_of_run hblocked)
  | @waiting block rest hphase hrest =>
    have hunblock : thread.unblock = { thread with phase := .woken rest } := by
      simp only [unblock, hphase]
    rw [hunblock] at hgives ⊢
    obtain ⟨next, hleads⟩ := hrest.leads hplays hgives
    refine ⟨(rest.resume world).1, (rest.resume world).2, next, ?_, hleads, ?_⟩
    · simp only [Thread.step, settle_phase]
    · intro other later hblocked
      obtain ⟨answer, hcontains⟩ := hrest.contains_of_resume hplays hblocked
      exact .waiting hphase hcontains

end Thread

end SmallBasic
