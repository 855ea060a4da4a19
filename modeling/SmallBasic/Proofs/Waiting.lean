import SmallBasic.Proofs.Direct

/-!
# Waits inside a statement

A call may have to wait, and may have to be repeated many times before it has a value, while other
threads change the variables and the library. None of this shows in what the statement does: with
the attempts that had to wait left out, the thread makes exactly the exchanges of a direct
evaluation.

## Main definitions

* `Attempt` — a request that was made, and what came of it.
* `Thread.attempts` — the attempts of one step.
* `Thread.Turns` — the turns of a thread within one statement, each in a world of its own.
* `Paced` — every request is made once as a new one, and then repeated until it has an answer.
* `Thread.Transparent` — what a statement is to have done, and left undone, after some turns.

## Main statements

* `Thread.makes_attempts` — a step does to the world what its attempts do.
* `Thread.transparent_of_parse` — waits do not show in a program that parses.
-/

namespace SmallBasic

/-! ## Attempts -/

/-- A request that was made, whether it is the repetition of one that had to wait, and what came of
it. -/
structure Attempt where
  request : Request
  resumed : Bool
  outcome : Outcome
deriving DecidableEq, Repr

namespace Attempt

/-- The exchange that an attempt comes to, unless it has to wait. -/
def exchange? (attempt : Attempt) : Option Exchange :=
  match attempt.outcome with
  | .ready answer => some (attempt.request, answer)
  | .blocked _ => none

/-- The request that an attempt leaves to be repeated. -/
def pending? (attempt : Attempt) : Option Request :=
  match attempt.outcome with
  | .ready _ => none
  | .blocked _ => some attempt.request

end Attempt

/-- The exchanges among some attempts. -/
def exchanges (log : List Attempt) : List Exchange := log.filterMap Attempt.exchange?

/-- Attempts from a state in which one request, or none, is to be repeated: such a request comes
next and is marked as resumed, and any other request is not. -/
inductive Paced : Option Request → List Attempt → Option Request → Prop
  | nil (pending? : Option Request) : Paced pending? [] pending?
  | first {request : Request} {outcome : Outcome} {log : List Attempt} {last? : Option Request}
      (hrest : Paced (Attempt.pending? ⟨request, false, outcome⟩) log last?) :
      Paced none (⟨request, false, outcome⟩ :: log) last?
  | again {request : Request} {outcome : Outcome} {log : List Attempt} {last? : Option Request}
      (hrest : Paced (Attempt.pending? ⟨request, true, outcome⟩) log last?) :
      Paced (some request) (⟨request, true, outcome⟩ :: log) last?

theorem Paced.append {first? middle? last? : Option Request} {log more : List Attempt}
    (hlog : Paced first? log middle?) (hmore : Paced middle? more last?) :
    Paced first? (log ++ more) last? := by
  induction hlog with
  | nil => exact hmore
  | first _ ih => exact .first (ih hmore)
  | again _ ih => exact .again (ih hmore)

/-- The attempts, made in order, have these outcomes and lead from one world to another. -/
inductive World.Makes : World → List Attempt → World → Prop
  | nil (world : World) : World.Makes world [] world
  | cons {world next last : World} {attempt : Attempt} {log : List Attempt}
      (hattempt : world.perform attempt.resumed attempt.request = .ok (attempt.outcome, next))
      (hrest : World.Makes next log last) : World.Makes world (attempt :: log) last

section Attempts

variable {α : Type}

/-- The attempts of an action that is run. -/
def Action.attempts : Action α → World → List Attempt
  | .done _, _ | .fail _, _ => []
  | .ask request next, world =>
    match world.perform false request with
    | .error _ => []
    | .ok (.ready answer, world) => ⟨request, false, .ready answer⟩ :: (next answer).attempts world
    | .ok (.blocked block, _) => [⟨request, false, .blocked block⟩]

/-- The attempts of an action that goes on after a wait. -/
def Suspension.attempts (rest : Suspension α) (world : World) : List Attempt :=
  match world.perform true rest.request with
  | .error _ => []
  | .ok (.ready answer, world) =>
    ⟨rest.request, true, .ready answer⟩ :: (rest.next answer).attempts world
  | .ok (.blocked block, _) => [⟨rest.request, true, .blocked block⟩]

/-- The attempts of a step. -/
def Thread.attempts (thread : Thread) (program : Program) (world : World) : List Attempt :=
  match thread.phase with
  | .finished | .waiting _ _ => []
  | .woken rest => rest.attempts world
  | .ready =>
    match program.get? thread.ip with
    | none => []
    | some statement => (program.execute thread.ip statement).attempts world

theorem Action.makes_attempts (action : Action α) (world : World) :
    world.Makes (action.attempts world) (action.run world).2 := by
  induction action generalizing world with
  | done | fail => exact .nil world
  | ask request next ih =>
    unfold Action.attempts Action.run
    cases hperform : world.perform false request with
    | error error => exact .nil world
    | ok result =>
      obtain ⟨outcome, after⟩ := result
      cases outcome with
      | ready answer => exact .cons hperform (ih answer after)
      | blocked block => exact .cons hperform (.nil after)

theorem Suspension.makes_attempts (rest : Suspension α) (world : World) :
    world.Makes (rest.attempts world) (rest.resume world).2 := by
  unfold Suspension.attempts Suspension.resume
  cases hperform : world.perform true rest.request with
  | error error => exact .nil world
  | ok result =>
    obtain ⟨outcome, after⟩ := result
    cases outcome with
    | ready answer => exact .cons hperform ((rest.next answer).makes_attempts after)
    | blocked block => exact .cons hperform (.nil after)

/-- A step does to the world what its attempts do. -/
theorem Thread.makes_attempts (thread : Thread) (program : Program) (world : World) :
    world.Makes (thread.attempts program world) (thread.step program world).2.2 := by
  cases hphase : thread.phase with
  | finished | waiting =>
    simp only [Thread.attempts, Thread.step, hphase]
    exact .nil world
  | woken rest =>
    simp only [Thread.attempts, Thread.step, hphase]
    exact rest.makes_attempts world
  | ready =>
    cases hstatement : program.get? thread.ip with
    | none =>
      simp only [Thread.attempts, Thread.step, hphase, hstatement]
      exact .nil world
    | some statement =>
      simp only [Thread.attempts, Thread.step, hphase, hstatement]
      exact Action.makes_attempts _ world

end Attempts

/-! ## Progress -/

namespace Progress

variable {α : Type}

/-- What is left to do. -/
def residual : Progress α → Action α
  | .done value => .done value
  | .failed fault => .fail fault
  | .blocked _ rest => .ask rest.request rest.next

/-- The request that has to be repeated. -/
def pending? : Progress α → Option Request
  | .done _ | .failed _ => none
  | .blocked _ rest => some rest.request

/-- The attempts have brought an action so far. -/
structure Follows (progress : Progress α) (action : Action α) (log : List Attempt) : Prop where
  reaches : action.Reaches (exchanges log) progress.residual
  paced : Paced none log progress.pending?
  sound : progress.Sound

variable {action : Action α} {log : List Attempt}

/-- An action that is run comes as far as its attempts bring it. -/
theorem follows_run (hsound : action.Sound) (world : World) :
    (action.run world).1.Follows action (action.attempts world) := by
  induction hsound generalizing world with
  | done => exact ⟨.refl _, .nil none, trivial⟩
  | ask hfits hnext ih =>
    obtain ⟨outcome, after, hperform⟩ := world.exists_perform false hfits
    unfold Action.run Action.attempts
    rw [hperform]
    cases outcome with
    | ready answer =>
      have hfollows := ih answer after
      exact ⟨.ask hfollows.reaches, .first hfollows.paced, hfollows.sound⟩
    | blocked block => exact ⟨.refl _, .first (.nil _), hfits, hnext⟩

/-- An action that goes on after a wait comes as far as all its attempts bring it. -/
theorem Follows.resume {block : Block} {rest : Suspension α}
    (hfollows : (Progress.blocked block rest).Follows action log) (world : World) :
    (rest.resume world).1.Follows action (log ++ rest.attempts world) := by
  obtain ⟨hreaches, hpaced, hfits, hnext⟩ := hfollows
  obtain ⟨outcome, after, hperform⟩ := world.exists_perform true hfits
  unfold Suspension.resume Suspension.attempts
  rw [hperform]
  cases outcome with
  | ready answer =>
    have hmore := follows_run (hnext answer) after
    refine ⟨?_, hpaced.append (.again hmore.paced), hmore.sound⟩
    rw [exchanges, List.filterMap_append]
    exact hreaches.trans (.ask hmore.reaches)
  | blocked block =>
    refine ⟨?_, hpaced.append (.again (.nil _)), hfits, hnext⟩
    rw [exchanges, List.filterMap_append]
    exact hreaches.trans (.refl _)

end Progress

/-! ## Turns -/

namespace Thread

/-- Turns of a thread within one statement. Each finds a world of its own, whatever has happened to
it since the turn before, and all but the last end in a wait. -/
inductive Turns (program : Program) : Thread → List World → List Attempt → Report → Thread → Prop
  | last (thread : Thread) (world : World) :
      Turns program thread [world] (thread.unblock.attempts program world)
        (thread.unblock.step program world).1 (thread.unblock.step program world).2.1
  | wait {thread next : Thread} {worlds : List World} {log : List Attempt} {report : Report}
      {block : Block} (world : World)
      (hwait : (thread.unblock.step program world).1 = .blocked block)
      (hrest : Turns program (thread.unblock.step program world).2.1 worlds log report next) :
      Turns program thread (world :: worlds) (thread.unblock.attempts program world ++ log) report
        next

/-- What is to come of a statement after some turns of the thread that stood before it. -/
structure Transparent (program : Program) (thread : Thread) (statement : Statement)
    (log : List Attempt) (report : Report) (next : Thread) : Prop where
  /-- A request is new when it is first made, and resumed whenever it is repeated. -/
  paced : ∃ last?, Paced none log last?
  /-- As long as the statement waits, the thread stays where it is, and its exchanges are the
  beginning of a direct evaluation. -/
  waits : ∀ block, report = .blocked block →
    (∃ rest, next = { thread with phase := .waiting block rest }) ∧
      ∃ more flow, program.Performs statement (exchanges log ++ more) flow
  /-- Once it is done, its exchanges are a direct evaluation, and the only one with these answers,
  and the thread goes where this leads. -/
  completes : (∀ block, report ≠ .blocked block) →
    ∃ flow, (report, next) = thread.follow program flow ∧
      program.Performs statement (exchanges log) flow ∧
      ∀ other direction, program.Performs statement other direction →
        other.map Prod.snd = (exchanges log).map Prod.snd →
          other = exchanges log ∧ direction = flow
  /-- The statement does not fail. -/
  succeeds : ∀ fault, report ≠ .failed fault

variable {program : Program} {thread : Thread} {statement : Statement} {log : List Attempt}

theorem goto_ne_blocked (thread : Thread) (program : Program) (index : Nat) (block : Block) :
    (thread.goto program index).1 ≠ .blocked block := by
  unfold Thread.goto
  split <;> simp

theorem follow_ne_blocked (thread : Thread) (program : Program) (flow : Flow) (block : Block) :
    (thread.follow program flow).1 ≠ .blocked block := by
  cases flow with
  | next | jump | enter => exact goto_ne_blocked _ _ _ _
  | leave =>
    unfold Thread.follow
    dsimp only
    split
    · exact goto_ne_blocked _ _ _ _
    · simp

/-- Only a call that waits makes its thread wait. -/
theorem eq_blocked_of_settle {progress : Progress Flow} {block : Block}
    (hreport : (thread.settle program progress).1 = .blocked block) :
    ∃ rest, progress = .blocked block rest := by
  cases progress with
  | done flow => exact absurd hreport (follow_ne_blocked thread program flow block)
  | failed fault => cases hreport
  | blocked found rest =>
    cases hreport
    exact ⟨rest, rfl⟩

/-- What an action has come to is what is to come of its statement. -/
theorem transparent_of_follows (hlinked : program.Linked)
    (hstatement : program.get? thread.ip = some statement) {progress : Progress Flow}
    (hfollows : progress.Follows (program.execute thread.ip statement) log) :
    Transparent program thread statement log (thread.settle program progress).1
      (thread.settle program progress).2 := by
  have hexecute : ∀ {log : List Exchange} {flow : Flow},
      (program.execute thread.ip statement).Completes log flow ↔
        program.Performs statement log flow :=
    hlinked.completes_execute_iff hstatement
  constructor
  case paced => exact ⟨_, hfollows.paced⟩
  case waits =>
    intro block hreport
    obtain ⟨rest, rfl⟩ := eq_blocked_of_settle hreport
    have hrest : (Action.ask rest.request rest.next).Sound :=
      (hlinked.execute_sound hstatement).of_reaches hfollows.reaches
    obtain ⟨more, flow, hmore⟩ := hrest.exists_completes
    exact ⟨⟨rest, rfl⟩, more, flow, hexecute.1 (hfollows.reaches.trans hmore)⟩
  case completes =>
    intro hreport
    cases progress with
    | done flow =>
      have hdone : (program.execute thread.ip statement).Completes (exchanges log) flow :=
        hfollows.reaches
      refine ⟨flow, rfl, hexecute.1 hdone, ?_⟩
      intro other direction hother hanswers
      exact hdone.unique (hexecute.2 hother) hanswers
    | failed fault => exact hfollows.sound.elim
    | blocked block rest => exact absurd rfl (hreport block)
  case succeeds => exact (stepsWell_settle hfollows.sound thread program).1

/-- Turns that go on after a wait. -/
theorem transparent_of_waiting (hlinked : program.Linked)
    (hstatement : program.get? thread.ip = some statement) {waiting next : Thread}
    {worlds : List World} {more : List Attempt} {report : Report} {block : Block}
    {rest : Suspension Flow} (hwaiting : waiting = { thread with phase := .waiting block rest })
    (hfollows : (Progress.blocked block rest).Follows (program.execute thread.ip statement) log)
    (hturns : Turns program waiting worlds more report next) :
    Transparent program thread statement (log ++ more) report next := by
  induction hturns generalizing log block rest with
  | last waiting world =>
    subst hwaiting
    exact transparent_of_follows hlinked hstatement (hfollows.resume world)
  | wait world hwait _ ih =>
    subst hwaiting
    have hresumed := hfollows.resume world
    obtain ⟨left, hleft⟩ := eq_blocked_of_settle hwait
    rw [← List.append_assoc]
    have hnext := congrArg (fun progress => (thread.settle program progress).2) hleft
    exact ih hnext (hleft ▸ hresumed)

section Ready

variable (hready : thread.phase = .ready)

include hready

theorem unblock_of_ready : thread.unblock = thread := by
  simp only [Thread.unblock, hready]

theorem step_of_ready (hstatement : program.get? thread.ip = some statement) (world : World) :
    thread.step program world =
      ((thread.settle program ((program.execute thread.ip statement).run world).1).1,
        (thread.settle program ((program.execute thread.ip statement).run world).1).2,
        ((program.execute thread.ip statement).run world).2) := by
  simp only [Thread.step, hready, hstatement]

theorem attempts_of_ready (hstatement : program.get? thread.ip = some statement) (world : World) :
    thread.attempts program world = (program.execute thread.ip statement).attempts world := by
  simp only [Thread.attempts, hready, hstatement]

/-- Turns from the start of a statement. -/
theorem transparent_of_ready (hlinked : program.Linked)
    (hstatement : program.get? thread.ip = some statement) {next : Thread} {worlds : List World}
    {report : Report} (hturns : Turns program thread worlds log report next) :
    Transparent program thread statement log report next := by
  have hfollows := Progress.follows_run (hlinked.execute_sound hstatement)
  cases hturns with
  | last thread world =>
    rw [unblock_of_ready hready, step_of_ready hready hstatement,
      attempts_of_ready hready hstatement]
    exact transparent_of_follows hlinked hstatement (hfollows world)
  | wait world hwait hrest =>
    rw [unblock_of_ready hready, step_of_ready hready hstatement] at hwait hrest
    rw [unblock_of_ready hready, attempts_of_ready hready hstatement]
    obtain ⟨left, hleft⟩ := eq_blocked_of_settle hwait
    have hwaiting := congrArg (fun progress => (thread.settle program progress).2) hleft
    exact transparent_of_waiting hlinked hstatement hwaiting (hleft ▸ hfollows world) hrest

end Ready

/-- Whatever the waits, and whatever happens in between, a statement of a program that parses makes
the exchanges of its direct evaluation. A thread that still waits does nothing, and a step changes
the world by its attempts alone. -/
theorem transparent_of_parse {source : String} (hparse : Program.parse source = .ok program) :
    (∀ {thread next : Thread} {statement : Statement} {worlds : List World} {log : List Attempt}
        {report : Report}, program.get? thread.ip = some statement → thread.phase = .ready →
        Turns program thread worlds log report next →
          Transparent program thread statement log report next) ∧
      (∀ (thread : Thread) (world : World) (block : Block) (rest : Suspension Flow),
        thread.phase = .waiting block rest →
          thread.step program world = (.blocked block, thread, world)) ∧
      ∀ (thread : Thread) (world : World),
        world.Makes (thread.attempts program world) (thread.step program world).2.2 := by
  have hlinked := Program.linked_of_parse hparse
  refine ⟨?_, ?_, fun thread world => thread.makes_attempts program world⟩
  · intro thread next statement worlds log report hstatement hready hturns
    exact transparent_of_ready hready hlinked hstatement hturns
  · intro thread world block rest hwaiting
    simp only [Thread.step, hwaiting]

/-- A statement that waits for an input line in its first turn and finds one in its second. -/
theorem transparent_of_parse_read : ∃ program statement log report next,
    Program.parse "x = TextWindow.Read()" = .ok program ∧ program.get? 0 = some statement ∧
      Turns program (Thread.start program 0 0)
        [{}, { library := { console := { pending := ["a"] } } }] log report next ∧
      Transparent program (Thread.start program 0 0) statement log report next := by
  obtain ⟨program, hparse, hcheck⟩ := Program.exists_of_any "x = TextWindow.Read()"
    (fun program => (program.get? 0).isSome &&
      ((Thread.start program 0 0).unblock.step program {}).1 == .blocked .input)
    (by decide +kernel)
  simp only [Bool.and_eq_true, beq_iff_eq] at hcheck
  obtain ⟨statement, hstatement⟩ := Option.isSome_iff_exists.1 hcheck.1
  have hturns := Turns.wait {} hcheck.2 (.last _ { library := { console := { pending := ["a"] } } })
  exact ⟨program, statement, _, _, _, hparse, hstatement, hturns,
    (transparent_of_parse hparse).1 hstatement rfl hturns⟩

end Thread

end SmallBasic
