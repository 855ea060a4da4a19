import SmallBasic.Proofs.Foresight
import SmallBasic.Proofs.Refinement

/-!
# The arrival of input

When the lines arrive makes no difference to a steady program that runs alone: two runs that are
given the same lines in the same order, and come to an end, end alike, whatever falls between the
lines, and whenever the ticks are. Each of them comes to the end that the program has on all lines
known in advance. There is one exception: a statement that tells the program to end, and then has to
wait for a line, is given up, while it goes on where the line is there.

## Main definitions

* `Machine.Delivers` — the moves bring lines and then close the input.
* `Machine.Concludes` — a run that comes to an end and is not cut short.
* `Machine.Faces`, `Machine.Rests` — the states of a machine with lines still to come.

## Main statements

* `Machine.Faces.tick` — what a tick does.
* `Machine.Faces.ends` — a run comes to the end that the program has with foresight.
* `Machine.agree_of_concludes` — the outcome does not depend on when input arrives.
* `Machine.end_before_read` — a program that ends in two ways.
-/

namespace SmallBasic

/-! ## Runs that are cut short -/

/-- If the call has to wait for a line, the program has not been told to end. -/
def Entry.Uncut (entry : Entry) : Prop :=
  entry.attempt.outcome = .blocked .input → entry.after.library.ended = false

instance (entry : Entry) : Decidable entry.Uncut := inferInstanceAs (Decidable (_ → _))

section Entries

variable {α : Type} {id : Nat}

theorem Action.waitsRunning_run (action : Action α) {world : World}
    (huncut : ∀ entry ∈ World.entries id world (action.attempts world), entry.Uncut) :
    WaitsRunning (action.run world) := by
  induction action generalizing world with
  | done | fail => exact fun _ hblocked => by cases hblocked
  | ask r next ih =>
    unfold Action.attempts at huncut
    unfold Action.run
    cases hperform : world.perform false r with
    | error error => exact fun _ hblocked => by cases hblocked
    | ok result =>
      obtain ⟨outcome, after⟩ := result
      rw [hperform] at huncut
      cases outcome with
      | ready answer =>
        simp only [World.entries, hperform] at huncut
        exact ih answer (List.forall_mem_cons.1 huncut).2
      | blocked block =>
        simp only [World.entries, hperform] at huncut
        rintro _ ⟨⟩
        exact (List.forall_mem_cons.1 huncut).1 rfl

theorem Suspension.waitsRunning_resume (rest : Suspension α) {world : World}
    (huncut : ∀ entry ∈ World.entries id world (rest.attempts world), entry.Uncut) :
    WaitsRunning (rest.resume world) := by
  unfold Suspension.attempts at huncut
  unfold Suspension.resume
  cases hperform : world.perform true rest.request with
  | error error => exact fun _ hblocked => by cases hblocked
  | ok result =>
    obtain ⟨outcome, after⟩ := result
    rw [hperform] at huncut
    cases outcome with
    | ready answer =>
      simp only [World.entries, hperform] at huncut
      exact (rest.next answer).waitsRunning_run (List.forall_mem_cons.1 huncut).2
    | blocked block =>
      simp only [World.entries, hperform] at huncut
      rintro _ ⟨⟩
      exact (List.forall_mem_cons.1 huncut).1 rfl

end Entries

/-! ## Threads -/

theorem Request.eq_pause_of_isPause {r : Request} (hpause : r.isPause = true)
    (hfits : r.Fits False) :
    ∃ method message, method.pauseMessage? = some message ∧ r = .pause method := by
  unfold isPause at hpause
  split at hpause
  · rename_i method args
    obtain ⟨message, hmessage⟩ := Option.isSome_iff_exists.1 hpause
    have hnone : args.length = 0 := by
      cases method with
      | pause | pauseWithoutMessage | pauseIfVisible => exact hfits
      | _ => cases hmessage
    rw [List.length_eq_zero_iff.1 hnone]
    exact ⟨method, message, hmessage, rfl⟩
  · cases hpause

namespace Thread

variable {program : Program} {clock : Nat → String} {thread : Thread} {world : World}
  {coming : List String} {scene : Scene} {verdict : Verdict Flow} {now : Nat}

/-- If the thread waits, what is left of its statement makes steady requests. -/
def Steady (thread : Thread) : Prop :=
  ∀ block rest, thread.phase = .waiting block rest → rest.Steady

theorem steady_of_ready (hphase : thread.phase = .ready) : thread.Steady := by
  intro block rest hwaiting
  cases hphase.symm.trans hwaiting

/-- A pause that is not parked finds a line, or the end of input. -/
theorem Orderly.isReady (horderly : thread.Orderly) {block : Block} {rest : Suspension Flow}
    (hphase : thread.phase = .waiting block rest) (hfits : rest.request.Fits False)
    (hparked : Machine.isParked world now thread = false) (hpause : rest.request.isPause = true) :
    world.library.console.isReady = true := by
  have hwaits : rest.request.WaitsFor block := by simpa only [Orderly, hphase] using horderly
  obtain ⟨method, message, hmessage, hrequest⟩ := Request.eq_pause_of_isPause hpause hfits
  rw [hrequest] at hwaits
  obtain rfl := hwaits.eq_signal hmessage
  simpa [Machine.isParked, block?, hphase, Library.isResolved] using hparked

/-- A step of a thread that can go on brings its statement towards the verdict that it has with
foresight. -/
theorem Pends.nears (hpends : thread.Pends program clock scene verdict) (hlinked : program.Linked)
    (hprogram : program.Steady) (hsteady : thread.Steady) (horderly : thread.Orderly)
    (hawaits : world.Awaits coming scene) (hparked : Machine.isParked world now thread = false)
    (huncut : ∀ entry ∈ thread.entries program world, entry.Uncut) :
    ∃ progress later next,
      thread.unblock.step program world =
        ((thread.settle program progress).1, (thread.settle program progress).2, later) ∧
      Scene.Nears clock coming verdict (progress, later) next ∧
      ∀ block rest, progress = .blocked block rest → rest.Steady := by
  cases hpends with
  | @ready statement hphase hstatement =>
    have hclause := hprogram.of_get? hstatement
    have hsound : (program.execute thread.ip statement).Sound False :=
      hlinked.execute_ensures hstatement fun event handler hbind => by
        rw [hbind] at hclause
        cases hclause
    have hasks := Program.asks_execute hprogram hstatement
    rw [entries, unblock_of_ready hphase, attempts_of_ready hphase hstatement] at huncut
    obtain ⟨next, hnears⟩ := hsound.awaits hasks hawaits (Action.waitsRunning_run _ huncut)
    rw [unblock_of_ready hphase]
    refine ⟨_, _, next, step_of_ready hphase hstatement world, hnears, ?_⟩
    intro block rest hblocked
    exact hasks.steady_of_contains (Action.contains_of_run hblocked)
  | @waiting block rest hphase hrest =>
    have hunblock : thread.unblock = { thread with phase := .woken rest } := by
      simp only [unblock, hphase]
    rw [entries, hunblock] at huncut
    have hready := horderly.isReady hphase hrest.fits hparked
    have hrestSteady := hsteady block rest hphase
    obtain ⟨next, hnears⟩ :=
      hrest.awaits hrestSteady hawaits hready (rest.waitsRunning_resume huncut)
    refine ⟨(rest.resume world).1, (rest.resume world).2, next, ?_, hnears, ?_⟩
    · rw [hunblock]
      simp only [Thread.step, settle_phase]
    · intro other left hblocked
      exact hrestSteady.of_resume hblocked

end Thread

namespace Machine

variable {machine : Machine} {clock : Nat → String} {coming : List String} {thread : Thread}
  {scene : Scene} {verdict : Verdict Flow} {world : World} {now : Nat}

/-! ## States of the machine -/

/-- The machine has one thread, whose statement comes to this verdict on these lines. -/
structure Faces (machine : Machine) (clock : Nat → String) (coming : List String) (thread : Thread)
    (scene : Scene) (verdict : Verdict Flow) : Prop where
  threads : machine.threads = [thread]
  ended : machine.ended = false
  awaits : machine.world.Awaits coming scene
  running : scene.Running
  pends : thread.Pends machine.program clock scene verdict
  orderly : thread.Orderly
  steady : thread.Steady

/-- The machine has finished, and these lines are still to come. -/
structure Rests (machine : Machine) (coming : List String) (scene : Scene) : Prop where
  halted : machine.ended = true ∨ machine.ended = false ∧ machine.threads = []
  awaits : machine.world.Awaits coming scene

/-- What the thread has come to, which stood at an index with return addresses: the machine has
finished, or the thread stands at the next statement, or it is still in the same one. -/
inductive Proceeds (machine : Machine) (clock : Nat → String) (coming : List String) (index : Nat)
    (returns : List Nat) : Verdict Flow → Prop
  | stops {scene : Scene} (hrests : machine.Rests coming scene) :
      Proceeds machine clock coming index returns (.stops scene)
  | finishes {flow : Flow} {scene : Scene}
      (hpast : machine.program.size ≤ (machine.program.follow index returns flow).1)
      (hrests : machine.Rests coming scene) :
      Proceeds machine clock coming index returns (.goes flow scene)
  | moves {flow : Flow} {scene : Scene} {thread : Thread} {statement : Statement}
      (hplace : machine.program.follow index returns flow = (thread.ip, thread.returns))
      (hstatement : machine.program.get? thread.ip = some statement)
      (hfaces : machine.Faces clock coming thread scene
        ((machine.program.execute thread.ip statement).evaluate clock scene)) :
      Proceeds machine clock coming index returns (.goes flow scene)
  | stays {thread : Thread} {scene : Scene} {verdict : Verdict Flow} (hip : thread.ip = index)
      (hreturns : thread.returns = returns)
      (hfaces : machine.Faces clock coming thread scene verdict) :
      Proceeds machine clock coming index returns verdict

/-- The beginning of a tick only sets the time. -/
theorem awaken_of_awaits (hawaits : machine.world.Awaits coming scene) (now : Nat) :
    ∃ world : World, machine.awaken now = (false, { machine with world }) ∧
      world.Awaits coming scene := by
  have hhandler : machine.world.library.timer.handler? = none :=
    hawaits.plays.alike.handler_eq.trans hawaits.plays.handler
  obtain ⟨due?, hawaken⟩ := awaken_of_handler hhandler now
  refine ⟨_, hawaken, ⟨?_, hawaits.plays.closed, hawaits.plays.handler⟩, hawaits.expects⟩
  exact World.Alike.trans rfl hawaits.plays.alike

/-- A tick that makes a step of the only thread has the entries of this step. -/
theorem entries_of_step (hended : machine.ended = false)
    (hawaken : machine.awaken now = (false, { machine with world }))
    (hthreads : machine.threads = [thread]) (hparked : isParked world now thread = false) :
    machine.entries now = thread.entries machine.program world := by
  simp only [entries, hended, hawaken, hthreads, roundEntries, hparked, Bool.false_eq_true,
    if_false, List.append_nil, ite_self]
  split <;> rfl

theorem Faces.not_isFinished (hfaces : machine.Faces clock coming thread scene verdict) :
    machine.isFinished = false := by
  simp [Machine.isFinished, hfaces.ended, hfaces.threads]

/-- A machine that has finished stays as it is. -/
theorem Rests.tick (hrests : machine.Rests coming scene) (now : Nat) :
    (machine.tick now).2.Rests coming scene := by
  rcases hrests.halted with hended | ⟨hended, hthreads⟩
  · simpa [Machine.tick, hended] using hrests
  · obtain ⟨world, hawaken, hworld⟩ := awaken_of_awaits hrests.awaits now
    rw [tick_of_nil hended hawaken hthreads]
    exact ⟨.inr ⟨hended, hthreads⟩, hworld⟩

/-- What a machine has come to by a step that brings the statement of its thread towards the
verdict. -/
theorem proceeds_of_brings {progress : Progress Flow} {next : Scene}
    (hbrings : progress.Brings clock next verdict) (hawaits : machine.world.Awaits coming next)
    (hended : machine.ended = machine.world.library.ended)
    (hthreads : machine.threads = if machine.world.library.ended then []
      else [(thread.settle machine.program progress).2].filter (!·.isFinished))
    (horderly : (thread.settle machine.program progress).2.Orderly)
    (hleft : ∀ block rest, progress = .blocked block rest → rest.Steady) :
    machine.Proceeds clock coming thread.ip thread.returns verdict := by
  rw [hawaits.ended_eq] at hended hthreads
  cases hbrings with
  | ended hstops => exact .stops ⟨.inl (hended.trans hstops), hawaits⟩
  | @waits block rest hrunning hrest =>
    have hfaces : machine.Faces clock coming { thread with phase := .waiting block rest } next
        (rest.evaluate clock next) := {
      threads := by
        rw [hthreads, if_neg (Bool.eq_false_iff.1 hrunning)]
        rfl
      ended := hended.trans hrunning
      awaits := hawaits
      running := hrunning
      pends := .waiting rfl hrest
      orderly := horderly
      steady := by
        rintro _ _ ⟨⟩
        exact hleft block rest rfl }
    refine .stays ?_ ?_ hfaces
    · rfl
    · rfl
  | @done flow hrunning =>
    rw [if_neg (Bool.eq_false_iff.1 hrunning)] at hthreads
    obtain ⟨ip, returns, hplace⟩ : ∃ ip returns,
        machine.program.follow thread.ip thread.returns flow = (ip, returns) := ⟨_, _, rfl⟩
    by_cases hlt : ip < machine.program.size
    · have hstatement : machine.program.get? ip = some machine.program.statements[ip] :=
        Array.getElem?_eq_getElem hlt
      have hfaces : machine.Faces clock coming { thread with ip, returns, phase := .ready } next
          ((machine.program.execute ip machine.program.statements[ip]).evaluate clock next) := {
        threads := by
          rw [hthreads]
          simp only [Thread.settle, Thread.follow_of_lt hplace hlt]
          rfl
        ended := hended.trans hrunning
        awaits := hawaits
        running := hrunning
        pends := .ready rfl hstatement
        orderly := trivial
        steady := Thread.steady_of_ready rfl }
      exact .moves hplace hstatement hfaces
    · have hle : machine.program.size ≤
          (machine.program.follow thread.ip thread.returns flow).1 := by
        rw [hplace]
        exact Nat.not_lt.1 hlt
      refine .finishes hle ⟨.inr ⟨hended.trans hrunning, ?_⟩, hawaits⟩
      simp [hthreads, Thread.settle, Thread.follow_of_le hle]

/-- A tick leaves a thread that has to wait where it is, and makes a step of any other. -/
theorem Faces.tick (hfaces : machine.Faces clock coming thread scene verdict)
    (hlinked : machine.program.Linked) (hprogram : machine.program.Steady) (now : Nat)
    (huncut : ∀ entry ∈ machine.entries now, entry.Uncut) :
    (machine.tick now).2.Proceeds clock coming thread.ip thread.returns verdict := by
  obtain ⟨hthreads, hended, hawaits, hrunning, hpends, horderly, hsteady⟩ := hfaces
  obtain ⟨world, hawaken, hworld⟩ := awaken_of_awaits hawaits now
  cases hparked : isParked world now thread with
  | true =>
    rw [tick_of_isParked hended hawaken hthreads hparked]
    exact .stays rfl rfl ⟨hthreads, hended, hworld, hrunning, hpends, horderly, hsteady⟩
  | false =>
    rw [entries_of_step hended hawaken hthreads hparked] at huncut
    obtain ⟨progress, later, next, hstep, ⟨hbrings, hlater⟩, hleft⟩ :=
      hpends.nears hlinked hprogram hsteady horderly hworld hparked huncut
    have hprogress : ∀ fault, progress ≠ .failed fault := by
      cases hbrings with
      | done | waits => simp
      | ended _ hprogress => exact hprogress
    obtain ⟨-, hsettled⟩ := horderly.turn machine.program hparked
    rw [hstep] at hsettled
    rw [tick_of_step hended hawaken hthreads hparked hstep
      (Thread.settle_ne_failed hprogress thread machine.program)]
    exact proceeds_of_brings hbrings hlater rfl rfl hsettled hleft

/-! ## Moves -/

/-- The moves bring these lines one after the other and then close the input, unless it is closed
already. Otherwise they are ticks. -/
inductive Delivers : (closed : Bool) → List String → List Move → Prop
  | nil : Delivers true [] []
  | tick {closed : Bool} {lines : List String} {moves : List Move} (now : Nat)
      (hmoves : Delivers closed lines moves) : Delivers closed lines (.tick now :: moves)
  | push {lines : List String} {moves : List Move} (line : String)
      (hmoves : Delivers false lines moves) : Delivers false (line :: lines) (.push line :: moves)
  | close {moves : List Move} (hmoves : Delivers true [] moves) :
      Delivers false [] (.close :: moves)

theorem awaits_push {line : String} (hawaits : machine.world.Awaits (line :: coming) scene) :
    (machine.onConsole (·.push line)).world.Awaits coming scene := by
  have hconsole : (machine.world.library.console.push line).foresee coming =
      machine.world.library.console.foresee (line :: coming) := by
    simp [Console.push, Console.foresee]
  have hworld : (machine.onConsole (·.push line)).world.foresee coming =
      machine.world.foresee (line :: coming) :=
    congrArg (fun console => machine.world.withLibrary
      (machine.world.library.withInput console {})) hconsole
  constructor
  case plays =>
    rw [hworld]
    exact hawaits.plays
  case expects =>
    intro hclosed
    cases hawaits.expects hclosed

theorem awaits_close (hawaits : machine.world.Awaits [] scene) :
    (machine.onConsole Console.close).world.Awaits [] scene :=
  ⟨hawaits.plays, fun _ => rfl⟩

theorem Rests.push {line : String} (hrests : machine.Rests (line :: coming) scene) :
    (machine.onConsole (·.push line)).Rests coming scene :=
  ⟨hrests.halted, awaits_push hrests.awaits⟩

theorem Rests.close (hrests : machine.Rests [] scene) :
    (machine.onConsole Console.close).Rests [] scene :=
  ⟨hrests.halted, awaits_close hrests.awaits⟩

theorem Faces.push {line : String}
    (hfaces : machine.Faces clock (line :: coming) thread scene verdict) :
    (machine.onConsole (·.push line)).Faces clock coming thread scene verdict :=
  { hfaces with awaits := awaits_push hfaces.awaits }

theorem Faces.close (hfaces : machine.Faces clock [] thread scene verdict) :
    (machine.onConsole Console.close).Faces clock [] thread scene verdict :=
  { hfaces with awaits := awaits_close hfaces.awaits }

/-- A machine that has finished stays so, whatever lines arrive. -/
theorem Rests.after (hrests : machine.Rests coming scene) {closed : Bool} {moves later : List Move}
    (hdelivers : Delivers closed coming (moves ++ later)) :
    ∃ left, (machine.after moves).world.Awaits left scene ∧
      moves.filterMap Move.line? ++ left = coming := by
  induction moves generalizing machine coming closed with
  | nil => exact ⟨coming, hrests.awaits, rfl⟩
  | cons move moves ih =>
    cases hdelivers with
    | tick now hmoves => exact ih (hrests.tick now) hmoves
    | push line hmoves =>
      obtain ⟨left, hleft, hlines⟩ := ih hrests.push hmoves
      exact ⟨left, hleft, congrArg (line :: ·) hlines⟩
    | close hmoves => exact ih hrests.close hmoves

variable {program : Program}

/-- A run that comes to an end, and is not cut short, comes to the end that the thread has with
foresight. -/
theorem Faces.ends (hfaces : machine.Faces clock coming thread scene verdict)
    (hprogram : machine.program = program) (hlinked : program.Linked) (hsteady : program.Steady)
    {closed : Bool} {moves later : List Move}
    (hdelivers : Delivers closed coming (moves ++ later))
    (hfinished : (machine.after moves).isFinished = true)
    (huncut : ∀ entry ∈ machine.history moves, entry.Uncut) :
    ∃ last left, (machine.after moves).world.Awaits left last ∧
      moves.filterMap Move.line? ++ left = coming ∧
      verdict.Ends (fun flow next => program.Halts clock last
        (program.follow thread.ip thread.returns flow).1
        (program.follow thread.ip thread.returns flow).2 next) last := by
  induction moves generalizing machine coming thread scene verdict closed with
  | nil => exact absurd hfinished (by simp [Machine.after, hfaces.not_isFinished])
  | cons move moves ih =>
    cases hdelivers with
    | push line hmoves =>
      obtain ⟨last, left, hleft, hlines, hends⟩ :=
        ih hfaces.push hprogram hmoves hfinished huncut
      exact ⟨last, left, hleft, congrArg (line :: ·) hlines, hends⟩
    | close hmoves => exact ih hfaces.close hprogram hmoves hfinished huncut
    | tick now hmoves =>
      obtain ⟨hnow, huncut⟩ := List.forall_mem_append.1 huncut
      have hproceeds := hfaces.tick (hprogram ▸ hlinked) (hprogram ▸ hsteady) now hnow
      have hnext := (machine.program_tick now).trans hprogram
      cases hproceeds with
      | stops hrests =>
        obtain ⟨left, hleft, hlines⟩ := hrests.after hmoves
        exact ⟨_, left, hleft, hlines, .stops⟩
      | finishes hpast hrests =>
        rw [hnext] at hpast
        obtain ⟨left, hleft, hlines⟩ := hrests.after hmoves
        exact ⟨_, left, hleft, hlines, .goes ⟨0, hpast, rfl⟩⟩
      | moves hplace hstatement hmoved =>
        obtain ⟨last, left, hleft, hlines, hends⟩ := ih hmoved hnext hmoves hfinished huncut
        rw [hnext] at hplace hstatement hends
        refine ⟨last, left, hleft, hlines, .goes ?_⟩
        rw [hplace]
        exact Program.halts_of_ends hstatement hends
      | stays hip hreturns hstays =>
        rw [← hip, ← hreturns]
        exact ih hstays hnext hmoves hfinished huncut

end Machine

/-- A thread that runs alone finishes the program in one scene. -/
theorem Program.Finishes.unique {program : Program} {clock : Nat → String} {last other : Scene}
    {count more index : Nat} {returns : List Nat} {scene : Scene}
    (hfinishes : program.Finishes clock last count index returns scene)
    (hother : program.Finishes clock other more index returns scene) : last = other := by
  induction count generalizing more index returns scene with
  | zero =>
    obtain ⟨hpast, rfl⟩ := hfinishes
    exact hother.eq_last hpast
  | succ count ih =>
    obtain ⟨statement, hstatement, hends⟩ := hfinishes
    have hothers := hother.ends hstatement
    generalize (program.execute index statement).evaluate clock scene = verdict at hends hothers
    cases hends with
    | stops => exact Verdict.ends_stops_iff.1 hothers
    | goes hgoes =>
      obtain ⟨fewer, -, hrest⟩ := Verdict.ends_goes_iff.1 hothers
      exact ih hgoes hrest

/-! ## Whole runs -/

/-- The library at the start of a run whose lines are still to come. -/
def Setting.opening (setting : Setting) : Library :=
  { console := { style := setting.style }
    arguments := setting.arguments
    directory := setting.directory
    timer := { resolution := setting.resolution }
    clock := setting.clock
    dice := setting.dice }

/-- The setting without its clock and its dice. -/
def Setting.plain (setting : Setting) : Setting := { setting with clock := {}, dice := {} }

namespace Machine

variable {program : Program} {clock : Nat → String}

theorem awaits_start (program : Program) (setting : Setting) :
    (Machine.start program setting.opening).world.Awaits setting.lines setting.plain.scene := by
  have hworld : (Machine.start program setting.opening).world = { library := setting.opening } := by
    unfold Machine.start
    dsimp only
    split <;> rfl
  rw [hworld]
  exact ⟨⟨rfl, rfl, rfl⟩, nofun⟩

/-- A run that comes to an end before all moves are made, in which no call has had to wait for a
line after the program was told to end. -/
structure Concludes (program : Program) (setting : Setting) (moves : List Move) : Prop where
  delivers : ∃ later, Delivers false setting.lines (moves ++ later)
  finished : ((Machine.start program setting.opening).after moves).isFinished = true
  uncut : ∀ entry ∈ (Machine.start program setting.opening).history moves, entry.Uncut

/-- The lines that a run has taken, and those that it has left or that are still to come, are all
lines. -/
theorem linesOf_start (program : Program) {setting : Setting} {moves : List Move} {last : Scene}
    {left : List String}
    (hawaits : ((Machine.start program setting.opening).after moves).world.Awaits left last)
    (hlines : moves.filterMap Move.line? ++ left = setting.lines) :
    linesOf ((Machine.start program setting.opening).history moves) ++ last.world.queue =
      setting.lines := by
  have hempty : (Machine.start program setting.opening).world.queue = [] := by
    unfold Machine.start
    dsimp only
    split <;> rfl
  rw [hawaits.queue_eq, ← List.append_assoc, linesOf_history, hempty, List.nil_append, hlines]

/-- The run comes to the end that the program has with foresight. -/
theorem Concludes.exists_halts {setting : Setting} {moves : List Move}
    (hconcludes : Concludes program setting moves) (hlinked : program.Linked)
    (hsteady : program.Steady) (clock : Nat → String) :
    ∃ last left, ((Machine.start program setting.opening).after moves).world.Awaits left last ∧
      linesOf ((Machine.start program setting.opening).history moves) ++ last.world.queue =
        setting.lines ∧
      program.Halts clock last 0 [program.size] setting.plain.scene := by
  obtain ⟨⟨later, hdelivers⟩, hfinished, huncut⟩ := hconcludes
  have hawaits := awaits_start program setting
  have hprogram := program_start program setting.opening
  rcases Nat.eq_zero_or_pos program.size with hempty | hsome
  · have hrests : (Machine.start program setting.opening).Rests setting.lines
        setting.plain.scene := by
      refine ⟨.inr ?_, hawaits⟩
      simp [Machine.start, hempty]
    obtain ⟨left, hleft, hlines⟩ := hrests.after hdelivers
    exact ⟨_, left, hleft, linesOf_start program hleft hlines, 0, Nat.le_of_eq hempty, rfl⟩
  · have hstatement : program.get? 0 = some program.statements[0] :=
      Array.getElem?_eq_getElem hsome
    have hfaces : (Machine.start program setting.opening).Faces clock setting.lines
        (Thread.start program 0 0) setting.plain.scene
        ((program.execute 0 program.statements[0]).evaluate clock setting.plain.scene) := {
      threads := by simp [Machine.start, hsome, Machine.spawn]
      ended := by simp [Machine.start, hsome, Machine.spawn]
      awaits := hawaits
      running := rfl
      pends := by
        rw [hprogram]
        exact .ready rfl hstatement
      orderly := trivial
      steady := Thread.steady_of_ready rfl }
    obtain ⟨last, left, hleft, hlines, hends⟩ :=
      hfaces.ends hprogram hlinked hsteady hdelivers hfinished huncut
    exact ⟨last, left, hleft, linesOf_start program hleft hlines,
      Program.halts_of_ends hstatement hends⟩

/-- The outcome does not depend on when input arrives: where the same lines come in the same order,
and the clock and the dice may be others, two runs of a steady program end with the same variables
and the same console, and have taken the same lines. -/
theorem agree_of_concludes {source : String} (hparse : Program.parse source = .ok program)
    (hsteady : program.Steady) (setting : Setting) (clock : Clock) (dice : Dice)
    {moves others : List Move} (hmoves : Concludes program setting moves)
    (hothers : Concludes program { setting with clock, dice } others) :
    let machine := Machine.start program setting.opening
    let other := Machine.start program { setting with clock, dice }.opening
    (machine.after moves).world.store = (other.after others).world.store ∧
      (machine.after moves).world.library.console.output =
        (other.after others).world.library.console.output ∧
      (machine.after moves).world.library.console.clears =
        (other.after others).world.library.console.clears ∧
      linesOf (machine.history moves) = linesOf (other.history others) := by
  have hlinked := Program.linked_of_parse hparse
  obtain ⟨last, left, hleft, hlines, count, hfinishes⟩ :=
    hmoves.exists_halts hlinked hsteady fun _ => ""
  obtain ⟨_, right, hright, hothers, more, hother⟩ :=
    hothers.exists_halts hlinked hsteady fun _ => ""
  obtain rfl := hfinishes.unique hother
  refine ⟨hleft.store_eq.trans hright.store_eq.symm, hleft.output_eq.trans hright.output_eq.symm,
    hleft.clears_eq.trans hright.clears_eq.symm, ?_⟩
  exact List.append_cancel_right (hlines.trans hothers.symm)

/-- A program that takes lines in three ways. -/
def askingSource : String :=
  "x = TextWindow.Read()\nTextWindow.Pause()\ny = TextWindow.ReadNumber()"

/-- All lines are there at once. -/
def promptMoves : List Move :=
  [.push "a", .push "key", .push "b", .push "7", .close, .tick 0, .tick 1, .tick 2, .tick 3]

/-- The lines come one by one, each after it has been waited for. -/
def slowMoves : List Move :=
  [.tick 5, .push "a", .tick 9, .tick 8, .push "key", .tick 7, .tick 6, .push "b", .tick 6,
    .push "7", .tick 6, .close]

/-- The lines of the program may be there at once or come one by one. -/
theorem agree_of_concludes_asking : ∃ program,
    Program.parse askingSource = .ok program ∧ program.Steady ∧
      Concludes program { lines := ["a", "key", "b", "7"] } promptMoves ∧
      Concludes program { lines := ["a", "key", "b", "7"] } slowMoves ∧
      ((Machine.start program ({} : Setting).opening).after promptMoves).world.store =
        ((Machine.start program ({} : Setting).opening).after slowMoves).world.store ∧
      linesOf ((Machine.start program ({} : Setting).opening).history promptMoves) =
        linesOf ((Machine.start program ({} : Setting).opening).history slowMoves) := by
  obtain ⟨program, hparse, hcheck⟩ := Program.exists_of_any askingSource
    (fun program => program.clauses.all Clause.isSteady &&
      [promptMoves, slowMoves].all fun moves =>
        ((Machine.start program ({} : Setting).opening).after moves).isFinished &&
        ((Machine.start program ({} : Setting).opening).history moves).all (decide ·.Uncut))
    (by decide +kernel)
  simp only [Bool.and_eq_true, List.all_eq_true, List.forall_mem_cons, decide_eq_true_eq] at hcheck
  obtain ⟨hsteady, ⟨hprompt, hpromptUncut⟩, ⟨hslow, hslowUncut⟩, -⟩ := hcheck
  have hpromptRun : Concludes program { lines := ["a", "key", "b", "7"] } promptMoves :=
    ⟨⟨[], .push _ (.push _ (.push _ (.push _ (.close (.tick _ (.tick _ (.tick _ (.tick _
      .nil))))))))⟩, hprompt, hpromptUncut⟩
  have hslowRun : Concludes program { lines := ["a", "key", "b", "7"] } slowMoves :=
    ⟨⟨[], .tick _ (.push _ (.tick _ (.tick _ (.push _ (.tick _ (.tick _ (.push _ (.tick _ (.push _
      (.tick _ (.close .nil)))))))))))⟩, hslow, hslowUncut⟩
  obtain ⟨hstore, -, -, hlines⟩ :=
    agree_of_concludes hparse hsteady _ _ _ hpromptRun hslowRun
  exact ⟨program, hparse, hsteady, hpromptRun, hslowRun, hstore, hlines⟩

/-- After the moves the machine has finished, with this value of `x` and these lines in the
queue. -/
def hasFinished (program : Program) (moves : List Move) (value : String) (queue : List String) :
    Bool :=
  let machine := (Machine.start program ({} : Setting).opening).after moves
  machine.isFinished && machine.world.store.get "x" == value && machine.world.queue == queue

/-- A program that is told to end and then reads a line in the same statement. Where the line is
there, it is read; where it comes later, the program has ended. -/
theorem end_before_read : ∃ program,
    Program.parse "x = Program.End() + TextWindow.Read()" = .ok program ∧ program.Steady ∧
      Delivers false ["a"] [.push "a", .close, .tick 0] ∧
      Delivers false ["a"] [.tick 0, .push "a", .close] ∧
      hasFinished program [.push "a", .close, .tick 0] "a" [] = true ∧
      hasFinished program [.tick 0, .push "a", .close] "" ["a"] = true := by
  obtain ⟨program, hparse, hcheck⟩ := Program.exists_of_any
    "x = Program.End() + TextWindow.Read()"
    (fun program => program.clauses.all Clause.isSteady &&
      hasFinished program [.push "a", .close, .tick 0] "a" [] &&
      hasFinished program [.tick 0, .push "a", .close] "" ["a"])
    (by decide +kernel)
  simp only [Bool.and_eq_true, List.all_eq_true] at hcheck
  obtain ⟨⟨hsteady, hprompt⟩, hlate⟩ := hcheck
  exact ⟨program, hparse, hsteady, .push _ (.close (.tick _ .nil)), .tick _ (.push _ (.close .nil)),
    hprompt, hlate⟩

end Machine

end SmallBasic
