import SmallBasic.Proofs.Arrival
import SmallBasic.Proofs.Turns

/-!
# Return addresses

A thread returns to where it was called from itself, whatever the other threads do meanwhile and
however it comes into the subroutines and out of them. Its return addresses are those of the calls
that it has made and not returned from, above the end of the program, at which it has nowhere to
return to.

What a thread does not decide by itself is where it starts. The starts are within the program, since
only the starts of subroutines are bound to events.

## Main definitions

* `Program.openCalls` — the calls that a thread has made and not returned from, out of its turns.
* `Thread.Records` — the return addresses of a thread are those of some calls.
* `Machine.Leaves` — what comes of a turn at the end of a subroutine.

## Main statements

* `Thread.Records.turn` — a turn does to the return addresses what its statement does to the calls.
* `Machine.Records.after` — in every run, each thread has the return addresses of its open calls.
* `Machine.records_of_parse` — this holds for all programs that parse.
-/

namespace SmallBasic

/-! ## Open calls -/

/-- The statement that a turn has executed, unless it still waits. -/
def Turn.executed? (turn : Turn) (program : Program) : Option Nat :=
  match (turn.step program).1 with
  | .ran | .finished => some turn.thread.ip
  | .blocked _ | .failed _ => none

/-- The calls that are open after a thread has been directed somewhere from a statement. -/
def Flow.callsAfter (flow : Flow) (calls : List Nat) (index : Nat) : List Nat :=
  match flow with
  | .enter _ => index :: calls
  | .leave => calls.tail
  | .next | .jump _ => calls

namespace Program

variable {program : Program} {index : Nat} {calls : List Nat}

/-- The calls that are open after a statement, the latest one first: a call of a subroutine opens
one, and the end of a subroutine closes the latest one. -/
def callsAfter (program : Program) (calls : List Nat) (index : Nat) : List Nat :=
  match program.clause? index with
  | some (.callSub _) => index :: calls
  | some .endSub => calls.tail
  | _ => calls

/-- The calls that are open after some turns. -/
def callsAfterTurns (program : Program) (calls : List Nat) (turns : List Turn) : List Nat :=
  (turns.filterMap (·.executed? program)).foldl program.callsAfter calls

/-- The calls that a thread has made in its turns and not returned from, the latest one first. -/
def openCalls (program : Program) (turns : List Turn) (id : Nat) : List Nat :=
  program.callsAfterTurns [] (turnsOf id turns)

theorem openCalls_append (turns more : List Turn) (id : Nat) :
    program.openCalls (turns ++ more) id =
      program.callsAfterTurns (program.openCalls turns id) (turnsOf id more) := by
  simp [openCalls, callsAfterTurns, turnsOf_append]

theorem openCalls_of_new {turns : List Turn} {id : Nat}
    (hnew : ∀ turn ∈ turns, turn.thread.id ≠ id) : program.openCalls turns id = [] := by
  rw [openCalls, turnsOf_eq_nil_iff.2 hnew]
  rfl

/-- What a statement does to the open calls shows in the direction it gives. -/
theorem callsAfter_of_performs {statement : Statement} {log : List Exchange} {flow : Flow}
    (hstatement : program.get? index = some statement)
    (hperforms : program.Performs statement log flow) :
    program.callsAfter calls index = flow.callsAfter calls index := by
  have hclause : program.clause? index = some statement.clause := by simp [clause?, hstatement]
  rw [callsAfter, hclause]
  cases hperforms with
  | pass hclause | branch hclause =>
    rcases hclause with ⟨_, hclause⟩ | hclause <;> simp [hclause, Flow.callsAfter]
  | «for» _ hclause | endFor _ _ hclause =>
    rw [apply_ite (Flow.callsAfter · calls index)]
    simp [hclause, Flow.callsAfter]
  | assign hclause | bind _ hclause | invoke _ hclause | goto hclause | callSub hclause
  | sub hclause | endSub hclause | ifTrue hclause | ifFalse hclause | whileTrue hclause
  | whileFalse hclause | endWhile hclause => simp [hclause, Flow.callsAfter]

end Program

/-! ## Threads -/

namespace Thread

variable {thread : Thread} {program : Program} {statement : Statement} {calls : List Nat}

/-- The thread stands before a statement, or waits inside it. -/
inductive IsAt (thread : Thread) (program : Program) (statement : Statement) : Prop
  | ready (hphase : thread.phase = .ready)
  | waiting {block : Block} {rest : Suspension Flow} {log : List Attempt}
      (hphase : thread.phase = .waiting block rest)
      (hfollows : (Progress.blocked block rest).Follows (program.execute thread.ip statement) log)

/-- The thread is at a statement of the program, and its return addresses are those of some calls,
above the end of the program. -/
structure Records (thread : Thread) (program : Program) (calls : List Nat) : Prop where
  isAt : ∃ statement, program.get? thread.ip = some statement ∧ thread.IsAt program statement
  returns : thread.returns = calls.map (· + 1) ++ [program.size]

theorem Records.ip_lt (hrecords : thread.Records program calls) : thread.ip < program.size := by
  obtain ⟨statement, hstatement, -⟩ := hrecords.isAt
  exact Program.lt_size_of_get? hstatement

theorem records_start {ip : Nat} (hip : ip < program.size) (id : Nat) :
    (Thread.start program id ip).Records program [] :=
  ⟨⟨program.statements[ip], Array.getElem?_eq_getElem hip, .ready rfl⟩, rfl⟩

/-- A turn goes on with the statement that the thread is at. -/
theorem IsAt.step (hat : thread.IsAt program statement) (hlinked : program.Linked)
    (hstatement : program.get? thread.ip = some statement) (world : World) :
    ∃ progress later log, progress.Follows (program.execute thread.ip statement) log ∧
      Turn.step ⟨thread, world⟩ program =
        ((thread.settle program progress).1, (thread.settle program progress).2, later) := by
  cases hat with
  | ready hphase =>
    refine ⟨_, ((program.execute thread.ip statement).run world).2, _,
      Progress.follows_run (hlinked.execute_sound hstatement) world, ?_⟩
    rw [Turn.step, unblock_of_ready hphase, step_of_ready hphase hstatement]
  | @waiting block rest log hphase hfollows =>
    refine ⟨_, (rest.resume world).2, _, hfollows.resume world, ?_⟩
    have hunblock : thread.unblock = { thread with phase := .woken rest } := by
      simp only [unblock, hphase]
    rw [Turn.step, hunblock, Thread.step]
    simp only [settle_phase]

/-- Wherever a thread goes inside the program, it keeps its return addresses. -/
theorem goto_records (hreturns : thread.returns = calls.map (· + 1) ++ [program.size])
    (index : Nat) :
    (thread.goto program index).2.isFinished = true ∨
      (thread.goto program index).2.Records program calls := by
  unfold goto
  split
  case isTrue hlt =>
    exact .inr ⟨⟨program.statements[index], Array.getElem?_eq_getElem hlt, .ready rfl⟩, hreturns⟩
  case isFalse => exact .inl rfl

/-- A thread that is directed somewhere enters and leaves subroutines as its statement says. -/
theorem follow_records {log : List Exchange} {flow : Flow}
    (hreturns : thread.returns = calls.map (· + 1) ++ [program.size])
    (hstatement : program.get? thread.ip = some statement)
    (hperforms : program.Performs statement log flow) :
    (thread.follow program flow).2.isFinished = true ∨
      (thread.follow program flow).2.Records program (program.callsAfter calls thread.ip) := by
  rw [Program.callsAfter_of_performs hstatement hperforms]
  cases flow with
  | next | jump => exact goto_records hreturns _
  | enter target => exact goto_records (by simp [hreturns, Flow.callsAfter]) target
  | leave =>
    cases calls with
    | nil => exact .inl (by simp [follow, hreturns, goto, isFinished])
    | cons call calls =>
      simp only [follow, hreturns, List.map_cons, List.cons_append]
      exact goto_records rfl (call + 1)

theorem follow_reports (thread : Thread) (program : Program) (flow : Flow) :
    (thread.follow program flow).1 = .ran ∨ (thread.follow program flow).1 = .finished := by
  cases hreport : (thread.follow program flow).1 with
  | ran => exact .inl rfl
  | finished => exact .inr rfl
  | blocked block => exact absurd hreport (follow_ne_blocked thread program flow block)
  | failed fault => exact absurd hreport ((stepsWell_follow thread program flow).1 fault)

/-- A turn does to the return addresses what its statement does to the open calls, unless the thread
is finished by it. -/
theorem Records.turn (hrecords : thread.Records program calls) (hlinked : program.Linked)
    {turn : Turn} (hturn : turn.thread = thread) :
    (turn.step program).2.1.isFinished = true ∨
      (turn.step program).2.1.Records program (program.callsAfterTurns calls [turn]) := by
  obtain ⟨thread, world⟩ := turn
  obtain rfl := hturn
  obtain ⟨statement, hstatement, hat⟩ := hrecords.isAt
  obtain ⟨progress, later, log, hfollows, hstep⟩ := hat.step hlinked hstatement world
  simp only [Program.callsAfterTurns, List.filterMap_cons, List.filterMap_nil, Turn.executed?,
    hstep]
  cases progress with
  | done flow =>
    have hperforms := (hlinked.completes_execute_iff hstatement).1 hfollows.reaches
    have hnext := follow_records hrecords.returns hstatement hperforms
    rcases thread.follow_reports program flow with hreport | hreport <;>
      simpa only [settle, hreport, List.foldl_cons, List.foldl_nil] using hnext
  | failed fault => exact hfollows.sound.elim
  | blocked block rest =>
    exact .inr ⟨⟨statement, hstatement, .waiting rfl hfollows⟩, hrecords.returns⟩

/-- A thread at the end of a subroutine leaves it in its turn, and changes nothing else. -/
theorem Records.step_endSub (hrecords : thread.Records program calls)
    (hclause : program.clause? thread.ip = some .endSub) (world : World) :
    Turn.step ⟨thread, world⟩ program =
      ((thread.follow program .leave).1, (thread.follow program .leave).2, world) := by
  obtain ⟨statement, hstatement, hat⟩ := hrecords.isAt
  have hend : statement.clause = .endSub := by
    simpa [Program.clause?, hstatement] using hclause
  have hexecute : program.execute thread.ip statement = .done .leave := by
    simp only [Program.execute, hend]
    rfl
  cases hat with
  | ready hphase =>
    rw [Turn.step, unblock_of_ready hphase, step_of_ready hphase hstatement, hexecute]
    rfl
  | waiting hphase hfollows =>
    have hreaches := hfollows.reaches
    rw [hexecute] at hreaches
    generalize exchanges _ = log at hreaches
    cases hreaches

end Thread

/-! ## What events start -/

/-- The request fits, and binds an event only to a start within the program. -/
structure Request.BindsWithin (r : Request) (size : Nat) : Prop where
  fits : r.Fits
  lt : ∀ event target, r = .bindEvent event target → target < size

/-- The requests of a statement bind events only to starts within the program. -/
theorem Program.Linked.execute_bindsWithin {program : Program} (hlinked : program.Linked)
    {index : Nat} {statement : Statement} (hstatement : program.get? index = some statement) :
    (program.execute index statement).Ensures (·.BindsWithin program.size) fun _ => True := by
  by_cases hbind : ∃ event handler, statement.clause = .bind event handler
  · obtain ⟨event, handler, hkind⟩ := hbind
    have hclause : program.clause? index = some (.bind event handler) := by
      simp [clause?, hstatement, hkind]
    obtain ⟨start, hlink, hlt, -⟩ := hlinked.wellLinked.call index handler (.inr ⟨event, hclause⟩)
    have htarget := target_eq hstatement hlink
    have hwithin : (Request.bindEvent event (start + 1)).BindsWithin program.size := by
      refine ⟨trivial, ?_⟩
      rintro _ _ ⟨⟩
      exact hlt
    simp only [execute, hkind, htarget]
    exact .seq hwithin fun _ => .pure trivial
  · have hensures : (program.execute index statement).Sound False :=
      hlinked.execute_ensures hstatement fun event handler hkind => hbind ⟨event, handler, hkind⟩
    refine hensures.mono fun r hfits => ?_
    cases r with
    | bindEvent => exact hfits.elim
    | _ =>
      refine ⟨hfits, ?_⟩
      rintro _ _ ⟨⟩

section Attempts

variable {α : Type} {Q : Request → Prop} {P : α → Prop}

theorem Action.Ensures.of_mem_attempts {action : Action α} (hensures : action.Ensures Q P)
    (world : World) : ∀ attempt ∈ action.attempts world, Q attempt.request := by
  induction hensures generalizing world with
  | done => simp [Action.attempts]
  | ask hrequest _ ih =>
    intro attempt hattempt
    unfold Action.attempts at hattempt
    split at hattempt
    · simp at hattempt
    · rcases List.mem_cons.1 hattempt with rfl | hattempt
      · exact hrequest
      · exact ih _ _ attempt hattempt
    · obtain rfl := List.mem_singleton.1 hattempt
      exact hrequest

theorem Suspension.of_mem_attempts {rest : Suspension α}
    (hensures : (Action.ask rest.request rest.next).Ensures Q P) (world : World) :
    ∀ attempt ∈ rest.attempts world, Q attempt.request := by
  cases hensures with
  | ask hrequest hnext =>
    intro attempt hattempt
    unfold Suspension.attempts at hattempt
    split at hattempt
    · simp at hattempt
    · rcases List.mem_cons.1 hattempt with rfl | hattempt
      · exact hrequest
      · exact (hnext _).of_mem_attempts _ attempt hattempt
    · obtain rfl := List.mem_singleton.1 hattempt
      exact hrequest

end Attempts

/-- The attempts of a turn are those of the statement that the thread is at. -/
theorem Thread.IsAt.bindsWithin {thread : Thread} {program : Program} {statement : Statement}
    (hat : thread.IsAt program statement) (hlinked : program.Linked)
    (hstatement : program.get? thread.ip = some statement) (world : World) :
    ∀ attempt ∈ Turn.attempts ⟨thread, world⟩ program,
      attempt.request.BindsWithin program.size := by
  have hensures := hlinked.execute_bindsWithin hstatement
  cases hat with
  | ready hphase =>
    rw [Turn.attempts, unblock_of_ready hphase, attempts_of_ready hphase hstatement]
    exact hensures.of_mem_attempts world
  | @waiting block rest log hphase hfollows =>
    have hrest : (Action.ask rest.request rest.next).Ensures (·.BindsWithin program.size) _ :=
      hensures.of_reaches hfollows.reaches
    simpa only [Turn.attempts, unblock, hphase, Thread.attempts] using
      Suspension.of_mem_attempts hrest world

namespace World

variable {world next : World} {size : Nat}

/-- What an event starts lies within the program. -/
def StartsWithin (world : World) (size : Nat) : Prop :=
  ∀ start, world.library.timer.handler? = some start → start < size

theorem StartsWithin.perform (hstarts : world.StartsWithin size) {r : Request}
    (hr : r.BindsWithin size) {resumed : Bool} {outcome : Outcome}
    (hperform : world.perform resumed r = .ok (outcome, next)) : next.StartsWithin size := by
  cases r with
  | bindEvent event target =>
    cases hperform
    cases event
    rintro start ⟨⟩
    exact hr.lt _ _ rfl
  | _ =>
    intro start hstart
    rw [(keeps_perform hperform hr.fits).handler] at hstart
    exact hstarts start hstart

theorem StartsWithin.makes {log : List Attempt} (hstarts : world.StartsWithin size)
    (hlog : ∀ attempt ∈ log, attempt.request.BindsWithin size) (hmakes : world.Makes log next) :
    next.StartsWithin size := by
  induction hmakes with
  | nil => exact hstarts
  | cons hattempt _ ih =>
    obtain ⟨hfirst, hrest⟩ := List.forall_mem_cons.1 hlog
    exact ih (hstarts.perform hfirst hattempt) hrest

end World

/-- A turn binds events only to starts within the program. -/
theorem Thread.Records.startsWithin {thread : Thread} {program : Program} {calls : List Nat}
    (hrecords : thread.Records program calls) (hlinked : program.Linked) {world : World}
    (hstarts : world.StartsWithin program.size) :
    (Turn.step ⟨thread, world⟩ program).2.2.StartsWithin program.size := by
  obtain ⟨statement, hstatement, hat⟩ := hrecords.isAt
  exact hstarts.makes (hat.bindsWithin hlinked hstatement world)
    (thread.unblock.makes_attempts program world)

/-! ## Machines -/

namespace Machine

section GoesRound

variable {program : Program} {now : Nat} {threads : List Thread} {world : World}
  {turns past : List Turn} {after : Round}

/-- What a round leaves: events start only within the program, and the program has not been told to
end unless the round has stopped for it. -/
theorem GoesRound.world_after (hround : GoesRound program now threads world turns after)
    (hlinked : program.Linked)
    (hthreads : ∀ thread ∈ threads, ∃ calls, thread.Records program calls)
    (hstarts : world.StartsWithin program.size) (hrunning : world.library.ended = false)
    (hfault : after.fault? = none) :
    after.world.StartsWithin program.size ∧
      (after.ended = false → after.world.library.ended = false) := by
  induction hround with
  | nil => exact ⟨hstarts, fun _ => hrunning⟩
  | parked _ _ ih => exact ih (List.forall_mem_cons.1 hthreads).2 hstarts hrunning hfault
  | fails => cases hfault
  | ends rest _ hstep _ hended =>
    obtain ⟨calls, hrecords⟩ := (List.forall_mem_cons.1 hthreads).1
    have hlater := hrecords.startsWithin hlinked hstarts
    rw [hstep] at hlater
    exact ⟨hlater, fun hgoes => by cases hgoes⟩
  | turn _ hstep _ hended _ ih =>
    obtain ⟨⟨calls, hrecords⟩, hrest⟩ := List.forall_mem_cons.1 hthreads
    have hlater := hrecords.startsWithin hlinked hstarts
    rw [hstep] at hlater
    exact ih hrest hlater hended hfault

/-- After a round, each thread that is not finished has the return addresses of its open calls, if
it had them before. -/
theorem GoesRound.records (hround : GoesRound program now threads world turns after)
    (hlinked : program.Linked) (hnodup : (threads.map (·.id)).Nodup)
    (hthreads : ∀ thread ∈ threads, thread.Records program (program.openCalls past thread.id)) :
    ∀ next ∈ after.threads, next.isFinished = true ∨
      next.Records program (program.openCalls (past ++ turns) next.id) := by
  intro next hnext
  obtain ⟨thread, hthread, ⟨hnone, rfl⟩ | ⟨turn, hturn, hturns, rfl⟩⟩ :=
    hround.thread_after hnodup next hnext
  · rw [Program.openCalls_append, hnone]
    exact .inr (hthreads next hthread)
  · have hid : (turn.step program).2.1.id = thread.id := by
      rw [← hturn]
      exact id_of_step rfl
    rw [Program.openCalls_append, hid, hturns]
    exact (hthreads thread hthread).turn hlinked hturn

end GoesRound

/-- The machine after some turns: each thread has the return addresses of its open calls. -/
structure Records (machine : Machine) (past : List Turn) : Prop where
  sound : machine.Sound
  numbered : machine.Numbered
  threads : ∀ thread ∈ machine.threads,
    thread.Records machine.program (machine.program.openCalls past thread.id)
  past_lt : ∀ turn ∈ past, turn.thread.id < machine.nextId
  starts : machine.world.StartsWithin machine.program.size
  running : machine.ended = false → machine.world.library.ended = false

variable {machine : Machine} {past : List Turn}

theorem Records.spawn (hrecords : machine.Records past) {ip : Nat}
    (hip : ip < machine.program.size) : (machine.spawn ip).Records past := by
  constructor
  case sound => exact hrecords.sound.spawn ip
  case numbered => exact hrecords.numbered.spawn ip
  case threads =>
    intro thread hthread
    rcases List.mem_append.1 hthread with hthread | hthread
    · exact hrecords.threads thread hthread
    · -- The new thread has a new number, under which there have not been any turns.
      obtain rfl := List.mem_singleton.1 hthread
      have hnone : machine.program.openCalls past machine.nextId = [] :=
        Program.openCalls_of_new fun turn hturn => Nat.ne_of_lt (hrecords.past_lt turn hturn)
      show (Thread.start _ _ _).Records _ (machine.program.openCalls past machine.nextId)
      rw [hnone]
      exact Thread.records_start hip machine.nextId
  case past_lt => exact fun turn hturn => Nat.lt_succ_of_lt (hrecords.past_lt turn hturn)
  case starts => exact hrecords.starts
  case running => exact hrecords.running

theorem Records.withLibrary (hrecords : machine.Records past) {library : Library}
    (hhandler : library.timer.handler? = machine.world.library.timer.handler?)
    (hended : library.ended = machine.world.library.ended) :
    { machine with world := machine.world.withLibrary library }.Records past := by
  constructor
  case sound => exact hrecords.sound.withWorld _
  case numbered => exact ⟨hrecords.numbered.nodup, hrecords.numbered.lt⟩
  case threads => exact hrecords.threads
  case past_lt => exact hrecords.past_lt
  case starts => exact fun start hstart => hrecords.starts start (hhandler ▸ hstart)
  case running => exact fun hrunning => hended.trans (hrecords.running hrunning)

/-- A timer that is due starts what is bound to it, and keeps it. -/
theorem handler_poll (timer : Timer) (now : Nat) :
    (∀ start, (timer.poll now).1 = some start → timer.handler? = some start) ∧
      (timer.poll now).2.handler? = timer.handler? := by
  unfold Timer.poll
  split
  · exact ⟨by simp, rfl⟩
  · split
    · exact ⟨by simp, rfl⟩
    · exact ⟨fun _ hstart => hstart, rfl⟩

theorem Records.awaken (hrecords : machine.Records past) (now : Nat) :
    (machine.awaken now).2.Records past := by
  obtain ⟨hstart, hkeeps⟩ := handler_poll machine.world.library.timer now
  have hlibrary : { machine with
      world := machine.world.withLibrary
        ((machine.world.library.setNow now).due now).2 }.Records past :=
    hrecords.withLibrary hkeeps rfl
  unfold Machine.awaken
  dsimp only
  cases hdue : ((machine.world.library.setNow now).due now).1 with
  | none => exact hlibrary
  | some handler => exact hlibrary.spawn (hrecords.starts handler (hstart handler hdue))

theorem Records.tick (hrecords : machine.Records past) (now : Nat) :
    (machine.tick now).2.Records (past ++ machine.turns now) := by
  cases hended : machine.ended with
  | true => simpa [Machine.tick, turns, hended] using hrecords
  | false =>
    obtain ⟨after, hfault, hround, htick⟩ := hrecords.sound.exists_goesRound now hended
    have hawake := hrecords.awaken now
    have hprogram := machine.program_awaken now
    have hthreads := hawake.threads
    have hstarts := hawake.starts
    rw [hprogram] at hthreads hstarts
    have hrunning := hawake.running ((machine.ended_awaken now).trans hended)
    obtain ⟨hlast, hgoes⟩ := hround.world_after hrecords.sound.linked
      (fun thread hthread => ⟨_, hthreads thread hthread⟩) hstarts hrunning hfault
    have hnext := hround.records hrecords.sound.linked hawake.numbered.nodup hthreads
    constructor
    case sound =>
      obtain ⟨report, next, hnext, hsound⟩ := hrecords.sound.tick now
      rwa [hnext]
    case numbered => exact hrecords.numbered.tick now
    case threads =>
      rw [program_tick, htick]
      intro thread hthread
      simp only [afterRound] at hthread
      split at hthread
      · simp at hthread
      · obtain ⟨hthread, hgoing⟩ := List.mem_filter.1 hthread
        rcases hnext thread hthread with hfinished | hrecords
        · simp [hfinished] at hgoing
        · exact hrecords
    case past_lt =>
      rw [htick]
      intro turn hturn
      rcases List.mem_append.1 hturn with hturn | hturn
      · exact hawake.past_lt turn hturn
      · exact hawake.numbered.lt turn.thread (hround.thread_mem hturn)
    case starts =>
      rw [program_tick, htick]
      exact hlast
    case running =>
      rw [htick]
      exact hgoes

/-- What can be done to a machine from outside, if threads are started only within the program. -/
theorem Records.apply (hrecords : machine.Records past) {move : Move}
    (hmove : ∀ ip, move = .spawn ip → ip < machine.program.size) :
    (machine.apply move).Records (past ++ machine.turnHistory [move]) := by
  cases move with simp only [turnHistory, List.append_nil]
  | tick now => exact hrecords.tick now
  | spawn ip => exact hrecords.spawn (hmove ip rfl)
  | push | close => exact hrecords.withLibrary rfl rfl

/-- In every run in which threads are started only within the program, each thread has the return
addresses of its open calls. -/
theorem Records.after (hrecords : machine.Records past) {moves : List Move}
    (hmoves : ∀ ip, Move.spawn ip ∈ moves → ip < machine.program.size) :
    (machine.after moves).Records (past ++ machine.turnHistory moves) := by
  induction moves generalizing machine past with
  | nil => simpa [Machine.after, turnHistory] using hrecords
  | cons move moves ih =>
    have hnext : (machine.apply move).Records _ :=
      hrecords.apply fun ip hmove => hmoves ip (hmove ▸ List.mem_cons_self)
    have hprogram : (machine.apply move).program = machine.program := machine.program_after [move]
    rw [turnHistory_cons, ← List.append_assoc]
    exact ih hnext fun ip hip => hprogram ▸ hmoves ip (List.mem_cons_of_mem _ hip)

theorem records_start {program : Program} (hlinked : program.Linked) (setting : Setting) :
    (Machine.start program setting.opening).Records [] := by
  have hempty : ({ program, world := { library := setting.opening } } : Machine).Records [] := by
    constructor
    case sound => exact ⟨hlinked, by simp⟩
    case numbered => exact ⟨by simp, by simp⟩
    case threads | past_lt => simp
    case starts => rintro start ⟨⟩
    case running => exact fun _ => rfl
  unfold Machine.start
  dsimp only
  split
  · exact hempty.spawn ‹_›
  · exact hempty

/-- What comes of a turn at the end of a subroutine, in a tick of the machine. -/
structure Leaves (machine : Machine) (now : Nat) (turn : Turn) (calls : List Nat) : Prop where
  /-- The thread goes on right after its latest open call, with the other calls still open. After a
  call that is the last statement this is the end of the thread. -/
  resumes : ∀ call rest, calls = call :: rest →
    turn.step machine.program =
      let left := { turn.thread with
        returns := rest.map (· + 1) ++ [machine.program.size] }.goto machine.program (call + 1)
      (left.1, left.2, turn.world)
  /-- Without an open call the thread has ended. -/
  finishes : calls = [] → (turn.step machine.program).1 = .finished ∧
    ∀ next ∈ (machine.tick now).2.threads, next.id ≠ turn.thread.id
  /-- Without an open call nothing else comes of the turn: the tick does what it does without the
  thread. -/
  alone : calls = [] →
    (machine.tick now).2 = ((machine.awaken now).2.without turn.thread.id).goRound now

/-- A thread that has a turn is a thread of the machine, or was started by an event. -/
theorem Records.of_mem_turns (hrecords : machine.Records past) {now : Nat} {turn : Turn}
    (hturn : turn ∈ machine.turns now) :
    turn.thread.Records machine.program (machine.program.openCalls past turn.thread.id) := by
  obtain ⟨after, -, hround, -⟩ :=
    hrecords.sound.exists_goesRound now (ended_of_mem_turns hturn)
  have hawake := (hrecords.awaken now).threads turn.thread (hround.thread_mem hturn)
  rwa [machine.program_awaken] at hawake

/-- At the end of a subroutine each thread returns to where it was called from itself. -/
theorem Records.leaves (hrecords : machine.Records past) {now : Nat} {turn : Turn}
    (hturn : turn ∈ machine.turns now)
    (hclause : machine.program.clause? turn.thread.ip = some .endSub) :
    machine.Leaves now turn (machine.program.openCalls past turn.thread.id) := by
  have hthread := hrecords.of_mem_turns hturn
  have hstep := hthread.step_endSub hclause turn.world
  have hreturns := hthread.returns
  generalize machine.program.openCalls past turn.thread.id = calls at hreturns ⊢
  have hfollow : calls = [] → turn.thread.follow machine.program .leave =
      (.finished, { turn.thread with
        ip := machine.program.size, returns := [], phase := .finished }) := by
    rintro rfl
    simp [Thread.follow, hreturns, Thread.goto]
  have hended := ended_of_mem_turns hturn
  have hrunning := (hrecords.awaken now).running ((machine.ended_awaken now).trans hended)
  have halone : calls = [] →
      (machine.tick now).2 = ((machine.awaken now).2.without turn.thread.id).goRound now := by
    intro hcalls
    rw [hfollow hcalls] at hstep
    exact hrecords.sound.tick_eq_without hrecords.numbered hended hrunning hturn
      (by rw [hstep]; rfl) (by rw [hstep])
  constructor
  case resumes =>
    rintro call rest rfl
    rw [hstep]
    simp only [Thread.follow, hreturns, List.map_cons, List.cons_append]
  case finishes =>
    intro hcalls
    refine ⟨by rw [hstep, hfollow hcalls], fun next hnext => ?_⟩
    rw [halone hcalls] at hnext
    have hmem := id_mem_of_mem_goRound hnext
    simp only [without, List.mem_map, List.mem_filter, bne_iff_ne] at hmem
    obtain ⟨thread, ⟨-, hne⟩, hid⟩ := hmem
    rwa [hid] at hne
  case alone => exact halone

/-- In every run of a program that parses, in which threads are started from outside only at the
starts of subroutines, each thread stands at a statement, and has above the end of the program the
return addresses of the calls that it has made and not returned from, whatever the other threads
have done. So it always has somewhere to return to: at the end of a subroutine it goes on after the
latest of these calls, or it has ended, and no other thread with it. -/
theorem records_of_parse {source : String} {program : Program}
    (hparse : Program.parse source = .ok program) (setting : Setting) {moves : List Move}
    (hspawns : ∀ ip, Move.spawn ip ∈ moves → ∃ name, program.sub? name = some ip) :
    let machine := (Machine.start program setting.opening).after moves
    let calls := program.openCalls ((Machine.start program setting.opening).turnHistory moves)
    (∀ thread ∈ machine.threads, thread.ip < program.size ∧
        thread.returns = (calls thread.id).map (· + 1) ++ [program.size]) ∧
      ∀ now, ∀ turn ∈ machine.turns now, turn.thread.ip < program.size ∧
        turn.thread.returns = (calls turn.thread.id).map (· + 1) ++ [program.size] ∧
        turn.thread.returns ≠ [] ∧
        (program.clause? turn.thread.ip = some .endSub →
          machine.Leaves now turn (calls turn.thread.id)) := by
  intro machine calls
  have hlinked := Program.linked_of_parse hparse
  have hstart := program_start program setting.opening
  have hprogram : machine.program = program := (program_after _ moves).trans hstart
  have hwithin : ∀ ip, Move.spawn ip ∈ moves →
      ip < (Machine.start program setting.opening).program.size := by
    intro ip hip
    obtain ⟨name, hname⟩ := hspawns ip hip
    rw [hstart]
    exact hlinked.lt_size_of_sub? hname
  have hrecords := (records_start hlinked setting).after hwithin
  rw [List.nil_append] at hrecords
  constructor
  · intro thread hthread
    have hthread := hrecords.threads thread hthread
    rw [hprogram] at hthread
    exact ⟨hthread.ip_lt, hthread.returns⟩
  · intro now turn hturn
    have hthread := hrecords.of_mem_turns hturn
    have hleaves := hrecords.leaves hturn
    rw [hprogram] at hthread hleaves
    exact ⟨hthread.ip_lt, hthread.returns, by simp [hthread.returns], hleaves⟩

/-- The end of a subroutine, reached in the same tick by the thread that has called it as its last
statement and by one that was started in its body. -/
theorem records_of_parse_shared : ∃ program caller other,
    Program.parse "Sub f\nEndSub\nf()" = .ok program ∧ program.sub? "f" = some 1 ∧
      let machine := (Machine.start program ({} : Setting).opening).after
        [.tick 0, .tick 1, .spawn 1]
      machine.turns 2 = [caller, other] ∧ caller.thread.returns = [3, 3] ∧
        other.thread.returns = [3] ∧ machine.Leaves 2 caller [2] ∧ machine.Leaves 2 other [] := by
  obtain ⟨program, hparse, hcheck⟩ := Program.exists_of_any "Sub f\nEndSub\nf()"
    (fun program =>
      let moves := [.tick 0, .tick 1, .spawn 1]
      let first := Machine.start program ({} : Setting).opening
      let calls := program.openCalls (first.turnHistory moves)
      program.sub? "f" == some 1 && program.link? 0 == some 1 && program.size == 3 &&
        calls 0 == [2] && calls 1 == [] &&
        ((first.after moves).turns 2).map (fun turn => (turn.thread.id, turn.thread.ip)) ==
          [(0, 1), (1, 1)])
    (by decide +kernel)
  simp only [Bool.and_eq_true, beq_iff_eq] at hcheck
  obtain ⟨⟨⟨⟨⟨hsub, hlink⟩, hsize⟩, hcaller⟩, hother⟩, hturns⟩ := hcheck
  have hend : program.clause? 1 = some .endSub := by
    have hlinked := Program.linked_of_parse hparse
    obtain ⟨start, hstart, written, hwritten, -⟩ := hlinked.sub?_iff.1 hsub
    obtain rfl := Nat.succ.inj hstart
    obtain ⟨last, hlast, hend⟩ := hlinked.wellLinked.sub 0 written hwritten
    obtain rfl := Option.some.inj (hlink.symm.trans hlast)
    exact hend
  have hspawns : ∀ ip, Move.spawn ip ∈ [Move.tick 0, .tick 1, .spawn 1] →
      ∃ name, program.sub? name = some ip := by
    intro ip hip
    exact ⟨"f", by simp_all⟩
  obtain ⟨-, hrecords⟩ := records_of_parse hparse {} hspawns
  obtain ⟨caller, rest, hturns, hfirst, hrest⟩ := List.map_eq_cons_iff.1 hturns
  obtain ⟨other, rest, rfl, hsecond, hrest⟩ := List.map_eq_cons_iff.1 hrest
  obtain rfl := List.map_eq_nil_iff.1 hrest
  obtain ⟨hfirst, hfirstIp⟩ := Prod.mk.inj hfirst
  obtain ⟨hsecond, hsecondIp⟩ := Prod.mk.inj hsecond
  obtain ⟨-, hreturns, -, hleaves⟩ := hrecords 2 caller (by simp [hturns])
  obtain ⟨-, hreturnsOther, -, hleavesOther⟩ := hrecords 2 other (by simp [hturns])
  rw [hfirst, hcaller] at hreturns hleaves
  rw [hsecond, hother] at hreturnsOther hleavesOther
  rw [hsize] at hreturns hreturnsOther
  exact ⟨program, caller, other, hparse, hsub, hturns, hreturns, hreturnsOther,
    hleaves (hfirstIp ▸ hend), hleavesOther (hsecondIp ▸ hend)⟩

end Machine

end SmallBasic
