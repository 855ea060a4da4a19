import SmallBasic.Proofs.Pauses
import SmallBasic.Proofs.Turns

/-!
# Parked threads

A thread whose statement has to wait is parked. Every tick comes to it in its turn, looks whether
what it waits for has come, and passes over it if not. Nothing changes in a thread that is passed
over, and the first tick that finds its wait over gives it a turn, in which it repeats its call.

The check and the repetition see the same world, so that the repeated call of `TextWindow.Read`, of
a pause or of `Program.Delay` comes to its end at once. `TextWindow.ReadNumber` may have to wait
again, if none of the lines that have come is a number.

## Main definitions

* `Machine.found?` — the world that a thread finds when a tick comes to it.
* `Machine.Unresolved` — moves in which no tick finds the wait of a thread over.
* `Machine.Parks` — what becomes of a thread that waits.
* `Turn.Repeats` — what comes of the turn of a thread that has waited.

## Main statements

* `Machine.turnsOf_turns` — a thread has a turn exactly if it is not parked when the tick comes to
  it.
* `Request.WaitsFor.cases` — what calls can wait for.
* `Machine.parked_until_resolved` — a thread is parked until its wait is over.
-/

namespace SmallBasic

/-! ## The time of a tick -/

/-- The time is the same, and it is counted in the same unit. -/
structure Library.SameTime (lib next : Library) : Prop where
  now_eq : next.now = lib.now
  resolution_eq : next.timer.resolution = lib.timer.resolution

namespace Library

variable {lib next last : Library}

@[refl] theorem SameTime.refl (lib : Library) : lib.SameTime lib := ⟨rfl, rfl⟩

theorem SameTime.trans (hsame : lib.SameTime next) (hrest : next.SameTime last) :
    lib.SameTime last :=
  ⟨hrest.now_eq.trans hsame.now_eq, hrest.resolution_eq.trans hsame.resolution_eq⟩

/-- The same number of instants is a span of time. -/
theorem SameTime.span_eq (hsame : lib.SameTime next) (milliseconds : Nat) :
    next.timer.span milliseconds = lib.timer.span milliseconds := by
  rw [Timer.span, Timer.span, hsame.resolution_eq]

/-- No call changes the time. -/
theorem sameTime_call? {method : Method} {args : List String} {resumed : Bool} {outcome : Outcome}
    (hcall : lib.call? method args resumed = some (outcome, next)) : lib.SameTime next := by
  have hchanges := changesOwn_call? hcall
  obtain ⟨due?, htimer⟩ := hchanges.timer_eq
  exact ⟨hchanges.now_eq, by rw [htimer]⟩

end Library

namespace World

variable {world next last : World}

theorem sameTime_perform {r : Request} {resumed : Bool} {outcome : Outcome}
    (hperform : world.perform resumed r = .ok (outcome, next)) :
    world.library.SameTime next.library := by
  cases r with
  | readVariable | writeVariable =>
    cases hperform
    exact ⟨rfl, rfl⟩
  | readField field | writeField field value =>
    cases hperform
    cases field <;> exact ⟨rfl, rfl⟩
  | bindEvent event target =>
    cases hperform
    cases event
    exact ⟨rfl, rfl⟩
  | call method args =>
    obtain ⟨library, hcall, rfl⟩ := perform_call_iff.1 hperform
    exact Library.sameTime_call? hcall

/-- Some attempts do not change the time. -/
theorem Makes.sameTime {log : List Attempt} (hmakes : world.Makes log last) :
    world.library.SameTime last.library := by
  induction hmakes with
  | nil => rfl
  | cons hattempt _ ih => exact (sameTime_perform hattempt).trans ih

end World

/-! ## Calls that wait -/

/-- A call of `Program.Delay`. -/
def Request.delay (length : String) : Request := .call (.program .delay) [length]

/-- The calls that can wait, and what they can wait for. -/
inductive Request.Waits : Request → Block → Prop
  | readLine : Request.Waits .readLine .input
  | readNumber : Request.Waits .readNumber .input
  | pause {method : WindowMethod} {message : String}
      (hmessage : method.pauseMessage? = some message) : Request.Waits (.pause method) .signal
  | delay (length : String) (time : Nat) : Request.Waits (.delay length) (.instant time)

theorem Library.pause_blocked {lib next : Library} {message : String} {resumed : Bool}
    {block : Block} (hpause : lib.pause message resumed = (.blocked block, next)) :
    block = .signal := by
  cases resumed <;> cases hpause
  rfl

theorem Library.waits_of_callWindow? {lib next : Library} {method : WindowMethod}
    {args : List String} {resumed : Bool} {block : Block}
    (hcall : lib.callWindow? resumed method args = some (.blocked block, next)) :
    (Request.call (.window method) args).Waits block := by
  cases method, args using WindowMethod.args_cases with
  | read =>
    obtain ⟨rfl, -⟩ := readLine_blocked (Option.some.inj hcall)
    exact .readLine
  | readNumber =>
    obtain ⟨rfl, -⟩ := readNumber_blocked (Option.some.inj hcall)
    exact .readNumber
  | pause | pauseWithoutMessage =>
    obtain rfl := pause_blocked (Option.some.inj hcall)
    exact .pause rfl
  | pauseIfVisible =>
    simp only [callWindow?] at hcall
    split at hcall
    · obtain rfl := pause_blocked (Option.some.inj hcall)
      exact .pause rfl
    · cases hcall
  | other method args hargs => cases (callWindow?_eq_none lib resumed hargs).symm.trans hcall
  | _ => cases hcall

theorem Library.waits_of_callProgram? {lib next : Library} {method : ProgramMethod}
    {args : List String} {resumed : Bool} {block : Block}
    (hcall : lib.callProgram? resumed method args = some (.blocked block, next)) :
    (Request.call (.program method) args).Waits block := by
  cases method, args using ProgramMethod.args_cases with
  | delay length =>
    simp only [callProgram?, delay, Option.some.injEq, Prod.mk.injEq] at hcall
    obtain ⟨houtcome, -⟩ := hcall
    split at houtcome
    · cases houtcome
    · cases houtcome
      exact .delay length _
  | other method args hargs => cases (callProgram?_eq_none lib resumed hargs).symm.trans hcall
  | _ => cases hcall

/-- A call that has to wait is one of those that can. -/
theorem Library.waits_of_call? {lib next : Library} {method : Method} {args : List String}
    {resumed : Bool} {block : Block}
    (hcall : lib.call? method args resumed = some (.blocked block, next)) :
    (Request.call method args).Waits block := by
  cases method with
  | window m => exact waits_of_callWindow? hcall
  | program m => exact waits_of_callProgram? hcall
  | math m | text m | array m | stack m | timer m =>
    obtain ⟨value, -, hvalue⟩ := exists_of_ready hcall
    cases hvalue

/-- What a request waits for is what calls can wait for. -/
theorem Request.WaitsFor.cases {r : Request} {block : Block} (hwaits : r.WaitsFor block) :
    r.Waits block := by
  obtain ⟨world, resumed, next, hperform⟩ := hwaits
  cases r with
  | call method args =>
    obtain ⟨library, hcall, -⟩ := World.perform_call_iff.1 hperform
    exact Library.waits_of_call? hcall
  | _ => cases hperform

/-- A repeated call of a pause comes to its end. -/
theorem World.perform_pause_resumed {world next : World} {method : WindowMethod} {message : String}
    {outcome : Outcome} (hmessage : method.pauseMessage? = some message)
    (hperform : world.perform true (.pause method) = .ok (outcome, next)) : outcome = .done := by
  rcases World.perform_pause hmessage hperform with ⟨-, -, houtcome, -⟩ | ⟨-, houtcome, -⟩
  · exact houtcome
  · exact houtcome

/-- What comes of a repeated call, now that what it has waited for is there: unless it reads a
number, it comes to its end. Where it reads a number and has to wait again, it has taken the whole
queue, in which there were lines but no number. -/
theorem Request.Waits.resumed {r : Request} {block : Block} (hwaits : r.Waits block)
    {world next : World} {now : Nat} {outcome : Outcome}
    (hresolved : world.library.isResolved now block = true)
    (hperform : world.perform true r = .ok (outcome, next)) :
    (r ≠ .readNumber → ∃ answer, outcome = .ready answer) ∧
      ∀ again, outcome = .blocked again →
        r = .readNumber ∧ world.queue ≠ [] ∧
          (∀ line ∈ world.queue, Number.ofText? line = none) ∧ next.queue = [] := by
  have hready : ∀ {answer}, outcome = .ready answer → ∀ again, outcome ≠ .blocked again := by
    rintro answer rfl again ⟨⟩
  cases hwaits with
  | readLine =>
    obtain ⟨library, hcall, rfl⟩ := World.perform_call_iff.1 hperform
    cases outcome with
    | ready answer => exact ⟨fun _ => ⟨answer, rfl⟩, nofun⟩
    | blocked again =>
      -- A line was there, or input was closed.
      obtain ⟨-, hpending, hclosed, -⟩ := Library.readLine_blocked (Option.some.inj hcall)
      simp [Library.isResolved, Console.isReady, hpending, hclosed] at hresolved
  | readNumber =>
    obtain ⟨library, hcall, rfl⟩ := World.perform_call_iff.1 hperform
    refine ⟨fun hother => absurd rfl hother, ?_⟩
    rintro again rfl
    obtain ⟨-, hskipped, hclosed, -, hrest⟩ :=
      Library.readNumber_blocked (Option.some.inj hcall)
    refine ⟨rfl, ?_, ?_, hrest⟩
    · simpa [World.queue, Library.isResolved, Console.isReady, hclosed] using hresolved
    · intro line hline
      rw [World.queue, hskipped] at hline
      exact Library.ofText?_of_mem_skipped hline
  | pause hmessage =>
    have houtcome := World.perform_pause_resumed hmessage hperform
    exact ⟨fun _ => ⟨_, houtcome⟩, fun again hagain => absurd hagain (hready houtcome again)⟩
  | delay length time =>
    obtain ⟨library, hcall, rfl⟩ := World.perform_call_iff.1 hperform
    have houtcome : outcome = .done := (congrArg Prod.fst (Option.some.inj hcall)).symm
    exact ⟨fun _ => ⟨_, houtcome⟩, fun again hagain => absurd hagain (hready houtcome again)⟩

/-- What comes of the turn of a thread that has waited in a call. -/
structure Turn.Repeats (turn : Turn) (program : Program) (r : Request) : Prop where
  /-- Only these calls wait. -/
  waits : ∃ block, r.Waits block
  /-- The turn starts with the same call, as a repeated one. -/
  again : ∃ outcome more, turn.attempts program = ⟨r, true, outcome⟩ :: more
  /-- Unless it reads a number, the call comes to its end. -/
  completes : r ≠ .readNumber →
    ∃ answer more, turn.attempts program = ⟨r, true, .ready answer⟩ :: more
  /-- Where it has to wait again, it has taken all lines of the queue, which was not empty and held
  no number. -/
  waitsAgain : ∀ block more, turn.attempts program = ⟨r, true, .blocked block⟩ :: more →
    r = .readNumber ∧ turn.world.queue ≠ [] ∧
      (∀ line ∈ turn.world.queue, Number.ofText? line = none) ∧
      (turn.step program).2.2.queue = []

theorem Request.Waits.fits {r : Request} {block : Block} (hwaits : r.Waits block) : r.Fits := by
  cases hwaits with
  | readLine | readNumber | delay => rfl
  | @pause method _ hmessage =>
    cases method with
    | pause | pauseWithoutMessage | pauseIfVisible => rfl
    | _ => cases hmessage

/-- A thread that is not parked any more repeats its call in its turn. -/
theorem Thread.Orderly.repeats {thread : Thread} (horderly : thread.Orderly) {block : Block}
    {rest : Suspension Flow} (hphase : thread.phase = .waiting block rest) {world : World}
    {now : Nat} (hparked : Machine.isParked world now thread = false) (program : Program) :
    Turn.Repeats ⟨thread, world⟩ program rest.request := by
  have hwaits : rest.request.Waits block := by
    simp only [Orderly, hphase] at horderly
    exact horderly.cases
  have hresolved : world.library.isResolved now block = true := by
    simpa [Machine.isParked, block?, hphase] using hparked
  obtain ⟨outcome, next, hperform⟩ := world.exists_perform true hwaits.fits
  obtain ⟨hcompletes, hagain⟩ := hwaits.resumed hresolved hperform
  have hattempts : Turn.attempts ⟨thread, world⟩ program = rest.attempts world := by
    simp only [Turn.attempts, unblock, hphase, Thread.attempts]
  have hstep : (Turn.step ⟨thread, world⟩ program).2.2 = (rest.resume world).2 := by
    simp only [Turn.step, unblock, hphase, Thread.step]
  simp only [Suspension.attempts, hperform] at hattempts
  simp only [Suspension.resume, hperform] at hstep
  cases outcome with
  | ready answer =>
    constructor
    case waits => exact ⟨block, hwaits⟩
    case again => exact ⟨_, _, hattempts⟩
    case completes => exact fun _ => ⟨_, _, hattempts⟩
    case waitsAgain =>
      intro _ _ hother
      cases hattempts.symm.trans hother
  | blocked other =>
    constructor
    case waits => exact ⟨block, hwaits⟩
    case again => exact ⟨_, _, hattempts⟩
    case completes =>
      intro hread
      obtain ⟨answer, hanswer⟩ := hcompletes hread
      cases hanswer
    case waitsAgain =>
      intro _ _ _
      obtain ⟨hread, hlines, hnone, hrest⟩ := hagain other rfl
      exact ⟨hread, hlines, hnone, hstep ▸ hrest⟩

/-! ## When a tick comes to a thread -/

namespace Machine

section Rounds

variable {program : Program} {now : Nat} {threads : List Thread} {world : World}
  {turns : List Turn} {after : Round} {thread : Thread}

/-- The world that a round has come to when it comes to a thread, unless it stops before. -/
def roundWorld? (program : Program) (now id : Nat) : List Thread → World → Option World
  | [], _ => none
  | thread :: rest, world =>
    if thread.id = id then some world
    else if isParked world now thread then roundWorld? program now id rest world
    else
      let (report, _, later) := Turn.step ⟨thread, world⟩ program
      match report with
      | .failed _ => none
      | _ => if later.library.ended then none else roundWorld? program now id rest later

/-- A round gives a thread a turn if it comes to it and it is not parked then. -/
theorem GoesRound.turnsOf_eq (hround : GoesRound program now threads world turns after)
    (hnodup : (threads.map (·.id)).Nodup) (hthread : thread ∈ threads) :
    turnsOf thread.id turns =
      match roundWorld? program now thread.id threads world with
      | some found => if isParked found now thread then [] else [⟨thread, found⟩]
      | none => [] := by
  induction hround with
  | nil => simp at hthread
  | @parked first rest world turns after hparked hrest ih =>
    obtain ⟨hnew, hnodup⟩ := nodup_ids_cons.1 hnodup
    rcases List.mem_cons.1 hthread with rfl | hthread
    · simp [roundWorld?, hparked, hrest.turnsOf_eq_nil hnew]
    · simp only [roundWorld?, ne_of_not_mem_ids hnew hthread, hparked, if_true, if_false]
      exact ih hnodup hthread
  | @fails first next world later fault rest hparked hstep =>
    obtain ⟨hnew, -⟩ := nodup_ids_cons.1 hnodup
    rcases List.mem_cons.1 hthread with rfl | hthread
    · simp [roundWorld?, hparked, turnsOf]
    · have hne := ne_of_not_mem_ids hnew hthread
      simp [roundWorld?, hne, hparked, hstep, turnsOf]
  | @ends first next world later report rest hparked hstep hreport hended =>
    obtain ⟨hnew, -⟩ := nodup_ids_cons.1 hnodup
    rcases List.mem_cons.1 hthread with rfl | hthread
    · simp [roundWorld?, hparked, turnsOf]
    · have hne := ne_of_not_mem_ids hnew hthread
      cases report with
      | failed fault => exact absurd rfl (hreport fault)
      | _ => simp [roundWorld?, hne, hparked, hstep, hended, turnsOf]
  | @turn first next rest world later report turns after hparked hstep hreport hended hrest ih =>
    obtain ⟨hnew, hnodup⟩ := nodup_ids_cons.1 hnodup
    rcases List.mem_cons.1 hthread with rfl | hthread
    · have hnone := hrest.turnsOf_eq_nil hnew
      simp only [turnsOf] at hnone
      simp [roundWorld?, hparked, turnsOf, hnone]
    · have hne := ne_of_not_mem_ids hnew hthread
      have hskip : turnsOf thread.id (⟨first, world⟩ :: turns) = turnsOf thread.id turns := by
        simp [turnsOf, hne]
      rw [hskip, ih hnodup hthread]
      cases report with
      | failed fault => exact absurd rfl (hreport fault)
      | _ => simp [roundWorld?, hne, hparked, hstep, hended]

/-- No parked thread has a turn. -/
theorem GoesRound.not_isParked (hround : GoesRound program now threads world turns after)
    {turn : Turn} (hturn : turn ∈ turns) : isParked turn.world now turn.thread = false := by
  induction hround with
  | nil => simp at hturn
  | parked _ _ ih => exact ih hturn
  | fails _ hparked | ends _ hparked =>
    obtain rfl := List.mem_singleton.1 hturn
    exact hparked
  | turn hparked _ _ _ _ ih =>
    rcases List.mem_cons.1 hturn with rfl | hturn
    · exact hparked
    · exact ih hturn

/-- A thread without a turn stays. -/
theorem GoesRound.mem_of_turnsOf (hround : GoesRound program now threads world turns after)
    (hthread : thread ∈ threads) (hnone : turnsOf thread.id turns = []) :
    thread ∈ after.threads := by
  induction hround with
  | nil => simp at hthread
  | parked _ _ ih =>
    rcases List.mem_cons.1 hthread with rfl | hthread
    · exact List.mem_cons_self
    · exact List.mem_cons_of_mem _ (ih hthread hnone)
  | fails | ends =>
    rcases List.mem_cons.1 hthread with rfl | hthread
    · simp [turnsOf] at hnone
    · exact List.mem_cons_of_mem _ hthread
  | @turn first _ _ _ _ _ _ _ _ _ _ _ _ ih =>
    rcases List.mem_cons.1 hthread with rfl | hthread
    · simp [turnsOf] at hnone
    · have hrest := turnsOf_eq_nil_iff.1 hnone
      refine List.mem_cons_of_mem _ (ih hthread (turnsOf_eq_nil_iff.2 fun turn hturn => ?_))
      exact hrest turn (List.mem_cons_of_mem _ hturn)

/-- A thread with a turn becomes what its step makes of it. -/
theorem GoesRound.mem_of_turn (hround : GoesRound program now threads world turns after)
    {turn : Turn} (hturn : turn ∈ turns) : (turn.step program).2.1 ∈ after.threads := by
  induction hround with
  | nil => simp at hturn
  | parked _ _ ih => exact List.mem_cons_of_mem _ (ih hturn)
  | fails _ _ hstep | ends _ _ hstep =>
    obtain rfl := List.mem_singleton.1 hturn
    rw [hstep]
    exact List.mem_cons_self
  | turn _ hstep _ _ _ ih =>
    rcases List.mem_cons.1 hturn with rfl | hturn
    · rw [hstep]
      exact List.mem_cons_self
    · exact List.mem_cons_of_mem _ (ih hturn)

end Rounds

/-- The world that a thread finds when a tick comes to it. A tick that stops before, at a fault or
at the end of the program, does not come to it. -/
def found? (machine : Machine) (now id : Nat) : Option World :=
  if machine.ended then none
  else
    let awake := (machine.awaken now).2
    roundWorld? awake.program now id awake.threads awake.world

variable {machine : Machine} {now : Nat} {thread : Thread}

/-- What a tick does, unless the program has ended: its threads make a round, and those that have
not finished stay, unless the program ends in it. -/
theorem exists_goesRound (machine : Machine) (now : Nat) (hended : machine.ended = false) :
    ∃ after, GoesRound machine.program now (machine.awaken now).2.threads
        (machine.awaken now).2.world (machine.turns now) after ∧
      (machine.tick now).2.world = after.world ∧
      ∀ thread ∈ after.threads, thread.isFinished = false →
        (machine.tick now).2.ended = false → thread ∈ (machine.tick now).2.threads := by
  refine ⟨_, goesRound_turns hended now, ?_⟩
  simp only [tick, hended, Bool.false_eq_true, if_false, machine.program_awaken now]
  split
  · exact ⟨rfl, fun thread hthread _ _ => hthread⟩
  · refine ⟨rfl, fun thread hthread hgoing hnext => ?_⟩
    dsimp only at hnext ⊢
    rw [hnext, if_neg Bool.false_ne_true]
    exact List.mem_filter.2 ⟨hthread, by simp [hgoing]⟩

theorem mem_awaken (hthread : thread ∈ machine.threads) (now : Nat) :
    thread ∈ (machine.awaken now).2.threads := by
  obtain ⟨world, hawaken | ⟨ip, hawaken⟩⟩ := machine.awaken_eq now
  · rw [hawaken]
    exact hthread
  · rw [hawaken]
    exact List.mem_append_left _ hthread

/-- A thread has a turn in a tick exactly if the tick comes to it and it is not parked then. -/
theorem Numbered.turnsOf_turns (hnumbered : machine.Numbered) (hthread : thread ∈ machine.threads)
    (now : Nat) :
    turnsOf thread.id (machine.turns now) =
      match machine.found? now thread.id with
      | some found => if isParked found now thread then [] else [⟨thread, found⟩]
      | none => [] := by
  cases hended : machine.ended with
  | true => simp [turns, found?, hended, turnsOf]
  | false =>
    obtain ⟨after, hround, -⟩ := machine.exists_goesRound now hended
    rw [hround.turnsOf_eq (hnumbered.awaken now).nodup (mem_awaken hthread now)]
    simp [found?, hended, machine.program_awaken]

/-! ## Threads without turns -/

/-- A program that has ended does nothing any more. -/
theorem turnHistory_of_ended (hended : machine.ended = true) (moves : List Move) :
    machine.turnHistory moves = [] ∧ (machine.after moves).ended = true := by
  induction moves generalizing machine with
  | nil => exact ⟨rfl, hended⟩
  | cons move moves ih =>
    cases move with
    | tick now =>
      have htick : (machine.apply (.tick now)).ended = true := by
        simp [Machine.apply, tick, hended]
      obtain ⟨hnone, hstays⟩ := ih htick
      exact ⟨by simpa [turnHistory, turns, hended] using hnone, hstays⟩
    | spawn | push | close => exact ih hended

/-- A thread without a turn in a move stays, as long as the program has not ended. -/
theorem mem_apply (hthread : thread ∈ machine.threads) (hgoing : thread.isFinished = false)
    {move : Move} (hnone : turnsOf thread.id (machine.turnHistory [move]) = [])
    (hended : (machine.apply move).ended = false) : thread ∈ (machine.apply move).threads := by
  cases move with
  | spawn ip => exact List.mem_append_left _ hthread
  | push | close => exact hthread
  | tick now =>
    simp only [turnHistory, List.append_nil] at hnone
    have hrunning : machine.ended = false := by
      rw [Bool.eq_false_iff]
      intro hbefore
      simp [Machine.apply, tick, hbefore] at hended
    obtain ⟨after, hround, -, hstays⟩ := machine.exists_goesRound now hrunning
    exact hstays thread (hround.mem_of_turnsOf (mem_awaken hthread now) hnone) hgoing hended

/-- A thread without turns stays, as long as the program has not ended. -/
theorem mem_after (hthread : thread ∈ machine.threads) (hgoing : thread.isFinished = false)
    {moves : List Move} (hnone : turnsOf thread.id (machine.turnHistory moves) = [])
    (hended : (machine.after moves).ended = false) : thread ∈ (machine.after moves).threads := by
  induction moves generalizing machine with
  | nil => exact hthread
  | cons move moves ih =>
    rw [turnHistory_cons, turnsOf_append, List.append_eq_nil_iff] at hnone
    have hmove : (machine.apply move).ended = false := by
      rw [Bool.eq_false_iff]
      intro hbefore
      cases hended.symm.trans (turnHistory_of_ended hbefore moves).2
    exact ih (mem_apply hthread hgoing hnone.1 hmove) hnone.2 hended

/-- In these moves, no tick that comes to the thread finds that its wait is over. -/
def Unresolved (machine : Machine) (id : Nat) (block : Block) : List Move → Prop
  | [] => True
  | .tick now :: moves =>
    (∀ found ∈ machine.found? now id, found.library.isResolved now block = false) ∧
      (machine.apply (.tick now)).Unresolved id block moves
  | move :: moves => (machine.apply move).Unresolved id block moves

theorem isParked_of_waiting {block : Block} {rest : Suspension Flow}
    (hphase : thread.phase = .waiting block rest) (world : World) (now : Nat) :
    isParked world now thread = !world.library.isResolved now block := by
  simp [isParked, Thread.block?, hphase]

theorem isFinished_of_waiting {block : Block} {rest : Suspension Flow}
    (hphase : thread.phase = .waiting block rest) : thread.isFinished = false := by
  simp [Thread.isFinished, hphase]

/-- A thread has no turns while no tick finds its wait over. -/
theorem Numbered.turnsOf_turnHistory (hnumbered : machine.Numbered)
    (hthread : thread ∈ machine.threads) {block : Block} {rest : Suspension Flow}
    (hphase : thread.phase = .waiting block rest) {moves : List Move}
    (hunresolved : machine.Unresolved thread.id block moves) :
    turnsOf thread.id (machine.turnHistory moves) = [] := by
  induction moves generalizing machine with
  | nil => rfl
  | cons move moves ih =>
    obtain ⟨hfirst, hrest⟩ : turnsOf thread.id (machine.turnHistory [move]) = [] ∧
        (machine.apply move).Unresolved thread.id block moves := by
      cases move with
      | spawn | push | close => exact ⟨rfl, hunresolved⟩
      | tick now =>
        obtain ⟨hfound, hrest⟩ := hunresolved
        refine ⟨?_, hrest⟩
        simp only [turnHistory, List.append_nil]
        rw [hnumbered.turnsOf_turns hthread now]
        cases hworld : machine.found? now thread.id with
        | none => rfl
        | some found =>
          have hparked := hfound found hworld
          simp [isParked_of_waiting hphase, hparked]
    rw [turnHistory_cons, turnsOf_append, hfirst, List.nil_append]
    cases hended : (machine.apply move).ended with
    | true => simp [(turnHistory_of_ended hended moves).1, turnsOf]
    | false =>
      have hstays := mem_apply hthread (isFinished_of_waiting hphase) hfirst hended
      exact ih (hnumbered.apply move) hstays hrest

theorem Numbered.after (hnumbered : machine.Numbered) (moves : List Move) :
    (machine.after moves).Numbered := by
  induction moves generalizing machine with
  | nil => exact hnumbered
  | cons move moves ih => exact ih (hnumbered.apply move)

/-- What becomes of a thread that waits for something. -/
structure Parks (machine : Machine) (thread : Thread) (block : Block) : Prop where
  /-- As long as no tick that comes to it finds its wait over, it has no turns, and stays exactly
  as it is until the program ends. -/
  stays : ∀ later, machine.Unresolved thread.id block later →
    turnsOf thread.id (machine.turnHistory later) = [] ∧
      ((machine.after later).ended = false → thread ∈ (machine.after later).threads)
  /-- The first tick that comes to it and finds its wait over gives it a turn. -/
  wakes : ∀ later now found, machine.Unresolved thread.id block later →
    (machine.after later).found? now thread.id = some found →
    found.library.isResolved now block = true →
    turnsOf thread.id ((machine.after later).turns now) = [⟨thread, found⟩]

theorem ended_of_found? {found : World} {id : Nat} (hfound : machine.found? now id = some found) :
    machine.ended = false := by
  rw [Bool.eq_false_iff]
  intro hended
  simp [found?, hended] at hfound

theorem Numbered.parks (hnumbered : machine.Numbered) (hthread : thread ∈ machine.threads)
    {block : Block} {rest : Suspension Flow} (hphase : thread.phase = .waiting block rest) :
    machine.Parks thread block := by
  have hgoing := isFinished_of_waiting hphase
  constructor
  case stays =>
    intro later hunresolved
    have hnone := hnumbered.turnsOf_turnHistory hthread hphase hunresolved
    exact ⟨hnone, mem_after hthread hgoing hnone⟩
  case wakes =>
    intro later now found hunresolved hfound hresolved
    have hnone := hnumbered.turnsOf_turnHistory hthread hphase hunresolved
    have hstays := mem_after hthread hgoing hnone (ended_of_found? hfound)
    rw [(hnumbered.after later).turnsOf_turns hstays now, hfound]
    simp [isParked_of_waiting hphase, hresolved]

end Machine

/-! ## Delays -/

theorem World.Makes.exists_of_mem {world last : World} {log : List Attempt}
    (hmakes : world.Makes log last) {attempt : Attempt} (hattempt : attempt ∈ log) :
    ∃ before after : World, world.library.SameTime before.library ∧
      before.perform attempt.resumed attempt.request = .ok (attempt.outcome, after) := by
  induction hmakes with
  | nil => simp at hattempt
  | cons hfirst _ ih =>
    rcases List.mem_cons.1 hattempt with rfl | hattempt
    · exact ⟨_, _, .refl _, hfirst⟩
    · obtain ⟨before, after, hsame, hperform⟩ := ih hattempt
      exact ⟨before, after, (sameTime_perform hfirst).trans hsame, hperform⟩

section Blocked

variable {α : Type} {r : Request} {resumed : Bool} {block : Block} {world : World}

/-- An attempt that has to wait is the last one of an action. -/
theorem Action.blocked_of_mem_attempts {action : Action α}
    (hattempt : ⟨r, resumed, .blocked block⟩ ∈ action.attempts world) :
    ∃ rest, (action.run world).1 = .blocked block rest := by
  induction action generalizing world with
  | done | fail => simp [Action.attempts] at hattempt
  | ask request next ih =>
    unfold Action.attempts at hattempt
    unfold Action.run
    cases hperform : world.perform false request with
    | error error => simp [hperform] at hattempt
    | ok result =>
      obtain ⟨outcome, after⟩ := result
      rw [hperform] at hattempt
      cases outcome with
      | ready answer =>
        rcases List.mem_cons.1 hattempt with hother | hattempt
        · cases hother
        · exact ih answer hattempt
      | blocked other =>
        cases List.mem_singleton.1 hattempt
        exact ⟨_, rfl⟩

theorem Suspension.blocked_of_mem_attempts {rest : Suspension α}
    (hattempt : ⟨r, resumed, .blocked block⟩ ∈ rest.attempts world) :
    ∃ left, (rest.resume world).1 = .blocked block left := by
  unfold Suspension.attempts at hattempt
  unfold Suspension.resume
  cases hperform : world.perform true rest.request with
  | error error => simp [hperform] at hattempt
  | ok result =>
    obtain ⟨outcome, after⟩ := result
    rw [hperform] at hattempt
    cases outcome with
    | ready answer =>
      rcases List.mem_cons.1 hattempt with hother | hattempt
      · cases hother
      · exact Action.blocked_of_mem_attempts hattempt
    | blocked other =>
      cases List.mem_singleton.1 hattempt
      exact ⟨_, rfl⟩

/-- A thread waits after a turn in which an attempt has to wait. -/
theorem Turn.waiting_of_mem_attempts {turn : Turn} {program : Program}
    (hattempt : ⟨r, resumed, .blocked block⟩ ∈ turn.attempts program) :
    ∃ rest, (turn.step program).2.1 = { turn.thread with phase := .waiting block rest } := by
  obtain ⟨thread, world⟩ := turn
  cases hphase : thread.phase with
  | finished => simp [Turn.attempts, Thread.unblock, hphase, Thread.attempts] at hattempt
  | waiting _ rest | woken rest =>
    simp only [Turn.attempts, Thread.unblock, hphase, Thread.attempts] at hattempt
    obtain ⟨left, hleft⟩ := Suspension.blocked_of_mem_attempts hattempt
    refine ⟨left, ?_⟩
    simp only [Turn.step, Thread.unblock, hphase, Thread.step, hleft, Thread.settle]
  | ready =>
    simp only [Turn.attempts, Thread.unblock, hphase, Thread.attempts] at hattempt
    cases hstatement : program.get? thread.ip with
    | none => simp [hstatement] at hattempt
    | some statement =>
      simp only [hstatement] at hattempt
      obtain ⟨left, hleft⟩ := Action.blocked_of_mem_attempts hattempt
      refine ⟨left, ?_⟩
      simp only [Turn.step, Thread.unblock, hphase, Thread.step, hstatement, hleft, Thread.settle]

end Blocked

/-- A new delay of more than no time waits until it has passed. -/
theorem World.perform_delay {world next : World} {length : String} {outcome : Outcome}
    (hpositive : (Number.zero false).lt (Number.ofText length) = true)
    (hperform : world.perform false (.delay length) = .ok (outcome, next)) :
    outcome = .blocked (.instant (world.library.now +
      world.library.timer.span ((Number.ofText length).toCount Library.maxDelay))) := by
  obtain ⟨library, hcall, -⟩ := World.perform_call_iff.1 hperform
  have hlong : (Number.ofText length).le (Number.zero false) = false := by
    unfold Number.lt Number.compareBy at hpositive
    unfold Number.le Number.compareBy
    split at hpositive
    · rename_i a b ha hb
      rw [ha, hb]
      simpa using hpositive
    · cases hpositive
  have hdelay := (congrArg Prod.fst (Option.some.inj hcall)).symm
  simpa [Library.delay, hlong] using hdelay

namespace Machine

variable {machine : Machine} {now : Nat}

/-- All turns of a round are had at its time, and it leaves the time as it is. -/
theorem GoesRound.sameTime {program : Program} {threads : List Thread} {world : World}
    {turns : List Turn} {after : Round} (hround : GoesRound program now threads world turns after) :
    world.library.SameTime after.world.library ∧
      ∀ turn ∈ turns, world.library.SameTime turn.world.library := by
  have hmakes {thread next : Thread} {world later : World} {report : Thread.Report}
      (hstep : Turn.step ⟨thread, world⟩ program = (report, next, later)) :
      world.library.SameTime later.library := by
    have hturn := Turn.makes_attempts ⟨thread, world⟩ program
    rw [hstep] at hturn
    exact hturn.sameTime
  induction hround with
  | nil => exact ⟨.refl _, by simp⟩
  | parked _ _ ih => exact ih
  | fails _ _ hstep | ends _ _ hstep =>
    exact ⟨hmakes hstep, List.forall_mem_singleton.2 (.refl _)⟩
  | turn _ hstep _ _ _ ih =>
    refine ⟨(hmakes hstep).trans ih.1, List.forall_mem_cons.2 ⟨.refl _, fun turn hturn => ?_⟩⟩
    exact (hmakes hstep).trans (ih.2 turn hturn)

theorem awaken_now_resolution (machine : Machine) (now : Nat) :
    (machine.awaken now).2.world.library.now = now ∧
      (machine.awaken now).2.world.library.timer.resolution =
        machine.world.library.timer.resolution := by
  have hpoll : (machine.world.library.timer.poll now).2.resolution =
      machine.world.library.timer.resolution := by
    unfold Timer.poll
    split
    · rfl
    · split <;> rfl
  unfold awaken
  dsimp only
  split <;> exact ⟨rfl, hpoll⟩

/-- The unit in which time is counted stays the same. -/
theorem resolution_after (machine : Machine) (moves : List Move) :
    (machine.after moves).world.library.timer.resolution =
      machine.world.library.timer.resolution := by
  induction moves generalizing machine with
  | nil => rfl
  | cons move moves ih =>
    refine (ih (machine.apply move)).trans ?_
    cases move with
    | tick now =>
      cases hended : machine.ended with
      | true => simp [apply, tick, hended]
      | false =>
        obtain ⟨after, hround, hworld, -⟩ := machine.exists_goesRound now hended
        rw [apply, hworld, hround.sameTime.1.resolution_eq, (machine.awaken_now_resolution now).2]
    | spawn | push | close => rfl

/-- A turn in which a thread delays itself, at an instant and for a span of time: the thread waits,
and has no turn before the time has passed. -/
structure Delays (machine : Machine) (now : Nat) (turn : Turn) (span : Nat) (outcome : Outcome) :
    Prop where
  waits : outcome = .blocked (.instant (now + span))
  parks : ∀ later instant,
    turnsOf turn.thread.id ((machine.tick now).2.turnHistory later) = [] → instant < now + span →
    turnsOf turn.thread.id (((machine.tick now).2.after later).turns instant) = []

theorem Numbered.delays (hnumbered : machine.Numbered) {turn : Turn}
    (hturn : turn ∈ machine.turns now) {length : String} {outcome : Outcome}
    (hattempt : ⟨.delay length, false, outcome⟩ ∈ turn.attempts machine.program)
    (hpositive : (Number.zero false).lt (Number.ofText length) = true) :
    machine.Delays now turn (machine.world.library.timer.span
      ((Number.ofText length).toCount Library.maxDelay)) outcome := by
  obtain ⟨after, hround, -, hstays⟩ := machine.exists_goesRound now (ended_of_mem_turns hturn)
  have hmakes := turn.makes_attempts machine.program
  obtain ⟨before, next, hbefore, hperform⟩ := hmakes.exists_of_mem hattempt
  have houtcome : outcome = _ := World.perform_delay hpositive hperform
  have htime := hround.sameTime.2 turn hturn
  obtain ⟨hawake, hunit⟩ := machine.awaken_now_resolution now
  rw [hbefore.now_eq, hbefore.span_eq, htime.now_eq, htime.span_eq, hawake, Timer.span, hunit,
    ← Timer.span] at houtcome
  subst houtcome
  refine ⟨rfl, fun later instant hnone hearly => ?_⟩
  obtain ⟨rest, hwaiting⟩ := Turn.waiting_of_mem_attempts hattempt
  -- The thread waits from here on, and is there until the program ends.
  generalize hlast : (turn.step machine.program).2.1 = last at hwaiting
  have hid : turn.thread.id = last.id := (congrArg Thread.id hwaiting).symm
  have hphase := congrArg Thread.phase hwaiting
  have hgoing := isFinished_of_waiting hphase
  cases hended : (machine.tick now).2.ended with
  | true => simp [turns, (turnHistory_of_ended hended later).2, turnsOf]
  | false =>
    have hmem := hstays last (hlast ▸ hround.mem_of_turn hturn) hgoing hended
    cases hlater : ((machine.tick now).2.after later).ended with
    | true => simp [turns, hlater, turnsOf]
    | false =>
      rw [hid] at hnone ⊢
      have hthere := mem_after hmem hgoing hnone hlater
      rw [((hnumbered.tick now).after later).turnsOf_turns hthere instant]
      split
      · simp [isParked_of_waiting hphase, Library.isResolved, Nat.not_le.2 hearly]
      · rfl

theorem Orderly.after (horderly : machine.Orderly) (moves : List Move) :
    (machine.after moves).Orderly := by
  induction moves generalizing machine with
  | nil => exact horderly
  | cons move moves ih => exact ih (horderly.apply move)

/-- In every run of every program, a thread that waits stays as it is until a tick that comes to it
finds its wait over, and has a turn in the first one that does. After a delay this is not before its
time has passed. In this turn the thread repeats the call in which it has waited, and the call comes
to its end, unless it reads a number and all lines that have come are none. -/
theorem parked_until_resolved (program : Program) (library : Library) (moves : List Move) :
    let machine := (Machine.start program library).after moves
    (∀ thread ∈ machine.threads, ∀ block rest, thread.phase = .waiting block rest →
        machine.Parks thread block) ∧
      ∀ now, ∀ turn ∈ machine.turns now,
        (∀ length outcome, ⟨.delay length, false, outcome⟩ ∈ turn.attempts program →
          (Number.zero false).lt (Number.ofText length) = true →
            machine.Delays now turn
              (library.timer.span ((Number.ofText length).toCount Library.maxDelay)) outcome) ∧
        ∀ block rest, turn.thread.phase = .waiting block rest →
          turn.Repeats program rest.request := by
  intro machine
  have hprogram : machine.program = program :=
    (program_after _ moves).trans (program_start program library)
  have hnumbered : machine.Numbered := (numbered_start program library).after moves
  have horderly : machine.Orderly := (orderly_start program library).after moves
  refine ⟨fun thread hthread block rest hphase => hnumbered.parks hthread hphase, ?_⟩
  intro now turn hturn
  obtain ⟨after, hround, -⟩ := machine.exists_goesRound now (ended_of_mem_turns hturn)
  constructor
  · intro length outcome hattempt hpositive
    have hdelays := hnumbered.delays hturn (hprogram ▸ hattempt) hpositive
    have hunit : machine.world.library.timer.resolution = library.timer.resolution := by
      rw [resolution_after, Machine.start]
      split <;> rfl
    rwa [Timer.span, hunit] at hdelays
  · intro block rest hphase
    have hthread := horderly.awaken now turn.thread (hround.thread_mem hturn)
    exact hthread.repeats hphase (hround.not_isParked hturn) program

/-- A thread that has delayed itself is passed over until its time has passed. -/
example : ((Program.parse "Program.Delay(5)").toOption.any fun program =>
    let machine := (Machine.start program {}).after [.tick 1, .tick 0, .tick 5]
    (machine.turns 5).isEmpty && (machine.turns 6).length == 1) = true := by
  decide +kernel

end Machine

end SmallBasic
