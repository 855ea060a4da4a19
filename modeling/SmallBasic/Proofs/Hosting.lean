import SmallBasic.Proofs.Intake

/-!
# Hosted machines

A machine keeps its console in its library. A hosted machine has it outside: all that it knows of
its console is how to write, to clear, to ask for a line and to take one, and even the question may
change it. What the library of a hosted machine has for a console is never looked at.

A view shows a host as a console. If it goes along with the four operations, then the machine that
is seen through it makes the ticks of a machine.

## Main definitions

* `Host` — a console that can be asked, of whatever kind.
* `HostedWorld.perform`, `HostedMachine.tick` — requests and ticks on such a console.
* `Host.Views` — a way to see a host as a console.

## Main statements

* `HostedWorld.seen_perform` — a request is answered as on the console that is seen.
* `HostedMachine.seen_tick` — a tick is a tick of the machine that is seen.
* `HostedMachine.seen_after` — and so are all ticks of a run.
-/

namespace SmallBasic

/-- A console as a program uses it. To ask whether a line is there may change it. It has only so
many lines to take until it is asked again. -/
class Host (κ : Type) where
  write : κ → String → κ
  clear : κ → κ
  available : κ → Bool × κ
  take : κ → Option String × κ
  backlog : κ → Nat
  backlog_available (host : κ) : backlog (available host).2 ≤ backlog host
  backlog_take {host : κ} : (take host).1 ≠ none → backlog (take host).2 < backlog host

/-- The world of a hosted machine. -/
structure HostedWorld (κ : Type) where
  world : World
  host : κ

variable {κ : Type} [Host κ]

/-! ## Requests -/

namespace HostedWorld

/-- Shows the window. -/
def reveal (hosted : HostedWorld κ) : HostedWorld κ :=
  { hosted with world := hosted.world.withLibrary hosted.world.library.reveal }

/-- Writes a text to the window. -/
def write (hosted : HostedWorld κ) (text : String) : HostedWorld κ :=
  { hosted.reveal with host := Host.write hosted.host text }

/-- Takes an input line. At the end of input the line is empty. -/
def readLine (hosted : HostedWorld κ) : Outcome × HostedWorld κ :=
  let hosted := hosted.reveal
  let (ready, host) := Host.available hosted.host
  if ready then
    let (line, host) := Host.take host
    (.ready (line.getD ""), { hosted with host })
  else (.blocked .input, { hosted with host })

/-- Takes input lines one by one, up to the first one that is a number. -/
def readNumberFrom (host : κ) : Outcome × κ :=
  let polled := (Host.available host).2
  if (Host.available host).1 then
    match _htake : Host.take polled with
    | (none, next) => (.ready "0", next)
    | (some line, next) =>
      match Number.ofText? line with
      | some number => (.ready number.toText, next)
      | none => readNumberFrom next
  else (.blocked .input, polled)
termination_by Host.backlog host
decreasing_by
  have hless : Host.backlog (Host.take polled).2 < Host.backlog polled :=
    Host.backlog_take (by simp [_htake])
  rw [_htake] at hless
  exact Nat.lt_of_lt_of_le hless (Host.backlog_available host)

/-- Takes input lines up to the first one that is a number. At the end of input the number is
zero. -/
def readNumber (hosted : HostedWorld κ) : Outcome × HostedWorld κ :=
  let (outcome, host) := readNumberFrom hosted.host
  (outcome, { hosted.reveal with host })

/-- Waits for a key press, which is any input line. The resumed call takes it. -/
def pause (hosted : HostedWorld κ) (message resumed : Bool) : Outcome × HostedWorld κ :=
  if resumed then (.done, { hosted with host := (Host.take hosted.host).2 })
  else (.blocked .signal, if message then hosted.write Library.pauseMessage else hosted.reveal)

/-- Methods of the text window. -/
def callWindow? (hosted : HostedWorld κ) (resumed : Bool) :
    WindowMethod → List String → Option (Outcome × HostedWorld κ)
  | .write, [text] => some (.done, hosted.write text)
  | .writeLine, [text] => some (.done, (hosted.write text).write "\n")
  | .read, [] => some hosted.readLine
  | .readNumber, [] => some hosted.readNumber
  | .pause, [] => some (hosted.pause true resumed)
  | .pauseWithoutMessage, [] => some (hosted.pause false resumed)
  | .pauseIfVisible, [] =>
    some (if hosted.world.library.window.visible then hosted.pause true resumed
      else (.done, hosted))
  | .clear, [] => some (.done, { hosted with host := Host.clear hosted.host })
  | .show, [] => some (.done, hosted.reveal)
  | .hide, [] =>
    let library := hosted.world.library
    some (.done, { hosted with
      world := hosted.world.withLibrary
        { library with window := { library.window with visible := false } } })
  | _, _ => none

/-- Answers a request. Only the methods of the text window use the console. -/
def perform (hosted : HostedWorld κ) (resumed : Bool) :
    Request → Except MemberError (Outcome × HostedWorld κ)
  | .call (.window method) args =>
    match hosted.callWindow? resumed method args with
    | some result => .ok result
    | none => .error (.wrongArity (Method.window method).object.name (Method.window method).name
        (Method.window method).arity args.length)
  | request =>
    (hosted.world.perform resumed request).map fun (outcome, world) =>
      (outcome, { hosted with world })

/-- Whether a thread waits for something that has not come. -/
def isParked (hosted : HostedWorld κ) (now : Nat) (thread : Thread) : Bool × HostedWorld κ :=
  match thread.block? with
  | some .input | some .signal =>
    let (ready, host) := Host.available hosted.host
    (!ready, { hosted with host })
  | some (.instant time) => (!decide (time ≤ now), hosted)
  | none => (false, hosted)

end HostedWorld

/-! ## Ticks -/

/-- Runs an action until it is done, fails, or has to wait. -/
def Action.runOn {α : Type} : Action α → HostedWorld κ → Progress α × HostedWorld κ
  | .done value, hosted => (.done value, hosted)
  | .fail fault, hosted => (.failed fault, hosted)
  | .ask request next, hosted =>
    match hosted.perform false request with
    | .error error => (.failed (.member error), hosted)
    | .ok (.ready answer, hosted) => (next answer).runOn hosted
    | .ok (.blocked block, hosted) => (.blocked block ⟨request, next⟩, hosted)

/-- Repeats the call that had to wait, and goes on. -/
def Suspension.resumeOn {α : Type} (rest : Suspension α) (hosted : HostedWorld κ) :
    Progress α × HostedWorld κ :=
  match hosted.perform true rest.request with
  | .error error => (.failed (.member error), hosted)
  | .ok (.ready answer, hosted) => (rest.next answer).runOn hosted
  | .ok (.blocked block, hosted) => (.blocked block rest, hosted)

/-- Runs up to the end of the current statement or the next wait. -/
def Thread.stepOn (thread : Thread) (program : Program) (hosted : HostedWorld κ) :
    Thread.Report × Thread × HostedWorld κ :=
  match thread.phase with
  | .finished => (.finished, thread, hosted)
  | .waiting block _ => (.blocked block, thread, hosted)
  | .woken rest =>
    let (progress, hosted) := rest.resumeOn hosted
    let (report, thread) := thread.settle program progress
    (report, thread, hosted)
  | .ready =>
    match program.get? thread.ip with
    | none => (.finished, thread.finish, hosted)
    | some statement =>
      let (progress, hosted) := (program.execute thread.ip statement).runOn hosted
      let (report, thread) := thread.settle program progress
      (report, thread, hosted)

/-- A machine with its console outside. -/
structure HostedMachine (κ : Type) where
  machine : Machine
  host : κ

namespace HostedMachine

/-- Gives each thread its turn. -/
def round (program : Program) (now : Nat) : List Thread → HostedWorld κ → Round × κ
  | [], hosted => ({ threads := [], world := hosted.world }, hosted.host)
  | thread :: rest, hosted =>
    let (parked, hosted) := hosted.isParked now thread
    if parked then
      let (after, host) := round program now rest hosted
      ({ after with threads := thread :: after.threads }, host)
    else
      let (report, thread, hosted) := thread.unblock.stepOn program hosted
      match report with
      | .failed fault =>
        ({ threads := thread :: rest, world := hosted.world, progressed := true,
           fault? := some fault }, hosted.host)
      | _ =>
        if hosted.world.library.ended then
          ({ threads := thread :: rest, world := hosted.world, progressed := true,
             ended := true }, hosted.host)
        else
          let (after, host) := round program now rest hosted
          ({ after with threads := thread :: after.threads, progressed := true }, host)

/-- One tick. -/
def tick (hosted : HostedMachine κ) (now : Nat) : Except Fault TickReport × HostedMachine κ :=
  if hosted.machine.ended then (.ok ⟨false, true⟩, hosted)
  else
    let (started, machine) := hosted.machine.awaken now
    let (after, host) := round machine.program now machine.threads ⟨machine.world, hosted.host⟩
    let machine := { machine with threads := after.threads, world := after.world }
    match after.fault? with
    | some fault => (.error fault, ⟨machine, host⟩)
    | none =>
      let machine := { machine with
        threads := if after.ended then [] else after.threads.filter (!·.isFinished)
        ended := after.ended }
      (.ok ⟨started || after.progressed, machine.isFinished⟩, ⟨machine, host⟩)

/-- A program before its first statement, on a console. -/
def start (program : Program) (library : Library) (host : κ) : HostedMachine κ :=
  ⟨Machine.start program library, host⟩

/-- The machine after ticks at some instants. -/
def after (hosted : HostedMachine κ) (instants : List Nat) : HostedMachine κ :=
  instants.foldl (fun hosted now => (hosted.tick now).2) hosted

end HostedMachine

/-! ## Views -/

/-- A view shows a host as a console that does the same. -/
structure Host.Views (view : κ → Console) : Prop where
  write (host : κ) (text : String) : view (Host.write host text) = (view host).write text
  clear (host : κ) : view (Host.clear host) = (view host).clear
  available (host : κ) : (Host.available host).1 = (view host).isReady
  asked (host : κ) : view (Host.available host).2 = view host
  line (host : κ) : (Host.take host).1 = (view host).take.1
  taken (host : κ) : view (Host.take host).2 = (view host).take.2

/-- The world with the console that is seen. -/
def HostedWorld.seen {κ : Type} (view : κ → Console) (hosted : HostedWorld κ) : World :=
  hosted.world.withLibrary (hosted.world.library.withConsole (view hosted.host))

/-- The machine with the console that is seen. -/
def HostedMachine.seen {κ : Type} (view : κ → Console) (hosted : HostedMachine κ) : Machine :=
  { hosted.machine with world := HostedWorld.seen view ⟨hosted.machine.world, hosted.host⟩ }

namespace Library

/-- A method outside the window neither looks at the console nor changes it. -/
theorem call?_withConsole (lib : Library) (console : Console) {method : Method}
    (hwindow : ∀ m, method ≠ .window m) (args : List String) (resumed : Bool) :
    (lib.withConsole console).call? method args resumed =
      (lib.call? method args resumed).map (Prod.map id (·.withConsole console)) := by
  by_cases hrandom : method = .math .getRandomNumber
  · subst hrandom
    simp only [call?]
    rw [lib.callMath?_map (withConsole · console) fun _ => rfl]
    cases lib.callMath? .getRandomNumber args <;> rfl
  · have hother := lib.call?_withInput console lib.dice hwindow hrandom args resumed
    have hsame := lib.call?_withInput lib.console lib.dice hwindow hrandom args resumed
    rw [show lib.withInput console lib.dice = lib.withConsole console from rfl] at hother
    rw [show lib.withInput lib.console lib.dice = lib from rfl] at hsame
    rw [hother]
    cases hcall : lib.call? method args resumed with
    | none => rfl
    | some result =>
      rw [hcall] at hsame
      have hdice : result.2.dice = lib.dice :=
        congrArg (·.2.dice) (Option.some.inj hsame)
      simp [withInput, withConsole, Prod.map, hdice]

end Library

namespace Console

/-- What the number that is read comes to, and what is left. -/
def readNumber (console : Console) : Outcome × Console :=
  let skipped := console.pending.takeWhile fun line => (Number.ofText? line).isNone
  let console := console.drop skipped.length
  if console.isReady then (.ready (Number.ofText (console.take.1.getD "0")).toText, console.take.2)
  else (.blocked .input, console)

theorem readNumber_of_nil {console : Console} (hpending : console.pending = []) :
    console.readNumber =
      if console.closed then (.ready "0", console) else (.blocked .input, console) := by
  simp [readNumber, hpending, drop, isReady, take, Library.toText_ofText_zero]

theorem exists_pending_of_take {console : Console} {line : String}
    (hline : console.take.1 = some line) : ∃ rest, console.pending = line :: rest := by
  rw [take_fst] at hline
  exact List.head?_eq_some_iff.1 hline

theorem readNumber_of_number {console : Console} {line : String} {number : Number}
    (hline : console.take.1 = some line) (hnumber : Number.ofText? line = some number) :
    console.readNumber = (.ready number.toText, console.take.2) := by
  obtain ⟨rest, hpending⟩ := exists_pending_of_take hline
  simp [readNumber, hpending, hnumber, drop, isReady, hline, Number.ofText]

theorem readNumber_of_text {console : Console} {line : String}
    (hline : console.take.1 = some line) (hnumber : Number.ofText? line = none) :
    console.readNumber = console.take.2.readNumber := by
  obtain ⟨rest, hpending⟩ := exists_pending_of_take hline
  simp [readNumber, pending_take, hpending, hnumber, drop]

end Console

theorem Library.readNumber_eq_map (lib : Library) :
    lib.readNumber = Prod.map id lib.reveal.withConsole lib.console.readNumber := by
  rw [readNumber_eq, Console.readNumber, apply_ite (Prod.map id lib.reveal.withConsole)]
  rfl

namespace HostedWorld

variable {view : κ → Console} (hviews : Host.Views view) (hosted : HostedWorld κ)

theorem callWindow?_eq_none (resumed : Bool) {method : WindowMethod} {args : List String}
    (hargs : args.length ≠ method.arity) : hosted.callWindow? resumed method args = none := by
  unfold callWindow?
  split <;> first | rfl | exact absurd rfl hargs

/-- A call outside the window is answered as if there were no host, and the same on any console. -/
theorem seen_perform_of_not_window (view : κ → Console) (resumed : Bool) {method : Method}
    (hwindow : ∀ m, method ≠ .window m) (args : List String) :
    (hosted.perform resumed (.call method args)).map (Prod.map id (seen view)) =
      (hosted.seen view).perform resumed (.call method args) := by
  have hcall := hosted.world.library.call?_withConsole (view hosted.host) hwindow args resumed
  have hperform : hosted.perform resumed (.call method args) =
      (hosted.world.perform resumed (.call method args)).map fun (outcome, world) =>
        (outcome, { hosted with world }) := by
    cases method with
    | window m => exact absurd rfl (hwindow m)
    | program | math | text | array | stack | timer => rfl
  rw [hperform]
  simp only [World.perform, Library.call, seen, World.withLibrary, hcall]
  cases hosted.world.library.call? method args resumed <;> rfl

include hviews

theorem seen_write (text : String) :
    (hosted.write text).seen view =
      (hosted.seen view).withLibrary ((hosted.seen view).library.write text) := by
  simp [write, seen, reveal, World.withLibrary, Library.withConsole, Library.write, Library.reveal,
    hviews.write]

theorem seen_readLine :
    Prod.map id (seen view) hosted.readLine =
      Prod.map id (hosted.seen view).withLibrary (hosted.seen view).library.readLine := by
  have hready : (hosted.seen view).library.console.isReady = (Host.available hosted.host).1 :=
    (hviews.available hosted.host).symm
  rw [Library.readLine_eq, hready]
  simp only [readLine, show hosted.reveal.host = hosted.host from rfl]
  split
  · simp [seen, hviews.line, hviews.taken, hviews.asked, Prod.map, Library.withConsole, reveal,
      World.withLibrary, Library.reveal]
  · simp [seen, hviews.asked, Prod.map, Library.withConsole, reveal, World.withLibrary,
      Library.reveal]

/-- The same loop on a console takes the lines that are no numbers all at once. -/
theorem seen_readNumberFrom (host : κ) :
    Prod.map id view (readNumberFrom host) = (view host).readNumber := by
  fun_induction readNumberFrom host with
  | case1 host polled hready next htake =>
    have hline := hviews.line polled
    have htaken := hviews.taken polled
    rw [htake, hviews.asked] at hline htaken
    rw [Console.take_fst, eq_comm, List.head?_eq_none_iff] at hline
    have hclosed : (view host).closed = true := by
      simpa [hviews.available, Console.isReady, hline] using hready
    simp_all [Console.readNumber_of_nil, Prod.map, Console.take]
  | case2 host polled hready line next htake number hnumber =>
    have hline := hviews.line polled
    have htaken := hviews.taken polled
    rw [htake, hviews.asked] at hline htaken
    rw [Console.readNumber_of_number hline.symm hnumber, ← htaken]
    rfl
  | case3 host polled hready line next htake hnone ih =>
    have hline := hviews.line polled
    have htaken := hviews.taken polled
    rw [htake, hviews.asked] at hline htaken
    rw [Console.readNumber_of_text hline.symm hnone, ← htaken]
    exact ih
  | case4 host polled hready =>
    have hnone : (view host).pending = [] ∧ (view host).closed = false := by
      simpa [hviews.available, Console.isReady] using hready
    rw [Console.readNumber_of_nil hnone.1, hnone.2, Prod.map, hviews.asked]
    rfl

theorem seen_readNumber :
    Prod.map id (seen view) hosted.readNumber =
      Prod.map id (hosted.seen view).withLibrary (hosted.seen view).library.readNumber := by
  have hconsole : (hosted.seen view).library.console = view hosted.host := rfl
  rw [Library.readNumber_eq_map, hconsole, ← seen_readNumberFrom hviews]
  rfl

theorem seen_pause (message resumed : Bool) :
    Prod.map id (seen view) (hosted.pause message resumed) =
      Prod.map id (hosted.seen view).withLibrary ((hosted.seen view).library.pause
        (if message then Library.pauseMessage else "") resumed) := by
  cases resumed with
  | true => simp [pause, Library.pause, seen, Library.withConsole, World.withLibrary, hviews.taken]
  | false =>
    cases message with
    | true => exact congrArg (Prod.mk _) (seen_write hviews hosted _)
    | false =>
      simp [pause, Library.pause, seen, reveal, Library.write, Library.reveal, Library.withConsole,
        World.withLibrary, Console.write]

/-- A method of the window comes to what it comes to on the console that is seen. -/
theorem seen_callWindow? (resumed : Bool) (method : WindowMethod) (args : List String) :
    (hosted.callWindow? resumed method args).map (Prod.map id (seen view)) =
      ((hosted.seen view).library.callWindow? resumed method args).map
        (Prod.map id (hosted.seen view).withLibrary) := by
  cases method, args using WindowMethod.args_cases with
  | write text => simp [callWindow?, Library.callWindow?, seen_write hviews]
  | writeLine text =>
    simp [callWindow?, Library.callWindow?, seen_write hviews, World.withLibrary]
  | read => simp [callWindow?, Library.callWindow?, ← seen_readLine hviews]
  | readNumber => simp [callWindow?, Library.callWindow?, ← seen_readNumber hviews]
  | pause | pauseWithoutMessage => simp [callWindow?, Library.callWindow?, seen_pause hviews]
  | pauseIfVisible =>
    have hvisible : (hosted.seen view).library.window.visible =
        hosted.world.library.window.visible := rfl
    simp only [callWindow?, Library.callWindow?, hvisible]
    split
    · simp [seen_pause hviews]
    · rfl
  | clear =>
    simp [callWindow?, Library.callWindow?, hviews.clear, seen, World.withLibrary,
      Library.withConsole]
  | «show» | hide => rfl
  | other method args hargs =>
    rw [hosted.callWindow?_eq_none resumed hargs, Library.callWindow?_eq_none _ resumed hargs]
    rfl

/-- A request is answered as on the console that is seen. -/
theorem seen_perform (resumed : Bool) (request : Request) :
    (hosted.perform resumed request).map (Prod.map id (seen view)) =
      (hosted.seen view).perform resumed request := by
  cases request with
  | call method args =>
    cases method with
    | window m =>
      have hcall := seen_callWindow? hviews hosted resumed m args
      simp only [perform, World.perform, Library.call, Library.call?]
      cases hhosted : hosted.callWindow? resumed m args with
      | none =>
        rw [hhosted, Option.map_none, eq_comm, Option.map_eq_none_iff] at hcall
        rw [hcall]
        rfl
      | some result =>
        rw [hhosted, Option.map_some, eq_comm, Option.map_eq_some_iff] at hcall
        obtain ⟨seen, hseen, hresult⟩ := hcall
        rw [hseen]
        exact congrArg Except.ok hresult.symm
    | program | math | text | array | stack | timer =>
      exact hosted.seen_perform_of_not_window view resumed (by simp) args
  | readField field | writeField field value => cases field <;> rfl
  | readVariable | writeVariable | bindEvent => rfl

theorem seen_isParked (now : Nat) (thread : Thread) :
    (hosted.isParked now thread).1 = Machine.isParked (hosted.seen view) now thread ∧
      (hosted.isParked now thread).2.seen view = hosted.seen view := by
  unfold isParked Machine.isParked
  cases thread.block? with
  | none => exact ⟨rfl, rfl⟩
  | some block =>
    cases block with
    | input | signal =>
      simp [hviews.available, seen, hviews.asked, Library.isResolved, World.withLibrary,
        Library.withConsole]
    | instant time => exact ⟨rfl, rfl⟩

end HostedWorld

/-! ## Ticks that are seen -/

section Seen

variable {view : κ → Console} (hviews : Host.Views view)

include hviews

theorem Action.seen_runOn {α : Type} (action : Action α) (hosted : HostedWorld κ) :
    Prod.map id (HostedWorld.seen view) (action.runOn hosted) = action.run (hosted.seen view) := by
  induction action generalizing hosted with
  | done | fail => rfl
  | ask request next ih =>
    unfold runOn run
    rw [← HostedWorld.seen_perform hviews]
    cases hosted.perform false request with
    | error error => rfl
    | ok result =>
      obtain ⟨outcome, later⟩ := result
      cases outcome with
      | ready answer => exact ih answer later
      | blocked block => rfl

theorem Suspension.seen_resumeOn {α : Type} (rest : Suspension α) (hosted : HostedWorld κ) :
    Prod.map id (HostedWorld.seen view) (rest.resumeOn hosted) =
      rest.resume (hosted.seen view) := by
  unfold resumeOn resume
  rw [← HostedWorld.seen_perform hviews]
  cases hosted.perform true rest.request with
  | error error => rfl
  | ok result =>
    obtain ⟨outcome, later⟩ := result
    cases outcome with
    | ready answer => exact (rest.next answer).seen_runOn hviews later
    | blocked block => rfl

theorem HostedWorld.seen_stepOn (hosted : HostedWorld κ) (program : Program) (thread : Thread) :
    Prod.map id (Prod.map id (HostedWorld.seen view)) (thread.stepOn program hosted) =
      thread.step program (hosted.seen view) := by
  unfold Thread.stepOn Thread.step
  cases thread.phase with
  | finished | waiting => rfl
  | woken rest =>
    simp only [← rest.seen_resumeOn hviews]
    rfl
  | ready =>
    cases program.get? thread.ip with
    | none => rfl
    | some statement =>
      simp only [← (program.execute thread.ip statement).seen_runOn hviews]
      rfl

end Seen

namespace HostedMachine

variable {view : κ → Console}

/-- A round with the console that is seen. -/
def seenRound {κ : Type} (view : κ → Console) (after : Round × κ) : Round :=
  { after.1 with world := HostedWorld.seen view ⟨after.1.world, after.2⟩ }

variable (hviews : Host.Views view)

include hviews

theorem seen_round (program : Program) (now : Nat) (threads : List Thread)
    (hosted : HostedWorld κ) :
    seenRound view (round program now threads hosted) =
      Machine.round program now threads (hosted.seen view) := by
  induction threads generalizing hosted with
  | nil => rfl
  | cons thread rest ih =>
    obtain ⟨hparked, hsame⟩ := hosted.seen_isParked hviews now thread
    unfold round Machine.round
    rw [← hparked, ← hsame]
    generalize hosted.isParked now thread = asked
    obtain ⟨parked, hosted⟩ := asked
    dsimp only
    split
    · rw [← ih hosted]
      rfl
    · rw [← hosted.seen_stepOn hviews]
      generalize thread.unblock.stepOn program hosted = stepped
      obtain ⟨report, next, later⟩ := stepped
      cases report with
      | failed fault => rfl
      | ran | blocked | finished =>
        simp only [Prod.map, ← ih later]
        change seenRound view (if later.world.library.ended = true then _ else _) =
          if later.world.library.ended = true then _ else _
        split <;> rfl

omit [Host κ] hviews in
theorem seen_awaken (hosted : HostedMachine κ) (now : Nat) :
    (hosted.seen view).awaken now =
      ((hosted.machine.awaken now).1, seen view ⟨(hosted.machine.awaken now).2, hosted.host⟩) := by
  simp only [Machine.awaken, Library.due, Library.setNow, seen, HostedWorld.seen,
    World.withLibrary, Library.withConsole]
  cases (hosted.machine.world.library.timer.poll now).1 <;> rfl

/-- A tick is a tick of the machine that is seen. -/
theorem seen_tick (hosted : HostedMachine κ) (now : Nat) :
    Prod.map id (seen view) (hosted.tick now) = (hosted.seen view).tick now := by
  unfold tick Machine.tick
  rw [show (hosted.seen view).ended = hosted.machine.ended from rfl]
  split
  · rfl
  · simp only [seen_awaken]
    generalize hosted.machine.awaken now = awake
    obtain ⟨started, machine⟩ := awake
    have hround : _ = Machine.round (seen view ⟨machine, hosted.host⟩).program now
        (seen view ⟨machine, hosted.host⟩).threads (seen view ⟨machine, hosted.host⟩).world :=
      seen_round hviews machine.program now machine.threads ⟨machine.world, hosted.host⟩
    simp only [← hround]
    generalize round machine.program now machine.threads ⟨machine.world, hosted.host⟩ = after
    obtain ⟨after, host⟩ := after
    simp only [seenRound]
    cases after.fault? <;> rfl

/-- The ticks of a run are the ticks of the machine that is seen. -/
theorem seen_after (hosted : HostedMachine κ) (instants : List Nat) :
    (hosted.after instants).seen view = (hosted.seen view).after (instants.map .tick) := by
  induction instants generalizing hosted with
  | nil => rfl
  | cons now instants ih =>
    have htick := congrArg Prod.snd (seen_tick hviews hosted now)
    exact (ih (hosted.tick now).2).trans (congrArg (Machine.after · _) htick)

end HostedMachine

end SmallBasic
