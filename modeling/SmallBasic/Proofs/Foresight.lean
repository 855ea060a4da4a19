import SmallBasic.Proofs.Pauses
import SmallBasic.Proofs.Steady

/-!
# Input that is still to come

A run finds only those lines in the queue that have arrived. With foresight it finds those as well
that are still to come, and the end of input after them. The two differ in one thing: where a run
has to wait for a line, foresight has it. So what a thread does with the lines as they come is what
it would do with foresight, cut where it has to wait.

## Main definitions

* `World.foresee` — the world with all lines that are still to come.
* `World.Awaits` — with foresight, the world is that of a scene.
* `World.skip` — what a call has done that waits for a line.

## Main statements

* `World.perform_foresee` — requests that do not wait for a line do the same with foresight.
* `World.Awaits.perform_input` — one that waits for a line has an answer with foresight.
* `Action.Sound.awaits`, `Suspension.Resumable.awaits` — the lines as they come bring a statement
  towards the verdict that it has with foresight.
-/

namespace SmallBasic

namespace Console

variable {console : Console} {coming : List String}

/-- The console with the lines that are still to come, after which input is closed. -/
def foresee (console : Console) (coming : List String) : Console :=
  { console with pending := console.pending ++ coming, closed := true }

theorem isReady_foresee (console : Console) (coming : List String) :
    (console.foresee coming).isReady = true := Library.isReady_of_closed rfl

theorem clear_foresee (console : Console) (coming : List String) :
    (console.foresee coming).clear = console.clear.foresee coming := by
  simp only [clear, foresee]
  split
  · rfl
  · split <;> rfl

/-- The next line is the same with foresight, if there is one or none will come. -/
theorem take_foresee (hcoming : console.pending = [] → coming = []) :
    (console.foresee coming).take = (console.take.1, console.take.2.foresee coming) := by
  cases hlines : console.pending with
  | nil =>
    rw [hcoming hlines]
    simp only [take, foresee, hlines, List.append_nil]
  | cons line rest =>
    simp only [take, foresee, hlines, List.cons_append]
    split <;> rfl

theorem drop_foresee {count : Nat} (hcount : count ≤ console.pending.length) :
    (console.foresee coming).drop count = (console.drop count).foresee coming := by
  induction count generalizing console with
  | zero => rfl
  | succ count ih =>
    have hpending : console.pending ≠ [] := by
      intro hnil
      simp [hnil] at hcount
    rw [drop, take_foresee fun hnil => absurd hnil hpending, drop, ih]
    rw [pending_take, List.length_tail]
    omega

theorem drop_add (console : Console) (count more : Nat) :
    console.drop (count + more) = (console.drop count).drop more := by
  induction count generalizing console with
  | zero => rw [Nat.zero_add, drop]
  | succ count ih => rw [Nat.succ_add, drop, ih, drop]

/-- Nothing comes after the end of input. -/
def Expects (console : Console) (coming : List String) : Prop :=
  console.closed = true → coming = []

theorem Expects.eq_nil (hexpects : console.Expects coming) (hready : console.isReady = true)
    (hpending : console.pending = []) : coming = [] := by
  rcases (isReady_iff console).1 hready with hsome | hclosed
  · exact absurd hpending hsome
  · exact hexpects hclosed

end Console

/-! ## Methods -/

namespace Library

variable {lib next : Library} {coming : List String} {resumed : Bool} {outcome : Outcome}
  {args : List String}

/-- The library with the lines that are still to come, and with new dice, which nobody rolls. -/
def foresee (lib : Library) (coming : List String) : Library :=
  lib.withInput (lib.console.foresee coming) {}

theorem readLine_foresee (hready : lib.console.isReady = true)
    (hexpects : lib.console.Expects coming) :
    (lib.foresee coming).readLine = (lib.readLine.1, lib.readLine.2.foresee coming) := by
  have hforeseen : (lib.foresee coming).console.isReady = true := lib.console.isReady_foresee coming
  rw [readLine_eq, readLine_eq, if_pos hready, if_pos hforeseen]
  rw [show (lib.foresee coming).console = lib.console.foresee coming from rfl,
    Console.take_foresee (hexpects.eq_nil hready)]
  rfl

/-- No more is skipped with foresight, if there is a number or nothing will come. -/
theorem skipped_foresee
    (hcoming : (lib.console.drop lib.skipped.length).pending = [] → coming = []) :
    (lib.foresee coming).skipped = lib.skipped := by
  obtain ⟨rest, hsplit, hdrop, hnumber⟩ := lib.exists_drop_skipped
  rw [hdrop] at hcoming
  change (lib.console.pending ++ coming).takeWhile _ = lib.skipped
  cases rest with
  | nil =>
    rw [hcoming rfl, List.append_nil]
    rfl
  | cons line rest =>
    have hline : (Number.ofText? line).isNone = false := by simpa using hnumber line rfl
    have hall : ∀ text ∈ lib.skipped, (Number.ofText? text).isNone = true := by
      intro text htext
      rw [ofText?_of_mem_skipped htext]
      rfl
    rw [hsplit, List.append_assoc, List.takeWhile_append_of_pos hall, List.cons_append,
      List.takeWhile_cons_of_neg (by simp [hline]), List.append_nil]

theorem readNumber_foresee (hready : (lib.console.drop lib.skipped.length).isReady = true)
    (hexpects : lib.console.Expects coming) :
    (lib.foresee coming).readNumber = (lib.readNumber.1, lib.readNumber.2.foresee coming) := by
  have hrest : (lib.console.drop lib.skipped.length).Expects coming :=
    fun hclosed => hexpects ((closed_drop _ _).symm.trans hclosed)
  have hcount : lib.skipped.length ≤ lib.console.pending.length :=
    (List.takeWhile_prefix _).length_le
  have hconsole : (lib.foresee coming).console.drop (lib.foresee coming).skipped.length =
      (lib.console.drop lib.skipped.length).foresee coming := by
    rw [skipped_foresee (hrest.eq_nil hready)]
    exact Console.drop_foresee hcount
  rw [readNumber_eq, readNumber_eq]
  dsimp only
  rw [hconsole, if_pos hready, if_pos (Console.isReady_foresee _ _),
    Console.take_foresee (hrest.eq_nil hready)]
  rfl

theorem pause_foresee {message : String} (hready : resumed = true → lib.console.isReady = true)
    (hexpects : lib.console.Expects coming) :
    (lib.foresee coming).pause message resumed =
      ((lib.pause message resumed).1, (lib.pause message resumed).2.foresee coming) := by
  cases resumed with
  | false => rfl
  | true =>
    simp only [pause, if_true]
    rw [show (lib.foresee coming).console = lib.console.foresee coming from rfl,
      Console.take_foresee (hexpects.eq_nil (hready rfl))]
    rfl

/-- A method of the window that does not wait for a line does the same with foresight. A pause that
goes on finds a line. -/
theorem callWindow?_foresee {method : WindowMethod} (hexpects : lib.console.Expects coming)
    (hresumed : resumed = true → method.pauseMessage?.isSome = true → lib.console.isReady = true)
    (hinput : outcome ≠ .blocked .input)
    (hcall : lib.callWindow? resumed method args = some (outcome, next)) :
    (lib.foresee coming).callWindow? resumed method args = some (outcome, next.foresee coming) := by
  cases method, args using WindowMethod.args_cases with
  | read =>
    have hread : lib.readLine = (outcome, next) := Option.some.inj hcall
    have hready : lib.console.isReady = true := by
      by_contra hwaits
      rw [readLine_eq, if_neg hwaits] at hread
      exact hinput (Prod.mk.inj hread).1.symm
    simp only [callWindow?, readLine_foresee hready hexpects, hread]
  | readNumber =>
    have hread : lib.readNumber = (outcome, next) := Option.some.inj hcall
    have hready : (lib.console.drop lib.skipped.length).isReady = true := by
      by_contra hwaits
      rw [readNumber_eq] at hread
      dsimp only at hread
      rw [if_neg hwaits] at hread
      exact hinput (Prod.mk.inj hread).1.symm
    simp only [callWindow?, readNumber_foresee hready hexpects, hread]
  | pause | pauseWithoutMessage =>
    have hpause : lib.pause _ resumed = (outcome, next) := Option.some.inj hcall
    simp only [callWindow?, pause_foresee (fun h => hresumed h rfl) hexpects, hpause]
  | pauseIfVisible =>
    simp only [callWindow?, show (lib.foresee coming).window = lib.window from rfl] at hcall ⊢
    split at hcall
    case isTrue hvisible =>
      have hpause := Option.some.inj hcall
      simp only [hvisible, if_true, pause_foresee (fun h => hresumed h rfl) hexpects, hpause]
    case isFalse hhidden =>
      cases hcall
      simp only [hhidden, Bool.false_eq_true, if_false]
  | clear =>
    cases hcall
    simp only [callWindow?, foresee, withInput, Console.clear_foresee]
  | other method args hargs => cases (callWindow?_eq_none lib resumed hargs).symm.trans hcall
  | _ =>
    cases hcall
    rfl

/-- A call that neither waits for a line nor rolls the dice does the same with foresight. -/
theorem call?_foresee {method : Method} (hexpects : lib.console.Expects coming)
    (hrandom : method ≠ .math .getRandomNumber)
    (hresumed : resumed = true → ∀ m, method = .window m → m.pauseMessage?.isSome = true →
      lib.console.isReady = true)
    (hinput : outcome ≠ .blocked .input)
    (hcall : lib.call? method args resumed = some (outcome, next)) :
    (lib.foresee coming).call? method args resumed = some (outcome, next.foresee coming) := by
  cases method with
  | window m => exact callWindow?_foresee hexpects (fun h => hresumed h m rfl) hinput hcall
  | program | math | text | array | stack | timer =>
    rw [foresee, call?_withInput _ _ _ (by simp) hrandom, hcall, foresee,
      (changesOwn_call? hcall).console_eq (by simp)]
    rfl

/-- What a call has done that waits for a line: so many lines are skipped. -/
def skip (lib : Library) (count : Nat) : Library :=
  lib.reveal.withConsole (lib.console.drop count)

theorem readNumber_skip {count : Nat} (hcount : count ≤ lib.console.pending.length)
    (hskips : ∀ text ∈ lib.console.pending.take count, Number.ofText? text = none) :
    (lib.skip count).readNumber = lib.readNumber := by
  have hall : ∀ text ∈ lib.console.pending.take count, (Number.ofText? text).isNone = true := by
    intro text htext
    rw [hskips text htext]
    rfl
  have hskipped : lib.skipped = lib.console.pending.take count ++ (lib.skip count).skipped := by
    have hrest : (lib.skip count).console.pending = lib.console.pending.drop count :=
      Console.pending_drop _ _
    rw [skipped, skipped, hrest, ← List.takeWhile_append_of_pos hall, List.take_append_drop]
  have hconsole : lib.console.drop lib.skipped.length =
      (lib.skip count).console.drop (lib.skip count).skipped.length := by
    rw [hskipped, List.length_append, List.length_take, Nat.min_eq_left hcount, Console.drop_add]
    rfl
  rw [readNumber_eq, readNumber_eq, hconsole]
  rfl

theorem exists_readLine (hclosed : lib.console.closed = true) :
    ∃ answer after, lib.readLine = (.ready answer, after) := by
  rw [readLine_eq, if_pos (isReady_of_closed hclosed)]
  exact ⟨_, _, rfl⟩

theorem exists_readNumber (hclosed : lib.console.closed = true) :
    ∃ answer after, lib.readNumber = (.ready answer, after) := by
  rw [readNumber_eq]
  dsimp only
  rw [if_pos (isReady_of_closed ((closed_drop _ _).trans hclosed))]
  exact ⟨_, _, rfl⟩

theorem callProgram?_ne_input {method : ProgramMethod} :
    lib.callProgram? resumed method args ≠ some (.blocked .input, next) := by
  intro hcall
  cases method, args using ProgramMethod.args_cases with
  | delay length =>
    simp only [callProgram?, delay, Option.some.injEq, Prod.mk.injEq] at hcall
    obtain ⟨hblock, -⟩ := hcall
    split at hblock <;> cases hblock
  | other method args hargs => cases (callProgram?_eq_none lib resumed hargs).symm.trans hcall
  | _ => cases hcall

theorem callWindow?_input {method : WindowMethod}
    (hcall : lib.callWindow? resumed method args = some (.blocked .input, next)) :
    next = lib.skip lib.console.pending.length ∧ lib.console.closed = false ∧
      ∀ other : Library, lib.console.pending <+: other.console.pending →
        other.console.closed = true → ∃ answer after,
          other.callWindow? resumed method args = some (.ready answer, after) ∧
          (other.skip lib.console.pending.length).callWindow? true method args =
            some (.ready answer, after) := by
  cases method, args using WindowMethod.args_cases with
  | read =>
    obtain ⟨-, hpending, hopen, rfl⟩ := readLine_blocked (Option.some.inj hcall)
    rw [hpending]
    refine ⟨rfl, hopen, fun other _ hclosed => ?_⟩
    obtain ⟨answer, after, hread⟩ := exists_readLine hclosed
    exact ⟨answer, after, congrArg some hread, congrArg some hread⟩
  | readNumber =>
    obtain ⟨-, hpending, hopen, rfl, -⟩ := readNumber_blocked (Option.some.inj hcall)
    refine ⟨by rw [skip, hpending], hopen, fun other hmore hclosed => ?_⟩
    obtain ⟨answer, after, hread⟩ := exists_readNumber hclosed
    have hskip : (other.skip lib.console.pending.length).readNumber = other.readNumber := by
      refine readNumber_skip hmore.length_le fun text htext => ?_
      rw [← List.prefix_iff_eq_take.1 hmore, hpending] at htext
      exact ofText?_of_mem_skipped htext
    exact ⟨answer, after, congrArg some hread, congrArg some (hskip.trans hread)⟩
  | pause | pauseWithoutMessage => cases resumed <;> cases hcall
  | pauseIfVisible =>
    simp only [callWindow?] at hcall
    split at hcall
    · cases resumed <;> cases hcall
    · cases hcall
  | other method args hargs => cases (callWindow?_eq_none lib resumed hargs).symm.trans hcall
  | _ => cases hcall

/-- A call that waits for a line has skipped all there are. Where more lines follow these, and
input is closed, the call has an answer, and the same one after these are skipped. -/
theorem call?_input {method : Method}
    (hcall : lib.call? method args resumed = some (.blocked .input, next)) :
    next = lib.skip lib.console.pending.length ∧ lib.console.closed = false ∧
      ∀ other : Library, lib.console.pending <+: other.console.pending →
        other.console.closed = true → ∃ answer after,
          other.call? method args resumed = some (.ready answer, after) ∧
          (other.skip lib.console.pending.length).call? method args true =
            some (.ready answer, after) := by
  cases method with
  | math | text | array | stack | timer =>
    obtain ⟨value, -, hready⟩ := exists_of_ready hcall
    cases hready
  | program m => exact absurd hcall callProgram?_ne_input
  | window m => exact callWindow?_input hcall

end Library

/-! ## Worlds -/

/-- The request is a call that pauses. -/
def Request.isPause : Request → Bool
  | .call (.window method) _ => method.pauseMessage?.isSome
  | _ => false

namespace World

variable {world after : World} {coming : List String} {resumed : Bool} {r : Request}
  {outcome : Outcome} {scene : Scene}

/-- The world with the lines that are still to come. -/
def foresee (world : World) (coming : List String) : World :=
  world.withLibrary (world.library.foresee coming)

/-- Steady requests that do not wait for a line do the same with foresight. -/
theorem perform_foresee (hexpects : world.library.console.Expects coming)
    (hsteady : r.isSteady = true)
    (hresumed : resumed = true → r.isPause = true → world.library.console.isReady = true)
    (hinput : outcome ≠ .blocked .input)
    (hperform : world.perform resumed r = .ok (outcome, after)) :
    (world.foresee coming).perform resumed r = .ok (outcome, after.foresee coming) := by
  cases r with
  | readVariable | writeVariable =>
    cases hperform
    rfl
  | readField field | writeField field =>
    cases hperform
    cases field <;> rfl
  | bindEvent => cases hsteady
  | call method args =>
    obtain ⟨library, hcall, rfl⟩ := perform_call_iff.1 hperform
    have hrandom : method ≠ .math .getRandomNumber := by
      rintro rfl
      cases hsteady
    refine perform_call_iff.2 ⟨library.foresee coming, ?_, rfl⟩
    refine Library.call?_foresee hexpects hrandom ?_ hinput hcall
    rintro hagain m rfl hpause
    exact hresumed hagain hpause

/-- The world after a call that waits for a line, and has skipped so many. -/
def skip (world : World) (count : Nat) : World := world.withLibrary (world.library.skip count)

/-- A request that waits for a line has skipped all there are. Where more lines follow these, and
input is closed, it has an answer, and the same one after these are skipped. -/
theorem perform_input (hperform : world.perform resumed r = .ok (.blocked .input, after)) :
    after = world.skip world.queue.length ∧ world.library.console.closed = false ∧
      ∀ other : World, world.queue <+: other.queue → other.library.console.closed = true →
        ∃ answer next, other.perform resumed r = .ok (.ready answer, next) ∧
          (other.skip world.queue.length).perform true r = .ok (.ready answer, next) := by
  cases r with
  | readVariable | writeVariable | readField | writeField | bindEvent => cases hperform
  | call method args =>
    obtain ⟨library, hcall, rfl⟩ := perform_call_iff.1 hperform
    obtain ⟨rfl, hopen, hother⟩ := Library.call?_input hcall
    refine ⟨rfl, hopen, fun other hmore hclosed => ?_⟩
    obtain ⟨answer, next, hanswer, hagain⟩ := hother other.library hmore hclosed
    exact ⟨answer, other.withLibrary next, perform_call_iff.2 ⟨next, hanswer, rfl⟩,
      perform_call_iff.2 ⟨next, hagain, rfl⟩⟩

theorem closed_skip (world : World) (count : Nat) :
    (world.skip count).library.console.closed = world.library.console.closed :=
  Library.closed_drop _ _

theorem Alike.skip {other : World} (halike : world.Alike other) (count : Nat) :
    (world.skip count).Alike (other.skip count) :=
  congrArg (fun world : World => world.skip count) halike

/-- With foresight, the lines that are there are skipped in the same way. -/
theorem foresee_skip (world : World) (coming : List String) :
    (world.skip world.queue.length).foresee coming =
      (world.foresee coming).skip world.queue.length := by
  have hdrop : (world.library.console.foresee coming).drop world.queue.length =
      (world.library.console.drop world.queue.length).foresee coming :=
    Console.drop_foresee (Nat.le_refl _)
  exact congrArg (fun console => world.withLibrary (world.library.reveal.withInput console {}))
    hdrop.symm

/-- With the lines that are still to come, the world is that of the scene. The dice do not matter,
and nothing comes after the end of input. -/
structure Awaits (world : World) (coming : List String) (scene : Scene) : Prop where
  plays : (world.foresee coming).Plays scene
  expects : world.library.console.Expects coming

namespace Awaits

theorem ended_eq (hawaits : world.Awaits coming scene) :
    world.library.ended = scene.world.library.ended := hawaits.plays.ended_eq

theorem console_eq (hawaits : world.Awaits coming scene) :
    scene.world.library.console = world.library.console.foresee coming :=
  hawaits.plays.alike.console_eq.symm

theorem store_eq (hawaits : world.Awaits coming scene) : world.store = scene.world.store :=
  hawaits.plays.alike.store_eq

theorem output_eq (hawaits : world.Awaits coming scene) :
    world.library.console.output = scene.world.library.console.output :=
  (congrArg Console.output hawaits.console_eq).symm

theorem clears_eq (hawaits : world.Awaits coming scene) :
    world.library.console.clears = scene.world.library.console.clears :=
  (congrArg Console.clears hawaits.console_eq).symm

theorem queue_eq (hawaits : world.Awaits coming scene) :
    scene.world.queue = world.queue ++ coming := congrArg Console.pending hawaits.console_eq

/-- A steady request that does not wait for a line is answered as in the scene. -/
theorem perform (hawaits : world.Awaits coming scene) (hfits : r.Fits False)
    (hsteady : r.isSteady = true)
    (hresumed : resumed = true → r.isPause = true → world.library.console.isReady = true)
    (hinput : outcome ≠ .blocked .input)
    (hperform : world.perform resumed r = .ok (outcome, after)) :
    ∃ outcome' next, scene.world.perform resumed r = .ok (outcome', next) ∧
      outcome'.timeless = outcome.timeless ∧ after.Awaits coming { scene with world := next } := by
  have hforeseen := perform_foresee hawaits.expects hsteady hresumed hinput hperform
  obtain ⟨outcome', next, hscene, hsame, hplays⟩ :=
    hawaits.plays.perform hfits (Request.isClock_of_isSteady hsteady) hforeseen
  refine ⟨outcome', next, hscene, hsame, hplays, fun hclosed => hawaits.expects ?_⟩
  rwa [(keeps_perform hperform hfits).closed] at hclosed

/-- A request that waits for a line has an answer in the scene, also after the lines are skipped
there that it has skipped. -/
theorem perform_input (hawaits : world.Awaits coming scene)
    (hperform : world.perform resumed r = .ok (.blocked .input, after)) :
    ∃ skipped answer next, scene.world.perform resumed r = .ok (.ready answer, next) ∧
      skipped.perform true r = .ok (.ready answer, next) ∧
      after.Awaits coming { scene with world := skipped } := by
  obtain ⟨rfl, hopen, hother⟩ := World.perform_input hperform
  have hmore : world.queue <+: scene.world.queue := by
    rw [hawaits.queue_eq]
    exact List.prefix_append _ _
  have hclosed : scene.world.library.console.closed = true := hawaits.plays.closed
  obtain ⟨answer, next, hanswer, hagain⟩ := hother scene.world hmore hclosed
  refine ⟨scene.world.skip world.queue.length, answer, next, hanswer, hagain, ?_, ?_⟩
  · rw [foresee_skip]
    exact ⟨hawaits.plays.alike.skip _, (closed_skip _ _).trans hclosed, hawaits.plays.handler⟩
  · intro hafter
    rw [closed_skip, hopen] at hafter
    cases hafter

end Awaits

end World

/-! ## Statements -/

section Statements

variable {α : Type} {clock : Nat → String} {world : World} {coming : List String} {scene : Scene}

/-- What is left of a statement makes steady requests. -/
structure Suspension.Steady (rest : Suspension α) : Prop where
  request : rest.request.isSteady = true
  next : ∀ answer, (rest.next answer).Asks (·.isSteady = true)

theorem Action.Asks.steady_of_contains {action : Action α} {rest : Suspension α}
    (hasks : action.Asks (·.isSteady = true)) (hcontains : action.Contains rest) : rest.Steady := by
  induction hcontains with
  | here => cases hasks with | ask hrequest hnext => exact ⟨hrequest, hnext⟩
  | there _ ih => cases hasks with | ask _ hnext => exact ih (hnext _)

theorem Suspension.Steady.of_resume {rest left : Suspension α} {block : Block}
    (hsteady : rest.Steady) (hresume : (rest.resume world).1 = .blocked block left) :
    left.Steady := by
  unfold Suspension.resume at hresume
  cases hperform : world.perform true rest.request with
  | error error =>
    rw [hperform] at hresume
    cases hresume
  | ok result =>
    obtain ⟨outcome, after⟩ := result
    rw [hperform] at hresume
    cases outcome with
    | ready answer =>
      exact (hsteady.next answer).steady_of_contains (Action.contains_of_run hresume)
    | blocked other =>
      cases hresume
      exact hsteady

/-- From a world and a scene, a run with this result leads to another scene, and towards the
verdict. -/
def Scene.Nears (clock : Nat → String) (coming : List String) (verdict : Verdict α)
    (result : Progress α × World) (next : Scene) : Prop :=
  result.1.Brings clock next verdict ∧ result.2.Awaits coming next

/-- If the run has to wait for a line, the program has not been told to end. -/
def WaitsRunning (result : Progress α × World) : Prop :=
  ∀ rest, result.1 = .blocked .input rest → result.2.library.ended = false

/-- A call that waits for a line. -/
theorem Scene.nears_input (clock : Nat → String) (rest : Suspension α) {resumed : Bool}
    {after : World} (hfits : rest.request.Fits False)
    (hnext : ∀ answer, (rest.next answer).Sound False) (hclock : rest.request.isClock = false)
    (hawaits : world.Awaits coming scene)
    (hperform : world.perform resumed rest.request = .ok (.blocked .input, after))
    (hrunning : after.library.ended = false) :
    ∃ answer moved next, scene.world.perform resumed rest.request = .ok (.ready answer, moved) ∧
      Scene.Nears clock coming ((rest.next answer).evaluate clock { scene with world := moved })
        (.blocked .input rest, after) next := by
  obtain ⟨skipped, answer, moved, hanswer, hagain, hafter⟩ := hawaits.perform_input hperform
  refine ⟨answer, moved, { scene with world := skipped }, hanswer, ?_, hafter⟩
  have hevaluate : rest.evaluate clock { scene with world := skipped } =
      (rest.next answer).evaluate clock { scene with world := moved } := by
    simp only [Suspension.evaluate, Scene.repeat, hagain, Verdict.goes_andThen]
  rw [← hevaluate]
  exact .waits (hafter.ended_eq.symm.trans hrunning) ⟨hfits, hnext, hclock, answer, moved, hagain⟩

/-- Running a statement on the lines as they come brings it towards the verdict that it has with
foresight. -/
theorem Action.Sound.awaits {action : Action α} (hsound : action.Sound False)
    (hasks : action.Asks (·.isSteady = true)) (hawaits : world.Awaits coming scene)
    (huncut : WaitsRunning (action.run world)) :
    ∃ next, Scene.Nears clock coming (action.evaluate clock scene) (action.run world) next := by
  induction hsound generalizing world scene with
  | done => exact ⟨scene, (Scene.leads_done hawaits.plays _).brings, hawaits⟩
  | @ask r after hfits hafter ih =>
    cases hasks with
    | ask hsteady hnext =>
      have hclock := Request.isClock_of_isSteady hsteady
      obtain ⟨outcome, later, hperform⟩ := world.exists_perform false hfits
      unfold Action.run at huncut ⊢
      rw [hperform] at huncut ⊢
      by_cases hinput : outcome = .blocked .input
      · subst hinput
        obtain ⟨answer, moved, next, hanswer, hnears⟩ :=
          Scene.nears_input clock ⟨r, after⟩ hfits hafter hclock hawaits hperform (huncut _ rfl)
        refine ⟨next, ?_⟩
        simpa only [Action.evaluate, Scene.answer, hclock, hanswer, Bool.false_eq_true, if_false,
          Verdict.goes_andThen] using hnears
      · obtain ⟨outcome', moved, hscene, hsame, hlater⟩ :=
          hawaits.perform hfits hsteady (by simp) hinput hperform
        cases outcome with
        | ready answer =>
          obtain rfl := Outcome.eq_ready_of_timeless hsame
          obtain ⟨next, hnears⟩ := ih answer (hnext answer) hlater huncut
          refine ⟨next, ?_⟩
          simpa only [Action.evaluate, Scene.answer, hclock, hscene, Bool.false_eq_true, if_false,
            Verdict.goes_andThen] using hnears
        | blocked block =>
          obtain ⟨other, rfl⟩ := Outcome.eq_blocked_of_timeless hsame
          have hleads : scene.Leads clock ((Action.ask r after).evaluate clock scene)
              (.blocked block ⟨r, after⟩, later.foresee coming) [] _ :=
            Scene.leads_blocked hfits hafter hclock hawaits.plays.closed hscene hlater.plays rfl
          exact ⟨_, hleads.brings, hlater⟩

/-- So does going on with it. A pause goes on when a line is there. -/
theorem Suspension.Resumable.awaits {rest : Suspension α} (hrest : rest.Resumable scene)
    (hsteady : rest.Steady) (hawaits : world.Awaits coming scene)
    (hresumed : rest.request.isPause = true → world.library.console.isReady = true)
    (huncut : WaitsRunning (rest.resume world)) :
    ∃ next, Scene.Nears clock coming (rest.evaluate clock scene) (rest.resume world) next := by
  obtain ⟨hfits, hnext, hclock, answer, moved, hanswer⟩ := hrest
  have hevaluate : rest.evaluate clock scene =
      (rest.next answer).evaluate clock { scene with world := moved } := by
    simp only [Suspension.evaluate, Scene.repeat, hanswer, Verdict.goes_andThen]
  obtain ⟨outcome, later, hperform⟩ := world.exists_perform true hfits
  unfold Suspension.resume at huncut ⊢
  rw [hperform] at huncut ⊢
  rw [hevaluate]
  by_cases hinput : outcome = .blocked .input
  · subst hinput
    obtain ⟨found, other, next, hfound, hnears⟩ :=
      Scene.nears_input clock rest hfits hnext hclock hawaits hperform (huncut _ rfl)
    obtain ⟨hsame, rfl⟩ := Prod.mk.inj (Except.ok.inj (hanswer.symm.trans hfound))
    obtain rfl := Outcome.ready.inj hsame
    exact ⟨next, hnears⟩
  · obtain ⟨outcome', other, hscene, hsame, hlater⟩ :=
      hawaits.perform hfits hsteady.request (fun _ => hresumed) hinput hperform
    obtain ⟨rfl, rfl⟩ := Prod.mk.inj (Except.ok.inj (hanswer.symm.trans hscene))
    obtain rfl := Outcome.eq_ready_of_timeless hsame.symm
    exact (hnext answer).awaits (hsteady.next answer) hlater huncut

end Statements

end SmallBasic
