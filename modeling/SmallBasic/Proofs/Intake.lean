import Mathlib.Data.List.TakeWhile
import SmallBasic.Proofs.Calls

/-!
# The intake of lines

Threads compete for the input lines. However their turns and the arrival of lines fall together, no
line is lost, doubled or put out of order: what was taken, followed by what is still in the queue,
is what has arrived. Each attempt takes its lines from the front of the queue, and a call of
`TextWindow.Read` or `TextWindow.ReadNumber` that comes to an end has taken what it answers for.

## Main definitions

* `Entry.taken`, `linesOf` — the lines that an attempt, or a call, has taken.
* `Machine.Move.line?` — the line that a move brings.
* `Machine.Accounts` — what becomes of the lines of a run.

## Main statements

* `Entry.Happens.taken_append` — an attempt takes its lines from the front of the queue.
* `Machine.accounts_history` — no line is lost, doubled or put out of order.
-/

namespace SmallBasic

/-! ## The queue -/

namespace Console

theorem take_fst (console : Console) : console.take.1 = console.pending.head? := by
  unfold take
  split <;> simp [*]

theorem pending_take (console : Console) : console.take.2.pending = console.pending.tail := by
  unfold take
  split
  · simp [*]
  · dsimp only
    split <;> simp [write, *]

theorem pending_drop (console : Console) (count : Nat) :
    (console.drop count).pending = console.pending.drop count := by
  induction count generalizing console with
  | zero => rfl
  | succ count ih => rw [drop, ih, pending_take, List.drop_tail]

theorem pending_clear (console : Console) : console.clear.pending = console.pending := by
  unfold clear
  split
  · rfl
  · split <;> rfl

/-- Nothing is left, and nothing will come. -/
def AtEnd (console : Console) : Prop := console.pending = [] ∧ console.closed = true

theorem isReady_iff (console : Console) :
    console.isReady = true ↔ console.pending ≠ [] ∨ console.closed = true := by
  simp [isReady]

end Console

namespace Library

/-- The library with another console. -/
def withConsole (lib : Library) (console : Console) : Library := { lib with console }

/-- The library with another console and other dice. -/
def withInput (lib : Library) (console : Console) (dice : Dice) : Library :=
  { lib with console, dice }

/-- A method outside the window, other than the random number, neither looks at the console and the
dice nor changes them. -/
theorem call?_withInput (lib : Library) (console : Console) (dice : Dice) {method : Method}
    (hwindow : ∀ m, method ≠ .window m) (hrandom : method ≠ .math .getRandomNumber)
    (args : List String) (resumed : Bool) :
    (lib.withInput console dice).call? method args resumed =
      (lib.call? method args resumed).map fun result =>
        (result.1, result.2.withInput console dice) := by
  cases method with
  | window m => exact absurd rfl (hwindow m)
  | program m =>
    simp only [call?]
    cases m, args using ProgramMethod.args_cases with
    | other m args hargs =>
      rw [callProgram?_eq_none _ _ hargs, callProgram?_eq_none _ _ hargs]
      rfl
    | _ => rfl
  | math m =>
    have hvalue : m ≠ .getRandomNumber := fun hm => hrandom (congrArg Method.math hm)
    simp only [call?, callMath?_of_ne _ hvalue]
    cases m.value? (args.map Number.ofText) <;> rfl
  | text m =>
    simp only [call?]
    cases m.value? args <;> rfl
  | array m =>
    simp only [call?]
    rw [lib.callArray?_map (withInput · console dice) fun _ => rfl]
    cases lib.callArray? m args <;> rfl
  | stack m =>
    simp only [call?]
    rw [lib.callStack?_map (withInput · console dice) fun _ => rfl]
    cases lib.callStack? m args <;> rfl
  | timer m =>
    simp only [call?]
    cases m, args using TimerMethod.args_cases with
    | other m args hargs =>
      rw [callTimer?_eq_none _ hargs, callTimer?_eq_none _ hargs]
      rfl
    | _ => rfl

/-! ## Methods that take lines -/

variable {lib next : Library} {answer : String} {block : Block}

theorem readLine_eq (lib : Library) :
    lib.readLine =
      if lib.console.isReady then
        (.ready (lib.console.take.1.getD ""), lib.reveal.withConsole lib.console.take.2)
      else (.blocked .input, lib.reveal) := rfl

/-- What is read is the next line, or nothing at the end of input. -/
theorem readLine_ready (hread : lib.readLine = (.ready answer, next)) :
    lib.console.pending = answer :: next.console.pending ∨
      lib.console.AtEnd ∧ answer = "" ∧ next.console.pending = [] := by
  rw [readLine_eq] at hread
  split at hread
  case isFalse => cases hread
  case isTrue hready =>
    obtain ⟨hanswer, rfl⟩ := Prod.mk.inj hread
    obtain rfl := Outcome.ready.inj hanswer
    simp only [withConsole, Console.take_fst, Console.pending_take]
    cases hpending : lib.console.pending with
    | nil =>
      have hclosed : lib.console.closed = true := by
        simpa [Console.isReady_iff, hpending] using hready
      exact .inr ⟨⟨hpending, hclosed⟩, rfl, rfl⟩
    | cons line rest => exact .inl rfl

/-- A line is waited for when there is none and input is open. -/
theorem readLine_blocked (hread : lib.readLine = (.blocked block, next)) :
    block = .input ∧ lib.console.pending = [] ∧ lib.console.closed = false ∧
      next = lib.reveal := by
  rw [readLine_eq] at hread
  split at hread
  case isTrue => cases hread
  case isFalse hready =>
    obtain ⟨hblock, rfl⟩ := Prod.mk.inj hread
    rw [Console.isReady_iff, not_or, not_not, Bool.not_eq_true] at hready
    exact ⟨(Outcome.blocked.inj hblock).symm, hready.1, hready.2, rfl⟩

/-- The lines before the first one that is a number. -/
def skipped (lib : Library) : List String :=
  lib.console.pending.takeWhile fun line => (Number.ofText? line).isNone

theorem ofText?_of_mem_skipped {line : String} (hline : line ∈ lib.skipped) :
    Number.ofText? line = none := by
  have hnone : (Number.ofText? line).isNone = true :=
    List.mem_takeWhile_imp (p := fun line => (Number.ofText? line).isNone) hline
  exact Option.isNone_iff_eq_none.1 hnone

/-- What comes after the lines that are skipped begins with a number. -/
theorem exists_drop_skipped (lib : Library) :
    ∃ rest, lib.console.pending = lib.skipped ++ rest ∧
      (lib.console.drop lib.skipped.length).pending = rest ∧
      ∀ line ∈ rest.head?, (Number.ofText? line).isSome = true := by
  let isText : String → Bool := fun line => (Number.ofText? line).isNone
  have hsplit : lib.console.pending = lib.skipped ++ lib.console.pending.dropWhile isText :=
    List.takeWhile_append_dropWhile.symm
  refine ⟨lib.console.pending.dropWhile isText, hsplit, ?_, ?_⟩
  · rw [Console.pending_drop]
    nth_rewrite 1 [hsplit]
    exact List.drop_left
  · intro line hline
    have hnot := List.head?_dropWhile_not isText lib.console.pending
    rw [hline] at hnot
    simpa [isText] using hnot

theorem readNumber_eq (lib : Library) :
    lib.readNumber =
      let console := lib.console.drop lib.skipped.length
      if console.isReady then
        (.ready (Number.ofText (console.take.1.getD "0")).toText,
          lib.reveal.withConsole console.take.2)
      else (.blocked .input, lib.reveal.withConsole console) := rfl

theorem toText_ofText_zero : (Number.ofText "0").toText = "0" := by decide +kernel

/-- What is read is the number of the first line that has one, or zero at the end of input. -/
theorem readNumber_ready (hread : lib.readNumber = (.ready answer, next)) :
    (∃ line number, lib.console.pending = lib.skipped ++ line :: next.console.pending ∧
        Number.ofText? line = some number ∧ answer = number.toText) ∨
      lib.console.pending = lib.skipped ∧ next.console.AtEnd ∧ answer = "0" := by
  obtain ⟨rest, hsplit, hrest, hnumber⟩ := lib.exists_drop_skipped
  rw [readNumber_eq] at hread
  generalize lib.console.drop lib.skipped.length = console at hread hrest
  dsimp only at hread
  split at hread
  case isFalse => cases hread
  case isTrue hready =>
    obtain ⟨hanswer, rfl⟩ := Prod.mk.inj hread
    obtain rfl := Outcome.ready.inj hanswer
    simp only [withConsole, Console.AtEnd, Console.take_fst, Console.pending_take, closed_take,
      hrest]
    cases rest with
    | nil =>
      have hclosed : console.closed = true := by simpa [Console.isReady_iff, hrest] using hready
      exact .inr ⟨by simpa using hsplit, ⟨rfl, hclosed⟩, toText_ofText_zero⟩
    | cons line rest =>
      obtain ⟨number, hnumber⟩ := Option.isSome_iff_exists.1 (hnumber line rfl)
      refine .inl ⟨line, number, hsplit, hnumber, ?_⟩
      simp [Number.ofText, hnumber]

/-- A number is waited for when no line has one and input is open. All lines are taken then. -/
theorem readNumber_blocked (hread : lib.readNumber = (.blocked block, next)) :
    block = .input ∧ lib.console.pending = lib.skipped ∧ lib.console.closed = false ∧
      next = lib.reveal.withConsole (lib.console.drop lib.skipped.length) ∧
      next.console.pending = [] := by
  obtain ⟨rest, hsplit, hrest, -⟩ := lib.exists_drop_skipped
  rw [readNumber_eq] at hread
  dsimp only at hread
  split at hread
  case isTrue => cases hread
  case isFalse hready =>
    obtain ⟨hblock, rfl⟩ := Prod.mk.inj hread
    rw [Console.isReady_iff, hrest, closed_drop, not_or, not_not, Bool.not_eq_true] at hready
    obtain ⟨rfl, hclosed⟩ := hready
    exact ⟨(Outcome.blocked.inj hblock).symm, by simpa using hsplit, hclosed, rfl, hrest⟩

theorem suffix_readLine (lib : Library) :
    lib.readLine.2.console.pending <:+ lib.console.pending := by
  rw [readLine_eq]
  split
  · simp only [withConsole, Console.pending_take]
    exact List.tail_suffix _
  · exact List.suffix_refl _

theorem suffix_readNumber (lib : Library) :
    lib.readNumber.2.console.pending <:+ lib.console.pending := by
  rw [readNumber_eq]
  dsimp only
  split
  · simp only [withConsole, Console.pending_take, Console.pending_drop]
    exact (List.tail_suffix _).trans (List.drop_suffix _ _)
  · simp only [withConsole, Console.pending_drop]
    exact List.drop_suffix _ _

theorem suffix_pause (lib : Library) (message : String) (resumed : Bool) :
    (lib.pause message resumed).2.console.pending <:+ lib.console.pending := by
  cases resumed with
  | false => exact List.suffix_refl _
  | true =>
    simp only [pause, if_true, Console.pending_take]
    exact List.tail_suffix _

theorem suffix_callWindow? {resumed : Bool} {method : WindowMethod} {args : List String}
    {outcome : Outcome} (hcall : lib.callWindow? resumed method args = some (outcome, next)) :
    next.console.pending <:+ lib.console.pending := by
  cases method, args using WindowMethod.args_cases with
  | read =>
    obtain rfl := eq_snd_of_some hcall
    exact lib.suffix_readLine
  | readNumber =>
    obtain rfl := eq_snd_of_some hcall
    exact lib.suffix_readNumber
  | pause | pauseWithoutMessage =>
    obtain rfl := eq_snd_of_some hcall
    exact lib.suffix_pause _ resumed
  | pauseIfVisible =>
    obtain rfl := eq_snd_of_some hcall
    split
    · exact lib.suffix_pause _ resumed
    · exact List.suffix_refl _
  | clear =>
    obtain rfl := eq_snd_of_some hcall
    exact (Console.pending_clear lib.console).symm ▸ List.suffix_refl _
  | other method args hargs => cases (callWindow?_eq_none lib resumed hargs).symm.trans hcall
  | _ =>
    obtain rfl := eq_snd_of_some hcall
    exact List.suffix_refl _

/-- A call takes lines from the front of the queue, if it takes any. -/
theorem suffix_call? {resumed : Bool} {method : Method} {args : List String} {outcome : Outcome}
    (hcall : lib.call? method args resumed = some (outcome, next)) :
    next.console.pending <:+ lib.console.pending := by
  cases method with
  | program | math | text | array | stack | timer =>
    have hconsole : next.console = lib.console := (changesOwn_call? hcall).console_eq (by simp)
    exact hconsole ▸ List.suffix_refl _
  | window m => exact suffix_callWindow? hcall

end Library

/-! ## Attempts and calls -/

namespace World

/-- The lines that nobody has taken yet. -/
def queue (world : World) : List String := world.library.console.pending

theorem suffix_perform {world next : World} {resumed : Bool} {r : Request} {outcome : Outcome}
    (hperform : world.perform resumed r = .ok (outcome, next)) : next.queue <:+ world.queue := by
  cases r with
  | readVariable | writeVariable =>
    cases hperform
    exact List.suffix_refl _
  | readField field | writeField field value =>
    cases hperform
    cases field <;> exact List.suffix_refl _
  | bindEvent event target =>
    cases hperform
    cases event
    exact List.suffix_refl _
  | call method args =>
    obtain ⟨library, hcall, rfl⟩ := perform_call_iff.1 hperform
    exact Library.suffix_call? hcall

end World

namespace Entry

/-- The lines that the attempt has taken. -/
def taken (entry : Entry) : List String :=
  entry.before.queue.take (entry.before.queue.length - entry.after.queue.length)

variable {entry : Entry}

theorem taken_eq_of_append {lines : List String}
    (hlines : entry.before.queue = lines ++ entry.after.queue) : entry.taken = lines := by
  simp [taken, hlines]

/-- An attempt takes its lines from the front of the queue. -/
theorem Happens.taken_append (hhappens : entry.Happens) :
    entry.taken ++ entry.after.queue = entry.before.queue := by
  obtain ⟨lines, hlines⟩ := World.suffix_perform hhappens
  rw [taken_eq_of_append hlines.symm, hlines]

end Entry

/-- The lines that some attempts have taken, one after the other. -/
def linesOf (entries : List Entry) : List String := entries.flatMap Entry.taken

@[simp] theorem linesOf_nil : linesOf [] = [] := rfl

@[simp] theorem linesOf_cons (entry : Entry) (entries : List Entry) :
    linesOf (entry :: entries) = entry.taken ++ linesOf entries := List.flatMap_cons

@[simp] theorem linesOf_append (entries more : List Entry) :
    linesOf (entries ++ more) = linesOf entries ++ linesOf more := List.flatMap_append

/-- The call has come to an end with this entry and this answer. -/
def Completes (call : List Entry) (last : Entry) (answer : String) : Prop :=
  call.getLast? = some last ∧ last.attempt.outcome = .ready answer

/-- A call of `TextWindow.Read`. -/
def Request.readLine : Request := .call (.window .read) []

/-- A call of `TextWindow.ReadNumber`. -/
def Request.readNumber : Request := .call (.window .readNumber) []

namespace Entry

variable {entry : Entry} {answer : String} {block : Block}

theorem Happens.readLine_ready (hhappens : entry.Happens)
    (hrequest : entry.attempt.request = .readLine)
    (houtcome : entry.attempt.outcome = .ready answer) :
    entry.taken = [answer] ∨
      entry.taken = [] ∧ answer = "" ∧ entry.before.library.console.AtEnd := by
  rw [Happens, hrequest, houtcome] at hhappens
  obtain ⟨library, hcall, hafter⟩ := World.perform_call_iff.1 hhappens
  rcases Library.readLine_ready (Option.some.inj hcall) with hline | ⟨hend, hanswer, hrest⟩
  · refine .inl (taken_eq_of_append ?_)
    rw [hafter]
    exact hline
  · refine .inr ⟨taken_eq_of_append ?_, hanswer, hend⟩
    rw [hafter]
    exact hend.1.trans hrest.symm

theorem Happens.readLine_blocked (hhappens : entry.Happens)
    (hrequest : entry.attempt.request = .readLine)
    (houtcome : entry.attempt.outcome = .blocked block) :
    entry.taken = [] ∧ entry.after.queue = [] := by
  rw [Happens, hrequest, houtcome] at hhappens
  obtain ⟨library, hcall, hafter⟩ := World.perform_call_iff.1 hhappens
  obtain ⟨-, hpending, -, rfl⟩ := Library.readLine_blocked (Option.some.inj hcall)
  have hqueue : entry.after.queue = [] := by
    rw [hafter]
    exact hpending
  exact ⟨taken_eq_of_append (by rw [hqueue]; exact hpending), hqueue⟩

theorem Happens.readNumber_ready (hhappens : entry.Happens)
    (hrequest : entry.attempt.request = .readNumber)
    (houtcome : entry.attempt.outcome = .ready answer) :
    (∃ skipped line number, entry.taken = skipped ++ [line] ∧
        (∀ text ∈ skipped, Number.ofText? text = none) ∧ Number.ofText? line = some number ∧
        answer = number.toText) ∨
      (∀ text ∈ entry.taken, Number.ofText? text = none) ∧ answer = "0" ∧
        entry.after.library.console.AtEnd := by
  rw [Happens, hrequest, houtcome] at hhappens
  obtain ⟨library, hcall, hafter⟩ := World.perform_call_iff.1 hhappens
  have hskipped : ∀ text ∈ entry.before.library.skipped, Number.ofText? text = none :=
    fun text htext => Library.ofText?_of_mem_skipped htext
  rcases Library.readNumber_ready (Option.some.inj hcall) with
    ⟨line, number, hlines, hnumber, hanswer⟩ | ⟨hlines, hend, hanswer⟩
  · refine .inl ⟨_, line, number, taken_eq_of_append ?_, hskipped, hnumber, hanswer⟩
    rw [hafter, List.append_assoc]
    exact hlines
  · have htaken : entry.taken = entry.before.library.skipped := by
      apply taken_eq_of_append
      rw [hafter, show (entry.before.withLibrary library).queue = [] from hend.1, List.append_nil]
      exact hlines
    rw [htaken, hafter]
    exact .inr ⟨hskipped, hanswer, hend⟩

theorem Happens.readNumber_blocked (hhappens : entry.Happens)
    (hrequest : entry.attempt.request = .readNumber)
    (houtcome : entry.attempt.outcome = .blocked block) :
    (∀ text ∈ entry.taken, Number.ofText? text = none) ∧ entry.after.queue = [] := by
  rw [Happens, hrequest, houtcome] at hhappens
  obtain ⟨library, hcall, hafter⟩ := World.perform_call_iff.1 hhappens
  obtain ⟨-, hlines, -, -, hrest⟩ := Library.readNumber_blocked (Option.some.inj hcall)
  have hqueue : entry.after.queue = [] := by
    rw [hafter]
    exact hrest
  have htaken : entry.taken = entry.before.library.skipped := by
    apply taken_eq_of_append
    rw [hqueue, List.append_nil]
    exact hlines
  rw [htaken]
  exact ⟨fun text htext => Library.ofText?_of_mem_skipped htext, hqueue⟩

end Entry

/-- What a call of `TextWindow.Read` that comes to an end has done: it answers with the line that it
took, or took none at the end of input. -/
structure ReadsLine (call : List Entry) (last : Entry) (answer : String) : Prop where
  taken : linesOf call = [answer] ∨
    linesOf call = [] ∧ answer = "" ∧ last.before.library.console.AtEnd

/-- What a call of `TextWindow.ReadNumber` that comes to an end has done: it took the lines up to
the first number, which is its answer, or took all lines up to the end of input. Whenever it had to
wait, it left no line behind. -/
structure ReadsNumber (call : List Entry) (last : Entry) (answer : String) : Prop where
  taken : (∃ skipped line number, linesOf call = skipped ++ [line] ∧
      (∀ text ∈ skipped, Number.ofText? text = none) ∧ Number.ofText? line = some number ∧
      answer = number.toText) ∨
    (∀ text ∈ linesOf call, Number.ofText? text = none) ∧ answer = "0" ∧
      last.after.library.console.AtEnd
  waits : ∀ entry ∈ call, ∀ block, entry.attempt.outcome = .blocked block → entry.after.queue = []

section Calls

variable {call : List Entry} {last : Entry} {answer : String} {resumed : Bool}

theorem IsCall.readsLine (hcall : IsCall .readLine resumed call)
    (hhappens : ∀ entry ∈ call, entry.Happens) (hcompletes : Completes call last answer) :
    ReadsLine call last answer := by
  obtain ⟨hlast, houtcome⟩ := hcompletes
  constructor
  induction hcall with
  | last hrequest _ =>
    obtain rfl := Option.some.inj hlast
    simpa using (hhappens _ List.mem_cons_self).readLine_ready hrequest houtcome
  | @wait _ entry rest block hrequest _ hblocked hrest ih =>
    obtain ⟨hentry, hhappens⟩ := List.forall_mem_cons.1 hhappens
    obtain ⟨htaken, -⟩ := hentry.readLine_blocked hrequest hblocked
    rw [linesOf_cons, htaken, List.nil_append]
    refine ih hhappens ?_
    cases hrest with
    | last | wait => rwa [List.getLast?_cons_cons] at hlast

theorem IsCall.readsNumber (hcall : IsCall .readNumber resumed call)
    (hhappens : ∀ entry ∈ call, entry.Happens) (hcompletes : Completes call last answer) :
    ReadsNumber call last answer := by
  obtain ⟨hlast, houtcome⟩ := hcompletes
  induction hcall with
  | @last _ entry hrequest _ =>
    obtain rfl := Option.some.inj hlast
    constructor
    case taken => simpa using (hhappens _ List.mem_cons_self).readNumber_ready hrequest houtcome
    case waits =>
      intro other hother block hblocked
      obtain rfl := List.mem_singleton.1 hother
      cases houtcome.symm.trans hblocked
  | @wait _ entry rest block hrequest _ hblocked hrest ih =>
    obtain ⟨hentry, hhappens⟩ := List.forall_mem_cons.1 hhappens
    obtain ⟨htaken, hqueue⟩ := hentry.readNumber_blocked hrequest hblocked
    have hlast : rest.getLast? = some last := by
      cases hrest with
      | last | wait => rwa [List.getLast?_cons_cons] at hlast
    obtain ⟨hlines, hwaits⟩ := ih hhappens hlast
    constructor
    case waits => exact List.forall_mem_cons.2 ⟨fun _ _ => hqueue, hwaits⟩
    case taken =>
      rw [linesOf_cons]
      rcases hlines with ⟨skipped, line, number, hlines, hskipped, hnumber, hanswer⟩ |
        ⟨hlines, hanswer, hend⟩
      · refine .inl ⟨entry.taken ++ skipped, line, number, ?_, ?_, hnumber, hanswer⟩
        · rw [hlines, List.append_assoc]
        · exact List.forall_mem_append.2 ⟨htaken, hskipped⟩
      · exact .inr ⟨List.forall_mem_append.2 ⟨htaken, hlines⟩, hanswer, hend⟩

end Calls

/-! ## Runs -/

theorem World.Unfolds.linesOf_append {world last : World} {entries : List Entry}
    (hentries : world.Unfolds entries last) : linesOf entries ++ last.queue = world.queue := by
  induction hentries with
  | nil => rfl
  | cons hhappens _ ih => rw [linesOf_cons, List.append_assoc, ih, hhappens.taken_append]

/-- What an attempt finds in the queue is what the attempts before it have left there. -/
theorem World.Unfolds.linesOf_before {world last : World} {past future : List Entry} {entry : Entry}
    (hentries : world.Unfolds (past ++ entry :: future) last) :
    linesOf past ++ entry.before.queue = world.queue := by
  induction past generalizing world with
  | nil => cases hentries with | cons => rfl
  | cons first past ih =>
    cases hentries with
    | cons hhappens hrest => rw [linesOf_cons, List.append_assoc, ih hrest, hhappens.taken_append]

namespace Machine

/-- The line that a move brings. -/
def Move.line? : Move → Option String
  | .push line => some line
  | _ => none

variable {machine : Machine}

theorem queue_awaken (machine : Machine) (now : Nat) :
    (machine.awaken now).2.world.queue = machine.world.queue := by
  unfold awaken
  dsimp only
  split <;> rfl

/-- What a tick does to the world is in its entries. -/
theorem unfolds_entries (machine : Machine) (now : Nat) (hended : machine.ended = false) :
    (machine.awaken now).2.world.Unfolds (machine.entries now) (machine.tick now).2.world := by
  obtain ⟨after, hrounds, -, hworld, -⟩ := machine.exists_rounds now hended
  rw [hworld]
  exact hrounds.unfolds

theorem linesOf_entries (machine : Machine) (now : Nat) :
    linesOf (machine.entries now) ++ (machine.tick now).2.world.queue = machine.world.queue := by
  cases hended : machine.ended with
  | true => simp [entries, tick, hended]
  | false => rw [(machine.unfolds_entries now hended).linesOf_append, queue_awaken]

/-- What has been taken, followed by what is still in the queue, is what has arrived. -/
theorem linesOf_history (machine : Machine) (moves : List Move) :
    linesOf (machine.history moves) ++ (machine.after moves).world.queue =
      machine.world.queue ++ moves.filterMap Move.line? := by
  induction moves generalizing machine with
  | nil => simp [history, after]
  | cons move moves ih =>
    have hrest := ih (machine.apply move)
    cases move with
    | tick now =>
      have htick := machine.linesOf_entries now
      calc
        _ = linesOf (machine.entries now) ++ ((machine.tick now).2.world.queue ++
              moves.filterMap Move.line?) := by
          rw [history, linesOf_append, List.append_assoc]
          exact congrArg _ hrest
        _ = _ := by
          rw [← List.append_assoc, htick]
          rfl
    | push line =>
      refine hrest.trans ?_
      change machine.world.queue ++ [line] ++ moves.filterMap Move.line? = _
      rw [List.append_assoc]
      rfl
    | spawn | close => exact hrest

/-- At every moment, what has been taken followed by the queue is what has arrived so far. -/
theorem linesOf_past (machine : Machine) (moves : List Move) {past future : List Entry}
    {entry : Entry} (hhistory : machine.history moves = past ++ entry :: future) :
    linesOf past ++ entry.before.queue <+:
      machine.world.queue ++ moves.filterMap Move.line? := by
  induction moves generalizing machine past with
  | nil => simp [history] at hhistory
  | cons move moves ih =>
    cases move with
    | spawn ip => exact ih (machine.spawn ip) hhistory
    | close => exact ih (machine.onConsole Console.close) hhistory
    | push line =>
      have hrest := ih (machine.onConsole (·.push line)) hhistory
      change _ <+: machine.world.queue ++ [line] ++ moves.filterMap Move.line? at hrest
      rwa [List.append_assoc] at hrest
    | tick now =>
      have hsplit : (∃ later, past = machine.entries now ++ later ∧
          (machine.tick now).2.history moves = later ++ entry :: future) ∨
          ∃ later, machine.entries now = past ++ entry :: later := by
        rcases List.append_eq_append_iff.1 hhistory with ⟨later, hpast, hlater⟩ |
          ⟨_ | ⟨first, later⟩, hentries, hlater⟩
        · exact .inl ⟨later, hpast, hlater⟩
        · exact .inl ⟨[], by rw [hentries, List.append_nil, List.append_nil], hlater.symm⟩
        · exact .inr ⟨later, by rw [hentries, (List.cons.inj hlater).1]⟩
      rcases hsplit with ⟨later, rfl, hlater⟩ | ⟨later, hentries⟩
      · have hrest := ih (machine.tick now).2 hlater
        rw [linesOf_append, List.append_assoc, ← machine.linesOf_entries now, List.append_assoc]
        exact (List.prefix_append_right_inj _).2 hrest
      · cases hended : machine.ended with
        | true => simp [entries, hended] at hentries
        | false =>
          have hunfolds := machine.unfolds_entries now hended
          rw [hentries] at hunfolds
          rw [hunfolds.linesOf_before, queue_awaken]
          exact List.prefix_append _ _

/-- What becomes of the input lines of a run. -/
structure Accounts (arrived : List String) (history : List Entry) (last : World) : Prop where
  /-- What has been taken, followed by what is still in the queue, is what has arrived. -/
  lines : linesOf history ++ last.queue = arrived
  /-- The same holds before each attempt, and the attempt takes its lines from the front of the
  queue. -/
  past : ∀ past entry future, history = past ++ entry :: future →
    linesOf past ++ entry.before.queue <+: arrived ∧
      entry.taken ++ entry.after.queue = entry.before.queue
  /-- Every attempt belongs to one call of its thread. -/
  calls : ∀ id, (callsOf id history).flatten = history.filter (·.thread == id) ∧
    ∀ call ∈ callsOf id history, ∃ request, IsCall request false call
  /-- A call that reads a line. -/
  readLine : ∀ id, ∀ call ∈ callsOf id history, IsCall .readLine false call →
    ∀ last answer, Completes call last answer → ReadsLine call last answer
  /-- A call that reads a number. -/
  readNumber : ∀ id, ∀ call ∈ callsOf id history, IsCall .readNumber false call →
    ∀ last answer, Completes call last answer → ReadsNumber call last answer

/-- However the turns of the threads and the arrival of lines fall together, no line is lost,
doubled or put out of order, and each is taken by one call, which answers for it. -/
theorem accounts_history (program : Program) (library : Library) (moves : List Move) :
    Accounts (library.console.pending ++ moves.filterMap Move.line?)
      ((Machine.start program library).history moves)
      ((Machine.start program library).after moves).world := by
  have hqueue : (Machine.start program library).world.queue = library.console.pending := by
    unfold Machine.start
    dsimp only
    split <;> rfl
  have hhappens : ∀ {id call}, call ∈ callsOf id ((Machine.start program library).history moves) →
      ∀ entry ∈ call, entry.Happens := by
    intro id call hcall entry hentry
    exact happens_of_mem_history _ moves (mem_of_mem_callsOf hcall hentry)
  constructor
  case lines => rw [linesOf_history, hqueue]
  case past =>
    intro past entry future hhistory
    refine ⟨?_, ?_⟩
    · rw [← hqueue]
      exact linesOf_past _ moves hhistory
    · refine (happens_of_mem_history (Machine.start program library) moves ?_).taken_append
      rw [hhistory]
      exact List.mem_append_right _ List.mem_cons_self
  case calls => exact fun id => ⟨flatten_callsOf id _, fun call hcall => exists_isCall hcall⟩
  case readLine =>
    intro id call hcall hreads last answer hcompletes
    exact hreads.readsLine (hhappens hcall) hcompletes
  case readNumber =>
    intro id call hcall hreads last answer hcompletes
    exact hreads.readsNumber (hhappens hcall) hcompletes

end Machine

end SmallBasic
