import SmallBasic.Proofs.Intake

/-!
# Pauses

A pause writes its message, waits for a key press, which is any input line, and takes that line when
it goes on. `TextWindow.PauseIfVisible` does so only as long as the window is visible: where another
thread hides the window meanwhile, the line that ended the pause stays in the queue, for the next
call that reads one.

## Main definitions

* `WindowMethod.pauseMessage?` — the methods that pause, and what they write.
* `Pauses` — the courses that a call of such a method can take.

## Main statements

* `Machine.pauses_of_mem_callsOf` — in every run, each pause takes one of these courses.
* `Machine.pauseIfVisible_leaves_line` — a pause that leaves its line to a later call.
-/

namespace SmallBasic

/-- What a method that pauses writes before it waits. -/
def WindowMethod.pauseMessage? : WindowMethod → Option String
  | .pause | .pauseIfVisible => some Library.pauseMessage
  | .pauseWithoutMessage => some ""
  | _ => none

/-- A call of a method that pauses. -/
def Request.pause (method : WindowMethod) : Request := .call (.window method) []

namespace Entry

/-- The attempt writes the message and has to wait. -/
structure Announces (entry : Entry) (message : String) : Prop where
  outcome : entry.attempt.outcome = .blocked .signal
  after : entry.after = entry.before.withLibrary (entry.before.library.write message)

/-- The attempt takes the line at the front of the queue, or none at the end of input, and does
nothing else. -/
structure Acknowledges (entry : Entry) : Prop where
  outcome : entry.attempt.outcome = .done
  after : entry.after = entry.before.withLibrary
    (entry.before.library.withConsole entry.before.library.console.take.2)
  taken : (∃ line, entry.taken = [line]) ∨
    entry.taken = [] ∧ entry.before.library.console.AtEnd

/-- The attempt finds the window hidden and does nothing. -/
structure PassesOver (entry : Entry) : Prop where
  outcome : entry.attempt.outcome = .done
  hidden : entry.before.library.window.visible = false
  after : entry.after = entry.before

end Entry

/-- The courses that a call of a method that pauses can take. -/
inductive Pauses (method : WindowMethod) (message : String) : List Entry → Prop
  /-- There is no window to pause for. -/
  | over {entry : Entry} (hmethod : method = .pauseIfVisible) (hentry : entry.PassesOver) :
      Pauses method message [entry]
  /-- The key press has not come yet. -/
  | waits {first : Entry} (hfirst : first.Announces message) : Pauses method message [first]
  /-- The key press is taken. -/
  | ends {first second : Entry} (hfirst : first.Announces message)
      (hvisible : method = .pauseIfVisible → second.before.library.window.visible = true)
      (hsecond : second.Acknowledges) : Pauses method message [first, second]
  /-- The window was hidden meanwhile, and the key press is not taken. -/
  | forgets {first second : Entry} (hfirst : first.Announces message)
      (hmethod : method = .pauseIfVisible) (hsecond : second.PassesOver) :
      Pauses method message [first, second]

section Attempts

variable {method : WindowMethod} {message : String}

/-- Unless there is no window to pause for, a pause does what its method says. -/
theorem World.perform_pause {world next : World} {resumed : Bool} {outcome : Outcome}
    (hmessage : method.pauseMessage? = some message)
    (hperform : world.perform resumed (.pause method) = .ok (outcome, next)) :
    (method = .pauseIfVisible ∧ world.library.window.visible = false ∧ outcome = .done ∧
        next = world) ∨
      (method = .pauseIfVisible → world.library.window.visible = true) ∧
        outcome = (world.library.pause message resumed).1 ∧
        next = world.withLibrary (world.library.pause message resumed).2 := by
  obtain ⟨library, hcall, rfl⟩ := World.perform_call_iff.1 hperform
  cases method with
  | pause | pauseWithoutMessage =>
    obtain rfl := Option.some.inj hmessage
    have hpause := Option.some.inj hcall
    rw [hpause]
    exact .inr ⟨by simp, rfl, rfl⟩
  | pauseIfVisible =>
    obtain rfl := Option.some.inj hmessage
    simp only [Library.call?, Library.callWindow?, Option.some.injEq] at hcall
    split at hcall
    case isTrue hvisible =>
      rw [hcall]
      exact .inr ⟨fun _ => hvisible, rfl, rfl⟩
    case isFalse hhidden =>
      obtain ⟨rfl, rfl⟩ := Prod.mk.inj hcall
      exact .inl ⟨rfl, Bool.eq_false_iff.2 hhidden, rfl, rfl⟩
  | _ => cases hmessage

variable {entry : Entry}

/-- A new pause. -/
theorem Entry.Happens.pause_new (hhappens : entry.Happens)
    (hmessage : method.pauseMessage? = some message)
    (hrequest : entry.attempt.request = .pause method) (hnew : entry.attempt.resumed = false) :
    (method = .pauseIfVisible ∧ entry.PassesOver) ∨ entry.Announces message := by
  rw [Entry.Happens, hrequest, hnew] at hhappens
  rcases World.perform_pause hmessage hhappens with
    ⟨hmethod, hhidden, houtcome, hafter⟩ | ⟨-, houtcome, hafter⟩
  · exact .inl ⟨hmethod, houtcome, hhidden, hafter⟩
  · exact .inr ⟨houtcome, hafter⟩

/-- A pause waits for a key press. -/
theorem Request.WaitsFor.eq_signal {block : Block} (hwaits : (Request.pause method).WaitsFor block)
    (hmessage : method.pauseMessage? = some message) : block = .signal := by
  obtain ⟨world, resumed, next, hperform⟩ := hwaits
  rcases World.perform_pause hmessage hperform with ⟨-, -, houtcome, -⟩ | ⟨-, houtcome, -⟩
  · cases houtcome
  · cases resumed with
    | true => cases houtcome
    | false => exact Outcome.blocked.inj houtcome

/-- A pause that is repeated, now that a key press has come. -/
theorem Entry.Happens.pause_resumed (hhappens : entry.Happens) (htimely : entry.Timely)
    (hmessage : method.pauseMessage? = some message)
    (hrequest : entry.attempt.request = .pause method) (hresumed : entry.attempt.resumed = true) :
    (method = .pauseIfVisible ∧ entry.PassesOver) ∨
      (method = .pauseIfVisible → entry.before.library.window.visible = true) ∧
        entry.Acknowledges := by
  obtain ⟨block, now, hwaits, hresolved⟩ := htimely hresumed
  rw [hrequest] at hwaits
  obtain rfl := hwaits.eq_signal hmessage
  rw [Entry.Happens, hrequest, hresumed] at hhappens
  rcases World.perform_pause hmessage hhappens with
    ⟨hmethod, hhidden, houtcome, hafter⟩ | ⟨hvisible, houtcome, hafter⟩
  · exact .inl ⟨hmethod, houtcome, hhidden, hafter⟩
  · refine .inr ⟨hvisible, houtcome, hafter, ?_⟩
    have hqueue : entry.after.queue = entry.before.queue.tail := by
      rw [hafter]
      exact Console.pending_take _
    rcases hlines : entry.before.queue with _ | ⟨line, rest⟩
    · have hclosed : entry.before.library.console.closed = true :=
        ((Console.isReady_iff _).1 hresolved).resolve_left (not_not.2 hlines)
      refine .inr ⟨Entry.taken_eq_of_append ?_, hlines, hclosed⟩
      rw [hqueue, hlines]
      rfl
    · refine .inl ⟨line, Entry.taken_eq_of_append ?_⟩
      rw [hqueue, hlines]
      rfl

/-- The attempts of a pause take one of the courses. -/
theorem IsCall.pauses {call : List Entry} (hcall : IsCall (.pause method) false call)
    (hmessage : method.pauseMessage? = some message) (hhappens : ∀ entry ∈ call, entry.Happens)
    (htimely : ∀ entry ∈ call, entry.Timely) : Pauses method message call := by
  cases hcall with
  | last hrequest hnew =>
    rcases (hhappens _ List.mem_cons_self).pause_new hmessage hrequest hnew with
      ⟨hmethod, hover⟩ | hannounces
    · exact .over hmethod hover
    · exact .waits hannounces
  | wait hrequest hnew hblocked hrest =>
    obtain ⟨hfirst, hhappens⟩ := List.forall_mem_cons.1 hhappens
    obtain ⟨-, htimely⟩ := List.forall_mem_cons.1 htimely
    have hannounces := (hfirst.pause_new hmessage hrequest hnew).resolve_left fun hover => by
      cases hover.2.outcome.symm.trans hblocked
    cases hrest with
    | last hrequest hresumed =>
      rcases (hhappens _ List.mem_cons_self).pause_resumed (htimely _ List.mem_cons_self) hmessage
        hrequest hresumed with ⟨hmethod, hover⟩ | ⟨hvisible, hacknowledges⟩
      · exact .forgets hannounces hmethod hover
      · exact .ends hannounces hvisible hacknowledges
    | wait hrequest hresumed hblocked _ =>
      -- A pause that is repeated does not wait again.
      rcases (hhappens _ List.mem_cons_self).pause_resumed (htimely _ List.mem_cons_self) hmessage
        hrequest hresumed with ⟨-, hover⟩ | ⟨-, hacknowledges⟩
      · cases hover.outcome.symm.trans hblocked
      · cases hacknowledges.outcome.symm.trans hblocked

end Attempts

namespace Machine

/-- Whatever the other threads do meanwhile, each pause takes one of the courses: it writes its
message once, and when it goes on, it takes the one line that ended it, unless it is a
`TextWindow.PauseIfVisible` and the window was hidden. -/
theorem pauses_of_mem_callsOf {program : Program} {library : Library} {moves : List Move} {id : Nat}
    {call : List Entry} (hcall : call ∈ callsOf id ((Machine.start program library).history moves))
    {method : WindowMethod} {message : String} (hmessage : method.pauseMessage? = some message)
    (hpause : IsCall (.pause method) false call) : Pauses method message call := by
  refine hpause.pauses hmessage (fun entry hentry => ?_) fun entry hentry => ?_
  · exact happens_of_mem_history _ moves (mem_of_mem_callsOf hcall hentry)
  · exact timely_of_mem_history (mem_of_mem_callsOf hcall hentry)

/-- The call is a pause that has gone on after its wait, with this many lines in the queue. -/
def isResumedPause (method : WindowMethod) (queued : Nat) : List Entry → Bool
  | [first, second] =>
    first.attempt == ⟨.pause method, false, .blocked .signal⟩ &&
      second.attempt == ⟨.pause method, true, .done⟩ && second.before.queue.length == queued
  | _ => false

theorem isCall_of_isResumedPause {method : WindowMethod} {queued : Nat} {call : List Entry}
    (hcall : isResumedPause method queued call = true) :
    ∃ first second, call = [first, second] ∧ second.before.queue.length = queued ∧
      IsCall (.pause method) false [first, second] := by
  unfold isResumedPause at hcall
  split at hcall
  · rename_i first second
    simp only [Bool.and_eq_true, beq_iff_eq] at hcall
    obtain ⟨⟨hfirst, hsecond⟩, hqueued⟩ := hcall
    have hrest : IsCall (.pause method) true [second] :=
      .last (congrArg (·.request) hsecond) (congrArg (·.resumed) hsecond)
    exact ⟨first, second, rfl, hqueued, .wait (congrArg (·.request) hfirst)
      (congrArg (·.resumed) hfirst) (congrArg (·.outcome) hfirst) hrest⟩
  · cases hcall

/-- A pause that ends with the first of two lines. -/
theorem pauses_of_mem_callsOf_key : ∃ program call,
    Program.parse "TextWindow.Pause()\nx = TextWindow.Read()" = .ok program ∧
      call ∈ callsOf 0 ((Machine.start program {}).history
        [.tick 0, .tick 1, .push "key", .push "next", .tick 2, .tick 3]) ∧
      call.length = 2 ∧ Pauses .pause Library.pauseMessage call := by
  obtain ⟨program, hparse, hcheck⟩ := Program.exists_of_any
    "TextWindow.Pause()\nx = TextWindow.Read()"
    (fun program => (callsOf 0 ((Machine.start program {}).history
      [.tick 0, .tick 1, .push "key", .push "next", .tick 2, .tick 3])).any
        (isResumedPause .pause 2))
    (by decide +kernel)
  obtain ⟨call, hmem, hcall⟩ := List.any_eq_true.1 hcheck
  obtain ⟨first, second, rfl, -, hpause⟩ := isCall_of_isResumedPause hcall
  exact ⟨program, _, hparse, hmem, rfl, pauses_of_mem_callsOf hmem rfl hpause⟩

/-- A program that pauses for its window, with a subroutine that hides it. -/
def hidingSource : String :=
  "TextWindow.Show()\nTextWindow.PauseIfVisible()\nx = TextWindow.Read()\n" ++
    "Sub hide\nTextWindow.Hide()\nEndSub"

/-- The window is hidden during the pause, and then two lines arrive. -/
def hidingMoves : List Move :=
  [.tick 0, .tick 1, .spawn 4, .tick 2, .push "key", .push "next", .tick 3, .tick 4]

/-- A pause that has waited for a key press and does not take it, since another thread has hidden
the window. The next call takes it in its place. -/
theorem pauseIfVisible_leaves_line : ∃ program first second,
    Program.parse hidingSource = .ok program ∧
      [first, second] ∈ callsOf 0 ((Machine.start program {}).history hidingMoves) ∧
      IsCall (.pause .pauseIfVisible) false [first, second] ∧
      second.before.queue.length = 2 ∧ linesOf [first, second] = [] ∧
      ((Machine.start program {}).after hidingMoves).world.store.get "x" = "key" := by
  obtain ⟨program, hparse, hcheck⟩ := Program.exists_of_any hidingSource
    (fun program =>
      (callsOf 0 ((Machine.start program {}).history hidingMoves)).any
        (fun call => isResumedPause .pauseIfVisible 2 call && (linesOf call).isEmpty) &&
      ((Machine.start program {}).after hidingMoves).world.store.get "x" == "key")
    (by decide +kernel)
  simp only [Bool.and_eq_true, beq_iff_eq, List.any_eq_true, List.isEmpty_iff] at hcheck
  obtain ⟨⟨call, hmem, hcall, hlines⟩, hstore⟩ := hcheck
  obtain ⟨first, second, rfl, hqueued, hpause⟩ := isCall_of_isResumedPause hcall
  exact ⟨program, first, second, hparse, hmem, hpause, hqueued, hlines, hstore⟩

end Machine

end SmallBasic
