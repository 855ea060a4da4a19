import SmallBasic.Proofs.Hosting

/-!
# Piped runs

A program that is run by a command reads from a pipe. Its lines come through a channel, are polled
into a queue whenever the program looks for one, and are echoed when they are taken. A program that
is tested has all its lines in a buffer, and a screen that can be cleared.

The two cannot be told apart from inside. Both are seen as one stream: the pipe as it is, and the
buffer by what it was asked to do, which a recorder writes down. So the runs have the same threads,
the same variables and the same library, and what comes out of the pipe is what was written to the
buffer, with the lines that were taken from it in their places.

## Main definitions

* `Pipe` — a console on the input and the output of a process.
* `Recorder` — a console that writes down what it is asked to do.
* `transcript` — a record as a text.
* `HostedMachine.SameRun` — a run on a pipe against a run on a buffer.

## Main statements

* `Pipe.poll_eq` — what polling does to a pipe.
* `Pipe.views` — a pipe is a stream.
* `Recorder.views_stream` — a recorder is a stream with the transcript of its record.
* `HostedMachine.sameRun_after_start` — a run on a pipe is the run on a buffer.
-/

namespace SmallBasic

/-! ## Pipes -/

/-- What a look at a channel finds: a line, no line yet, or that none will come. -/
inductive Received where
  | line (text : String)
  | empty
  | disconnected
deriving DecidableEq, Repr

/-- A console on the input and the output of a process. `channel` holds the lines that were sent and
not received, in the order in which they were sent, and `connected` tells whether more may be
sent. -/
structure Pipe where
  channel : List String
  connected : Bool
  pending : List String := []
  closed : Bool := false
  echo : Bool
  terminal : Bool
  output : String := ""
deriving DecidableEq, Repr

namespace Pipe

/-- A pipe into which all lines have been sent. Input that is not typed at a terminal is echoed. -/
def ofLines (lines : List String) (inputTerminal outputTerminal : Bool) : Pipe :=
  { channel := lines, connected := false, echo := !inputTerminal, terminal := outputTerminal }

/-- Looks at the channel. That it is cut off is found only once it is empty. -/
def receive (pipe : Pipe) : Received × Pipe :=
  match pipe.channel with
  | line :: rest => (.line line, { pipe with channel := rest })
  | [] => (if pipe.connected then .empty else .disconnected, pipe)

theorem receive_cases {pipe next : Pipe} {received : Received}
    (hreceive : pipe.receive = (received, next)) :
    (∃ line rest, received = .line line ∧ pipe.channel = line :: rest ∧
        next = { pipe with channel := rest }) ∨
      received = (if pipe.connected then .empty else .disconnected) ∧ pipe.channel = [] ∧
        next = pipe := by
  unfold receive at hreceive
  cases hchannel : pipe.channel with
  | nil =>
    rw [hchannel] at hreceive
    obtain ⟨rfl, rfl⟩ := Prod.mk.inj hreceive
    exact .inr ⟨rfl, rfl, rfl⟩
  | cons line rest =>
    rw [hchannel] at hreceive
    obtain ⟨rfl, rfl⟩ := Prod.mk.inj hreceive
    exact .inl ⟨line, rest, rfl, rfl, rfl⟩

/-- Receives lines until there are no more. -/
def poll (pipe : Pipe) : Pipe :=
  match _hreceive : pipe.receive with
  | (.line line, next) => poll { next with pending := next.pending ++ [line] }
  | (.empty, next) => next
  | (.disconnected, next) => { next with closed := true }
termination_by pipe.channel.length
decreasing_by
  obtain ⟨_, rest, -, hchannel, rfl⟩ | ⟨hnone, -⟩ := receive_cases _hreceive
  · simp [hchannel]
  · split at hnone <;> cases hnone

def write (pipe : Pipe) (text : String) : Pipe := { pipe with output := pipe.output ++ text }

/-- Only a terminal is told to clear its screen. -/
def clear (pipe : Pipe) : Pipe :=
  if pipe.terminal then pipe.write Console.clearSequence else pipe

def available (pipe : Pipe) : Bool × Pipe :=
  let polled := pipe.poll
  (!polled.pending.isEmpty || polled.closed, polled)

def take (pipe : Pipe) : Option String × Pipe :=
  let polled := pipe.poll
  match polled.pending with
  | [] => (none, polled)
  | line :: rest =>
    let next := { polled with pending := rest }
    (some line, if polled.echo then next.write (line ++ "\n") else next)

/-- What polling does: it takes in all that the channel holds, and notices that it is cut off. -/
theorem poll_eq (pipe : Pipe) :
    pipe.poll = { pipe with
      channel := [], pending := pipe.pending ++ pipe.channel,
      closed := pipe.closed || !pipe.connected } := by
  fun_induction poll pipe with
  | case1 pipe line next hreceive ih =>
    obtain ⟨_, rest, ⟨rfl⟩, hchannel, rfl⟩ | ⟨hnone, -⟩ := receive_cases hreceive
    · simp [ih, hchannel]
    · split at hnone <;> cases hnone
  | case2 pipe next hreceive =>
    obtain ⟨_, _, hline, -⟩ | ⟨hempty, hchannel, rfl⟩ := receive_cases hreceive
    · cases hline
    · cases next
      grind
  | case3 pipe next hreceive =>
    obtain ⟨_, _, hline, -⟩ | ⟨hcut, hchannel, rfl⟩ := receive_cases hreceive
    · cases hline
    · cases next
      grind

/-- The lines that can still be taken. -/
def lines (pipe : Pipe) : List String := pipe.pending ++ pipe.channel

/-- A pipe is a stream. Where its lines are makes no difference. -/
def view (pipe : Pipe) : Console where
  style := .stream pipe.echo pipe.terminal
  output := pipe.output
  pending := pipe.lines
  closed := pipe.closed || !pipe.connected

theorem view_poll (pipe : Pipe) : pipe.poll.view = pipe.view := by
  simp [poll_eq, view, lines]

theorem take_of_nil {pipe : Pipe} (hlines : pipe.lines = []) : pipe.take = (none, pipe.poll) := by
  have hpending : pipe.poll.pending = [] := by rw [poll_eq]; exact hlines
  simp [take, hpending]

theorem take_of_cons {pipe : Pipe} {line : String} {rest : List String}
    (hlines : pipe.lines = line :: rest) :
    pipe.take = (some line,
      let next := { pipe.poll with pending := rest }
      if pipe.echo then next.write (line ++ "\n") else next) := by
  have hpending : pipe.poll.pending = line :: rest := by rw [poll_eq]; exact hlines
  have hecho : pipe.poll.echo = pipe.echo := by rw [poll_eq]
  simp [take, hpending, hecho]

instance : Host Pipe where
  write := write
  clear := clear
  available := available
  take := take
  backlog pipe := pipe.lines.length
  backlog_available pipe := by simp [available, poll_eq, lines]
  backlog_take := by
    intro pipe htake
    cases hlines : pipe.lines with
    | nil => simp [take_of_nil hlines] at htake
    | cons line rest =>
      rw [take_of_cons hlines, poll_eq]
      dsimp only
      split <;> simp [lines, write]

theorem views : Host.Views view where
  write _ _ := rfl
  clear pipe := by
    simp only [Host.clear, clear, Console.clear, view]
    split <;> rfl
  available pipe := by simp [Host.available, available, poll_eq, Console.isReady, view, lines]
  asked pipe := pipe.view_poll
  line pipe := by
    change pipe.take.1 = pipe.view.take.1
    cases hlines : pipe.lines with
    | nil => simp [take_of_nil hlines, Console.take_fst, view, hlines]
    | cons line rest => simp [take_of_cons hlines, Console.take_fst, view, hlines]
  taken pipe := by
    change pipe.take.2.view = pipe.view.take.2
    have hpending : pipe.view.pending = pipe.lines := rfl
    cases hlines : pipe.lines with
    | nil => simp [take_of_nil hlines, view_poll, Console.take, hpending, hlines]
    | cons line rest =>
      rw [take_of_cons hlines, poll_eq]
      simp only [Console.take, hpending, hlines]
      cases hecho : pipe.echo <;> simp [view, hecho, write, Console.write, lines]

end Pipe

/-! ## Recorders -/

/-- What a console is asked to do that can be heard of outside. -/
inductive Act where
  | wrote (text : String)
  | took (line : String)
  | cleared
deriving DecidableEq, Repr

/-- What a stream shows of an act. A line that is taken appears as if it had been typed, and that
the screen was cleared does not appear. -/
def Act.shown : Act → String
  | .wrote text => text
  | .took line => line ++ "\n"
  | .cleared => ""

/-- A record as a text. -/
def transcript (record : List Act) : String := String.join (record.map Act.shown)

theorem transcript_append (record : List Act) (act : Act) :
    transcript (record ++ [act]) = transcript record ++ act.shown := by
  simp [transcript, String.join]

/-- A console with a record of what it was asked to do, in order. -/
structure Recorder where
  console : Console
  record : List Act := []
deriving DecidableEq, Repr

/-- The console of a buffer that has been filled with lines and closed. -/
def Console.ofLines (lines : List String) : Console := (lines.foldl push {}).close

theorem Console.ofLines_eq (lines : List String) :
    ofLines lines = { pending := lines, closed := true } := by
  have hpush (console : Console) (lines : List String) :
      lines.foldl push console = { console with pending := console.pending ++ lines } := by
    induction lines generalizing console with
    | nil => simp
    | cons line lines ih => simp [ih, push]
  simp [ofLines, hpush, close]

namespace Recorder

def write (recorder : Recorder) (text : String) : Recorder :=
  ⟨recorder.console.write text, recorder.record ++ [.wrote text]⟩

def clear (recorder : Recorder) : Recorder :=
  ⟨recorder.console.clear, recorder.record ++ [.cleared]⟩

def take (recorder : Recorder) : Option String × Recorder :=
  let (line?, console) := recorder.console.take
  (line?, ⟨console, recorder.record ++ line?.toList.map .took⟩)

instance : Host Recorder where
  write := write
  clear := clear
  available recorder := (recorder.console.isReady, recorder)
  take := take
  backlog recorder := recorder.console.pending.length
  backlog_available recorder := le_rfl
  backlog_take := by
    intro recorder htake
    have hline : recorder.console.take.1 ≠ none := htake
    change recorder.console.take.2.pending.length < recorder.console.pending.length
    rw [Console.take_fst] at hline
    rw [Console.pending_take]
    cases hpending : recorder.console.pending with
    | nil => simp [hpending] at hline
    | cons line rest => simp

/-- A recorder is the console that it records. -/
theorem views_console : Host.Views console where
  write _ _ := rfl
  clear _ := rfl
  available _ := rfl
  asked _ := rfl
  line _ := rfl
  taken _ := rfl

/-- A stream that shows the record. -/
def stream (recorder : Recorder) : Console where
  style := .stream true false
  output := transcript recorder.record
  pending := recorder.console.pending
  closed := recorder.console.closed

/-- A recorder is a stream as well, whatever its console does with what is written. -/
theorem views_stream : Host.Views stream where
  write recorder text := by
    simp [Host.write, write, stream, Console.write, transcript_append, Act.shown]
  clear recorder := by
    change stream ⟨recorder.console.clear, recorder.record ++ [.cleared]⟩ = recorder.stream
    simp [stream, transcript_append, Act.shown, Console.pending_clear, Library.closed_clear]
  available _ := rfl
  asked _ := rfl
  line recorder := by
    change recorder.console.take.1 = recorder.stream.take.1
    rw [Console.take_fst, Console.take_fst]
    rfl
  taken recorder := by
    change stream ⟨recorder.console.take.2, recorder.record ++
      recorder.console.take.1.toList.map .took⟩ = recorder.stream.take.2
    rw [stream, Console.take_fst, Console.pending_take, Library.closed_take]
    cases hlines : recorder.console.pending with
    | nil => simp [Console.take, hlines, stream]
    | cons line rest =>
      simp [Console.take, hlines, stream, transcript_append, Act.shown, Console.write]

end Recorder

/-! ## Runs -/

namespace HostedMachine

/-- How a machine on a pipe, a machine on a recorder and a machine with a buffer stand to each other
at the end of the same run. -/
structure SameRun (piped : HostedMachine Pipe) (recorded : HostedMachine Recorder)
    (buffered : Machine) : Prop where
  /-- The recorder records what is done with the buffer, and changes nothing. -/
  records : recorded.seen Recorder.console = buffered
  threads : piped.machine.threads = buffered.threads
  nextId : piped.machine.nextId = buffered.nextId
  ended : piped.machine.ended = buffered.ended
  store : piped.machine.world.store = buffered.world.store
  /-- The libraries differ in their consoles only. -/
  library : piped.machine.world.library.withConsole buffered.world.library.console =
    buffered.world.library
  /-- The same lines are left. -/
  lines : piped.host.lines = buffered.world.library.console.pending
  /-- What has come out of the pipe is what was written to the buffer, with the lines that were
  taken in their places. -/
  output : piped.host.output = transcript recorded.host.record
  /-- The next tick reports the same, whenever it is made. -/
  report : ∀ now, (piped.tick now).1 = (buffered.tick now).1

theorem seen_start {κ : Type} (view : κ → Console) (program : Program) (library : Library)
    (host : κ) :
    (start program library host).seen view =
      Machine.start program (library.withConsole (view host)) := by
  unfold start seen Machine.start
  split <;> rfl

/-- Two machines that are seen alike have the same state but for their consoles. -/
theorem sameRun_of_seen {piped : HostedMachine Pipe} {recorded : HostedMachine Recorder}
    (hseen : piped.seen Pipe.view = recorded.seen Recorder.stream) :
    piped.SameRun recorded (recorded.seen Recorder.console) := by
  have hconsole : piped.host.view = recorded.host.stream :=
    congrArg (·.world.library.console) hseen
  constructor
  case records => rfl
  case threads => exact congrArg (·.threads) hseen
  case nextId => exact congrArg (·.nextId) hseen
  case ended => exact congrArg (·.ended) hseen
  case store => exact congrArg (·.world.store) hseen
  case library =>
    exact congrArg (·.world.library.withConsole recorded.host.console) hseen
  case lines => exact congrArg Console.pending hconsole
  case output => exact congrArg Console.output hconsole
  case report =>
    intro now
    have hpiped := congrArg Prod.fst (seen_tick Pipe.views piped now)
    have hstream := congrArg Prod.fst (seen_tick Recorder.views_stream recorded now)
    have hbuffer := congrArg Prod.fst (seen_tick Recorder.views_console recorded now)
    rw [hseen, ← hstream] at hpiped
    exact hpiped.trans hbuffer

/-- A run on a pipe is the run on a buffer, in all that can be seen of it and at every instant. The
pipe has been filled and cut off before the first tick, and neither its input nor its output is a
terminal; a stream with the same lines makes this run as well. -/
theorem sameRun_after_start (program : Program) (library : Library) (lines : List String)
    (instants : List Nat) :
    let piped := (start program library (Pipe.ofLines lines false false)).after instants
    let recorded := (start program library ⟨Console.ofLines lines, []⟩).after instants
    let run := fun console =>
      (Machine.start program (library.withConsole console)).after (instants.map .tick)
    piped.SameRun recorded (run (Console.ofLines lines)) ∧
      piped.seen Pipe.view =
        run { style := .stream true false, pending := lines, closed := true } := by
  intro piped recorded run
  have hpiped : piped.seen Pipe.view =
      run { style := .stream true false, pending := lines, closed := true } := by
    rw [seen_after Pipe.views, seen_start]
    rfl
  have hstream : recorded.seen Recorder.stream =
      run { style := .stream true false, pending := lines, closed := true } := by
    rw [seen_after Recorder.views_stream, seen_start, Console.ofLines_eq]
    rfl
  have hbuffer : recorded.seen Recorder.console = run (Console.ofLines lines) := by
    rw [seen_after Recorder.views_console, seen_start]
  exact ⟨hbuffer ▸ sameRun_of_seen (hpiped.trans hstream.symm), hpiped⟩

end HostedMachine

end SmallBasic
