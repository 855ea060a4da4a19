/-!
# The console

Where a program writes and where its input lines come from. Nothing here waits: a program asks
whether a line is there, and if not, its thread has to be parked.

A console either keeps what it shows, so that clearing it empties it, or is a stream. What was
written to a stream stays written. Unless its input is typed at a terminal, every line that is taken
appears as if it had been typed, and only a terminal is told to clear its screen.
-/

namespace SmallBasic

/-- What becomes of the text on a console. A stream may echo its input, and may lead to a
terminal. -/
inductive Console.Style where
  | screen
  | stream (echo terminal : Bool)
deriving DecidableEq, Repr

/-- What was written, and the input lines that nobody has taken yet. -/
structure Console where
  style : Console.Style := .screen
  output : String := ""
  pending : List String := []
  closed : Bool := false
  clears : Nat := 0
deriving DecidableEq, Repr

namespace Console

/-- Writes a text. -/
def write (console : Console) (text : String) : Console :=
  { console with output := console.output ++ text }

/-- What clears the screen of a terminal. -/
def clearSequence : String := "\x1b[2J\x1b[H"

/-- Clears the screen. -/
def clear (console : Console) : Console :=
  match console.style with
  | .screen => { console with output := "", clears := console.clears + 1 }
  | .stream _ terminal => if terminal then console.write clearSequence else console

/-- Adds an input line. -/
def push (console : Console) (line : String) : Console :=
  { console with pending := console.pending ++ [line] }

/-- No more input will come. -/
def close (console : Console) : Console := { console with closed := true }

/-- Whether taking a line would not have to wait. Once input is closed it never has to. -/
def isReady (console : Console) : Bool := !console.pending.isEmpty || console.closed

/-- Takes the next line, if there is one. A stream that echoes shows it. -/
def take (console : Console) : Option String × Console :=
  match console.pending with
  | [] => (none, console)
  | line :: rest =>
    let next := { console with pending := rest }
    (some line, match console.style with
      | .stream true _ => next.write (line ++ "\n")
      | _ => next)

/-- Takes so many lines and forgets them. -/
def drop (console : Console) : Nat → Console
  | 0 => console
  | count + 1 => console.take.2.drop count

end Console

end SmallBasic
