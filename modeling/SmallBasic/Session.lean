import SmallBasic.Machine
import SmallBasic.Program.Parse

/-!
# Whole runs

A session takes a source text to the end of its run. Time is counted, not measured: a tick takes ten
microseconds, and a tick in which every thread waits is followed by a rest.
-/

namespace SmallBasic

/-- Why a source did not run to its end. -/
inductive Failure where
  | source (errors : List SyntaxError)
  | fault (fault : Fault)
deriving Repr

def Failure.message : Failure → String
  | .source errors => "syntax errors:\n" ++ SyntaxError.messages errors
  | .fault reason => "runtime error: " ++ reason.message

/-- What a session leaves behind. -/
structure Session where
  console : Console
  failure? : Option Failure := none

namespace Session

/-- The pace of a session in which idle threads rest for so many milliseconds. -/
def pace (idle : Nat) : Pace := { tick := 10, idle }

/-- The number of ticks after which a session is given up. -/
def patience : Nat := 1000000000

/-- Runs a program. -/
def ofProgram (program : Program) (library : Library) (idle : Nat) : Session :=
  let run := (Machine.start program library).run (pace idle) patience 0
  { console := run.machine.world.library.console, failure? := run.fault?.map .fault }

/-- Runs a source text. -/
def ofSource (source : String) (library : Library) (idle : Nat) : Session :=
  match Program.parse source with
  | .ok program => ofProgram program library idle
  | .error errors => { console := library.console, failure? := some (.source errors) }

end Session

end SmallBasic
