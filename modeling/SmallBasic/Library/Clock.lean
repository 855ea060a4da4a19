import SmallBasic.Catalogue.Basic

/-!
# The clock

What the clock shows is left open. Time goes on while a program runs, so that it may show something
else each time it is read, also within one tick.
-/

namespace SmallBasic

/-- A clock that has been read `turn` times, and what it shows in a turn, at an instant. -/
structure Clock where
  shows : (turn now : Nat) → ClockField → String := fun _ _ _ => ""
  turn : Nat := 0

namespace Clock

/-- The text of a field when it is read at an instant. -/
def read (clock : Clock) (now : Nat) (field : ClockField) : String :=
  clock.shows clock.turn now field

/-- The clock after it was read. -/
def next (clock : Clock) : Clock := { clock with turn := clock.turn + 1 }

end Clock

end SmallBasic
