/-!
# Random numbers

Where random numbers come from is left open. Of the dice it is only known that they fall on one of
their sides; they may fall in any way each time.
-/

namespace SmallBasic

/-- Dice that have fallen `turn` times. In a turn with the sides zero to `last` they fall on one of
these. -/
structure Dice where
  falls : (turn last : Nat) → Fin (last + 1) := fun _ => Fin.last
  turn : Nat := 0

namespace Dice

/-- A number from one to `sides`, and the dice after it. With no sides the number is one. -/
def roll (dice : Dice) (sides : Nat) : Nat × Dice :=
  (dice.falls dice.turn (sides - 1) + 1, { dice with turn := dice.turn + 1 })

/-- The number is on one of the sides. -/
theorem roll_bounds (dice : Dice) {sides : Nat} (hsides : 0 < sides) :
    1 ≤ (dice.roll sides).1 ∧ (dice.roll sides).1 ≤ sides := by
  have hfall := (dice.falls dice.turn (sides - 1)).isLt
  constructor
  · exact Nat.le_add_left _ _
  · simp only [roll]
    omega

end Dice

end SmallBasic
