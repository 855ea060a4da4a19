import SmallBasic.Number.Decimal

/-!
# The timer

A periodic source of events. The timer counts a full interval from the moment it is started, and
again from the moment it is found due; a late look at it finds one tick, however many intervals have
passed.

Intervals are in milliseconds, and instants in a unit of their own, of which a millisecond can have
any number.
-/

namespace SmallBasic

/-- An interval, the instant of the next tick unless paused, and the statement to run at a tick. A
millisecond takes `resolution` instants. -/
structure Timer where
  resolution : Nat := 1
  interval : Nat := 100000000
  due? : Option Nat := none
  handler? : Option Nat := none
deriving DecidableEq, Repr

namespace Timer

def minInterval : Nat := 10

def maxInterval : Nat := 100000000

/-- How many instants so many milliseconds take. -/
def span (timer : Timer) (milliseconds : Nat) : Nat := timer.resolution * milliseconds

/-- How many instants the interval takes. -/
def period (timer : Timer) : Nat := timer.span timer.interval

/-- Counts a full interval from `now`. -/
def resume (timer : Timer) (now : Nat) : Timer := { timer with due? := some (now + timer.period) }

/-- Stops ticking. -/
def pause (timer : Timer) : Timer := { timer with due? := none }

/-- The interval that a text asks for: its whole part, within the limits. A text that is no number
asks for the shortest interval. -/
def intervalOf (value : String) : Nat :=
  match Number.ofText? value with
  | some ms => max minInterval (ms.toCount maxInterval)
  | none => minInterval

/-- Sets the interval and starts anew. -/
def setInterval (timer : Timer) (value : String) (now : Nat) : Timer :=
  { timer with interval := intervalOf value }.resume now

/-- Sets what runs at a tick. -/
def bind (timer : Timer) (handler : Nat) : Timer := { timer with handler? := some handler }

/-- Whether the timer can still start something. -/
def isLive (timer : Timer) : Bool := timer.due?.isSome && timer.handler?.isSome

/-- What to run at `now`. If a tick is due, the next one is a full interval away. -/
def poll (timer : Timer) (now : Nat) : Option Nat × Timer :=
  match timer.due? with
  | none => (none, timer)
  | some due => if now < due then (none, timer) else (timer.handler?, timer.resume now)

end Timer

end SmallBasic
