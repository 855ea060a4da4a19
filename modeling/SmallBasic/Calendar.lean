import SmallBasic.Library.Clock

/-!
# Date and time of day

The calendar fields of an instant, and their texts. Days are counted in cycles of 400 years that
begin in March, so that a leap day is the last day of its year. The command sets the clock of a
program by the calendar.
-/

namespace SmallBasic

/-- A date and a time of day. The days of the week count from Sunday. -/
structure Moment where
  year : Nat
  month : Nat
  day : Nat
  weekDay : Nat
  hour : Nat
  minute : Nat
  second : Nat
  millisecond : Nat
deriving DecidableEq, Repr

namespace Moment

/-- The moment so many milliseconds after the start of 1970. -/
def ofMillis (millis : Nat) : Moment :=
  let days := millis / 86400000
  let shifted := days + 719468
  let cycleDay := shifted % 146097
  let cycleYear := (cycleDay - cycleDay / 1460 + cycleDay / 36524 - cycleDay / 146096) / 365
  let yearDay := cycleDay - (365 * cycleYear + cycleYear / 4 - cycleYear / 100)
  let monthIndex := (5 * yearDay + 2) / 153
  let month := if monthIndex < 10 then monthIndex + 3 else monthIndex - 9
  { year := shifted / 146097 * 400 + cycleYear + (if month ≤ 2 then 1 else 0)
    month
    day := yearDay - (153 * monthIndex + 2) / 5 + 1
    weekDay := (days + 4) % 7
    hour := millis / 3600000 % 24
    minute := millis / 60000 % 60
    second := millis / 1000 % 60
    millisecond := millis % 1000 }

/-- A number with zeros before it up to a width. -/
def padded (width n : Nat) : String :=
  String.ofList (List.replicate (width - n.repr.length) '0') ++ n.repr

/-- The names of the days of the week. -/
def weekDays : List String :=
  ["Sunday", "Monday", "Tuesday", "Wednesday", "Thursday", "Friday", "Saturday"]

/-- Month, day and year, separated by slashes. -/
def dateText (m : Moment) : String :=
  padded 2 m.month ++ "/" ++ padded 2 m.day ++ "/" ++ padded 4 m.year

/-- Time of day on a twelve hour clock. -/
def timeText (m : Moment) : String :=
  padded 2 ((m.hour + 11) % 12 + 1) ++ ":" ++ padded 2 m.minute ++ ":" ++ padded 2 m.second ++
    (if m.hour < 12 then " AM" else " PM")

end Moment

/-- The wall clock at instant zero: milliseconds since the start of 1970, in universal and in local
time. -/
structure WallClock where
  universalTime : Nat := 0
  localTime : Nat := 0
deriving DecidableEq, Repr

namespace WallClock

/-- Milliseconds from the start of 1900 to the start of 1970. -/
def since1900 : Nat := 2208988800000

/-- The text of a clock field at an instant, which counts milliseconds. -/
def read (clock : WallClock) (now : Nat) (field : ClockField) : String :=
  let moment := Moment.ofMillis (clock.localTime + now)
  match field with
  | .date => moment.dateText
  | .time => moment.timeText
  | .year => moment.year.repr
  | .month => moment.month.repr
  | .day => moment.day.repr
  | .weekDay => Moment.weekDays.getD moment.weekDay ""
  | .hour => moment.hour.repr
  | .minute => moment.minute.repr
  | .second => moment.second.repr
  | .millisecond => moment.millisecond.repr
  | .elapsedMilliseconds => (clock.universalTime + now + since1900).repr

/-- A clock that shows the wall clock at the beginning of each tick. -/
instance : Coe WallClock Clock where
  coe clock := { shows := fun _ => clock.read }

end WallClock

end SmallBasic
