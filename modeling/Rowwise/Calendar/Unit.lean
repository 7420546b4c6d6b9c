import Rowwise.Double.Decimal
import Rowwise.Text.Blank

/-!
# Rowwise.Calendar.Unit — units of the calendar

Units count time: those up to a day have a fixed length, the others are counted on the calendar.  A unit also names a
field of a date or a time, with the range of numbers that the field takes.
-/

namespace Rowwise

/-- Units of the calendar, from the shortest. -/
inductive DateUnit where
  | nanosecond
  | millisecond
  | second
  | minute
  | hour
  | day
  | week
  | month
  | year
deriving DecidableEq, Repr

namespace DateUnit

/-- All units. -/
def all : List DateUnit := [nanosecond, millisecond, second, minute, hour, day, week, month, year]

theorem mem_all (u : DateUnit) : u ∈ all := by cases u <;> decide

/-- The name of a unit. -/
def name : DateUnit → String
  | nanosecond => "nanosecond"
  | millisecond => "millisecond"
  | second => "second"
  | minute => "minute"
  | hour => "hour"
  | day => "day"
  | week => "week"
  | month => "month"
  | year => "year"

/-- The unit of that name, in any case and with blanks around it. -/
def named? (text : List Char) : Option DateUnit :=
  let wanted := Text.lowerAscii (Text.trim text)
  all.find? fun u => u.name.toList == wanted

/-- The length in nanoseconds of the units that have a fixed one. -/
def nanos? : DateUnit → Option Nat
  | nanosecond => some 1
  | millisecond => some 1000000
  | second => some 1000000000
  | minute => some 60000000000
  | hour => some 3600000000000
  | day => some 86400000000000
  | _ => none

/-- True for the units that times of day have, days among them if `days` is set. -/
def isOfDay (days : Bool) : DateUnit → Bool
  | nanosecond | millisecond | second | minute | hour => true
  | day => days
  | _ => false

/-- The numbers that the field of a unit takes; the days of a month may be fewer.  Months count from zero. -/
def range : DateUnit → Int × Int
  | nanosecond => (0, 999999999)
  | millisecond => (0, 999)
  | second => (0, 59)
  | minute => (0, 59)
  | hour => (0, 23)
  | day => (1, 31)
  | week => (1, 53)
  | month => (0, 11)
  | year => (-999999999, 999999999)

end DateUnit

/-- Why a calculation on dates or times fails. -/
inductive CalendarCause where
  /-- The result is not an instant that programs can hold. -/
  | outOfRange
  /-- The local time that the calculation starts from is not one that programs can hold: there is no going on from it. -/
  | noLocalTime
  /-- The field does not take this number. -/
  | badField (unit : DateUnit) (lo hi : Int) (value : Float)
  /-- The year has no such week. -/
  | noWeek (year : Int) (week : Int)
deriving DecidableEq, Repr

/-- The integer `value` if it is a whole number from `lo` to `hi`. -/
def fieldValue (unit : DateUnit) (lo hi : Int) (value : Float) : Except CalendarCause Int :=
  match Double.parts? value with
  | none => .error (.badField unit lo hi value)
  | some p =>
    if p.fraction = 0 ∧ lo ≤ p.toInt ∧ p.toInt ≤ hi then .ok p.toInt else .error (.badField unit lo hi value)

end Rowwise
