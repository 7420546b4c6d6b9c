/-!
# Rowwise.Calendar.Date — days and their civil names

A date is a count of days since 1970-01-01 in the proleptic Gregorian calendar.  `civil` gives its year, month and day,
`ofCivil` goes back; ordinals, weekdays and week numbers are read off the count.  Dates that programs can hold lie in
`Date.inRange`, from January of the year -262143 to December of the year 262142.
-/

namespace Rowwise

/-- A day, counted from 1970-01-01. -/
structure Date where
  day : Int
deriving DecidableEq, Repr

/-- Year, month from 1 and day from 1. -/
structure Civil where
  year : Int
  month : Nat
  dayOfMonth : Nat
deriving DecidableEq, Repr

/-- Leap years: every fourth, of the centuries every fourth. -/
def isLeap (year : Int) : Bool := year % 4 == 0 && (year % 100 != 0 || year % 400 == 0)

/-- The number of days of a year. -/
def daysInYear (year : Int) : Nat := if isLeap year then 366 else 365

/-- The number of days of a month from 1 to 12. -/
def daysInMonth (year : Int) (month : Nat) : Nat :=
  if month = 2 then (if isLeap year then 29 else 28)
  else if month = 4 ∨ month = 6 ∨ month = 9 ∨ month = 11 then 30
  else 31

/-- True if the calendar has this day. -/
def Civil.isValid (c : Civil) : Bool :=
  1 ≤ c.month && c.month ≤ 12 && 1 ≤ c.dayOfMonth && c.dayOfMonth ≤ daysInMonth c.year c.month

/-! ### Weekdays -/

/-- The days of the week. -/
inductive Weekday where
  | monday
  | tuesday
  | wednesday
  | thursday
  | friday
  | saturday
  | sunday
deriving DecidableEq, Repr

namespace Weekday

/-- Days since the last Monday. -/
def fromMonday : Weekday → Nat
  | monday => 0
  | tuesday => 1
  | wednesday => 2
  | thursday => 3
  | friday => 4
  | saturday => 5
  | sunday => 6

/-- The weekday `n` days after a Monday. -/
def ofMonday (n : Nat) : Weekday :=
  match n % 7 with
  | 0 => monday
  | 1 => tuesday
  | 2 => wednesday
  | 3 => thursday
  | 4 => friday
  | 5 => saturday
  | _ => sunday

/-- Days since the last Sunday. -/
def fromSunday (w : Weekday) : Nat := (w.fromMonday + 1) % 7

/-- Days from the last `start` to this weekday. -/
def since (w start : Weekday) : Nat := (w.fromMonday + 7 - start.fromMonday) % 7

end Weekday

namespace Date

/-! ### Days and their names -/

/-- Years are counted from March, so that the leap day ends a year: the day number of March 1 of the year `y`. -/
def marchFirst (y : Int) : Int := 365 * y + y / 4 - y / 100 + y / 400 - 719468

/-- Days from March 1 to the first day of the month `m` months after March. -/
def daysBeforeMonth (m : Nat) : Nat := (153 * m + 2) / 5

/-- The date with these names; meant for valid ones. -/
def ofCivil (c : Civil) : Date :=
  let y := if c.month ≤ 2 then c.year - 1 else c.year
  ⟨marchFirst y + (daysBeforeMonth ((c.month + 9) % 12) : Nat) + (c.dayOfMonth : Int) - 1⟩

/-- Year, month and day of a date. -/
def civil (d : Date) : Civil :=
  let z := d.day + 719468
  let era := z / 146097
  let dayOfEra := (z % 146097).toNat
  let yearOfEra := (dayOfEra - dayOfEra / 1460 + dayOfEra / 36524 - dayOfEra / 146096) / 365
  let dayOfYear := dayOfEra - (365 * yearOfEra + yearOfEra / 4 - yearOfEra / 100)
  let m := (5 * dayOfYear + 2) / 153
  let month := if m < 10 then m + 3 else m - 9
  let year := (yearOfEra : Int) + era * 400
  ⟨if month ≤ 2 then year + 1 else year, month, dayOfYear - daysBeforeMonth m + 1⟩

/-- The year. -/
def year (d : Date) : Int := d.civil.year

/-- The month, from 1. -/
def month (d : Date) : Nat := d.civil.month

/-- The day of the month, from 1. -/
def dayOfMonth (d : Date) : Nat := d.civil.dayOfMonth

/-- January 1 of a year. -/
def newYear (year : Int) : Date := ofCivil ⟨year, 1, 1⟩

/-- The day of the year, from 1. -/
def ordinal (d : Date) : Nat := (d.day - (newYear d.year).day + 1).toNat

/-- The quarter of the year, from 1. -/
def quarter (d : Date) : Nat := (d.month + 2) / 3

/-- The day of the week. -/
def weekday (d : Date) : Weekday := Weekday.ofMonday ((d.day + 3) % 7).toNat

/-! ### Range -/

/-- The first date. -/
def first : Date := newYear (-262143)

/-- The last date. -/
def last : Date := ofCivil ⟨262142, 12, 31⟩

/-- True for the dates that programs can hold. -/
def inRange (d : Date) : Bool := first.day ≤ d.day && d.day ≤ last.day

/-- The date itself if it is in range. -/
def checked (d : Date) : Option Date := if d.inRange then some d else none

/-- The date with these names, if the calendar and the range have it. -/
def ofCivil? (year : Int) (month dayOfMonth : Nat) : Option Date :=
  let c : Civil := ⟨year, month, dayOfMonth⟩
  if c.isValid then (ofCivil c).checked else none

/-- The day `ordinal` of a year, from 1. -/
def ofOrdinal? (year : Int) (ordinal : Nat) : Option Date :=
  if 1 ≤ ordinal ∧ ordinal ≤ daysInYear year then (⟨(newYear year).day + ordinal - 1⟩ : Date).checked else none

/-- The date `n` days later. -/
def addDays (d : Date) (n : Int) : Date := ⟨d.day + n⟩

/-- The date `n` days later, if it is in range. -/
def addDays? (d : Date) (n : Int) : Option Date := (d.addDays n).checked

/-- The number of months since the start of the year 0. -/
def monthIndex (d : Date) : Int := d.year * 12 + d.month - 1

/-- The same day `n` months later, or the last one of that month if it is shorter. -/
def addMonths? (d : Date) (n : Int) : Option Date :=
  let index := d.monthIndex + n
  let year := index / 12
  let month := (index % 12).toNat + 1
  ofCivil? year month (min d.dayOfMonth (daysInMonth year month))

/-- The length of a month, if its first day and the first day of the next month are in range. -/
def monthLength? (year : Int) (month : Nat) : Option Nat := do
  let d ← ofCivil? year month 1
  let next ← d.addMonths? 1
  return (next.day - d.day).toNat

/-- The date in that month with the day given or, if the month is shorter, its last day. -/
def clamped? (year : Int) (month dayOfMonth : Nat) : Option Date := do
  ofCivil? year month (min dayOfMonth (← monthLength? year month))

/-! ### Weeks -/

/-- The Thursday of the week that starts on Monday: its year and ordinal name the week. -/
def thursday (d : Date) : Date := d.addDays (3 - d.weekday.fromMonday)

/-- The year that the week belongs to. -/
def weekYear (d : Date) : Int := d.thursday.year

/-- The number of the week in its year, from 1. -/
def week (d : Date) : Nat := (d.thursday.ordinal - 1) / 7 + 1

/-- The Monday of the first week of a year: the week of January 4. -/
def firstMonday (year : Int) : Date :=
  let d := ofCivil ⟨year, 1, 4⟩
  d.addDays (-(d.weekday.fromMonday : Int))

/-- The number of weeks of a year. -/
def weeksInYear (year : Int) : Nat := (ofCivil ⟨year, 12, 28⟩).week

/-- The weekday of a week of a year. -/
def ofWeek? (year : Int) (week : Nat) (weekday : Weekday) : Option Date :=
  if 1 ≤ week ∧ week ≤ weeksInYear year then
    ((firstMonday year).addDays (7 * ((week : Int) - 1) + weekday.fromMonday)).checked
  else none

/-- The number of weeks of the year that have begun on `start`: days before the first `start` are in week 0. -/
def weeksFrom (d : Date) (start : Weekday) : Nat := (d.ordinal + 6 - d.weekday.since start) / 7

/-- The weekday in week `week` of the year, counted by `weeksFrom start`.  The outcome tells a week number that no year
has from a day that this year has not. -/
def ofWeeksFrom? (year : Int) (week : Nat) (weekday start : Weekday) : Option Date := do
  let jan1 ← ofOrdinal? year 1
  let ordinal := 1 + (start.since jan1.weekday : Int) + ((week : Int) - 1) * 7 + weekday.since start
  if ordinal ≤ 0 then none else ofOrdinal? year ordinal.toNat

end Date

end Rowwise
