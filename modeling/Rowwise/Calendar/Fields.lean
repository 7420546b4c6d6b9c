import Rowwise.Calendar.Instant

/-!
# Rowwise.Calendar.Fields — what is known of a date and time that is being read

Fields collect what a text says about a date and time.  A field that is said twice must be said the same way.  `date`,
`time`, `wall` and `instant` work out the whole from any sufficient set of fields and check the others against it.
-/

namespace Rowwise

/-- Why a date or time cannot be worked out. -/
inductive Unreadable where
  /-- The text does not follow the pattern. -/
  | mismatch
  /-- Two fields contradict each other. -/
  | contradiction
  /-- A number is not one that its field has. -/
  | outOfRange
  /-- Too little is known. -/
  | insufficient
deriving DecidableEq, Repr

/-- The fields read so far. -/
structure Fields where
  year : Option Int := none
  century : Option Int := none
  yearOfCentury : Option Int := none
  weekYear : Option Int := none
  weekYearOfCentury : Option Int := none
  quarter : Option Int := none
  month : Option Int := none
  dayOfMonth : Option Int := none
  weekFromSunday : Option Int := none
  weekFromMonday : Option Int := none
  week : Option Int := none
  weekday : Option Weekday := none
  ordinal : Option Int := none
  /-- True from noon on. -/
  afternoon : Option Bool := none
  /-- The hour of its half of the day, from 0 to 11. -/
  hourOfHalf : Option Int := none
  minute : Option Int := none
  second : Option Int := none
  nanosecond : Option Int := none
  timestamp : Option Int := none
  offset : Option Int := none
deriving DecidableEq, Repr

namespace Fields

/-- The field with a new value, which must agree with an old one. -/
def agree {α : Type} [DecidableEq α] (old : Option α) (new : α) : Except Unreadable (Option α) :=
  match old with
  | none => .ok (some new)
  | some v => if v = new then .ok (some new) else .error .contradiction

/-- Refuses numbers outside a range. -/
def within (lo hi n : Int) : Except Unreadable Unit := if lo ≤ n ∧ n ≤ hi then .ok () else .error .outOfRange

/-- The greatest number that years and offsets may have. -/
def maxSmall : Int := 2147483647

/-! ### Setting single fields -/

/-- Sets the year. -/
def setYear (f : Fields) (n : Int) : Except Unreadable Fields := do
  within (-maxSmall - 1) maxSmall n
  return { f with year := ← agree f.year n }

/-- Sets the year without its last two digits. -/
def setCentury (f : Fields) (n : Int) : Except Unreadable Fields := do
  within 0 maxSmall n
  return { f with century := ← agree f.century n }

/-- Sets the last two digits of the year. -/
def setYearOfCentury (f : Fields) (n : Int) : Except Unreadable Fields := do
  within 0 99 n
  return { f with yearOfCentury := ← agree f.yearOfCentury n }

/-- Sets the year that the week belongs to. -/
def setWeekYear (f : Fields) (n : Int) : Except Unreadable Fields := do
  within (-maxSmall - 1) maxSmall n
  return { f with weekYear := ← agree f.weekYear n }

/-- Sets the last two digits of the year that the week belongs to. -/
def setWeekYearOfCentury (f : Fields) (n : Int) : Except Unreadable Fields := do
  within 0 99 n
  return { f with weekYearOfCentury := ← agree f.weekYearOfCentury n }

/-- Sets the quarter. -/
def setQuarter (f : Fields) (n : Int) : Except Unreadable Fields := do
  within 1 4 n
  return { f with quarter := ← agree f.quarter n }

/-- Sets the month. -/
def setMonth (f : Fields) (n : Int) : Except Unreadable Fields := do
  within 1 12 n
  return { f with month := ← agree f.month n }

/-- Sets the day of the month. -/
def setDayOfMonth (f : Fields) (n : Int) : Except Unreadable Fields := do
  within 1 31 n
  return { f with dayOfMonth := ← agree f.dayOfMonth n }

/-- Sets the number of Sundays that the year has had. -/
def setWeekFromSunday (f : Fields) (n : Int) : Except Unreadable Fields := do
  within 0 53 n
  return { f with weekFromSunday := ← agree f.weekFromSunday n }

/-- Sets the number of Mondays that the year has had. -/
def setWeekFromMonday (f : Fields) (n : Int) : Except Unreadable Fields := do
  within 0 53 n
  return { f with weekFromMonday := ← agree f.weekFromMonday n }

/-- Sets the number of the week. -/
def setWeek (f : Fields) (n : Int) : Except Unreadable Fields := do
  within 1 53 n
  return { f with week := ← agree f.week n }

/-- Sets the weekday. -/
def setWeekday (f : Fields) (w : Weekday) : Except Unreadable Fields := do
  return { f with weekday := ← agree f.weekday w }

/-- Sets the weekday by its distance from Sunday. -/
def setDaysFromSunday (f : Fields) (n : Int) : Except Unreadable Fields := do
  within 0 6 n
  setWeekday f (.ofMonday (n.toNat + 6))

/-- Sets the weekday by its number, Monday being 1. -/
def setDayOfWeek (f : Fields) (n : Int) : Except Unreadable Fields := do
  within 1 7 n
  setWeekday f (.ofMonday (n.toNat + 6))

/-- Sets the day of the year. -/
def setOrdinal (f : Fields) (n : Int) : Except Unreadable Fields := do
  within 1 366 n
  return { f with ordinal := ← agree f.ordinal n }

/-- Sets the half of the day. -/
def setAfternoon (f : Fields) (b : Bool) : Except Unreadable Fields := do
  return { f with afternoon := ← agree f.afternoon b }

/-- Sets the hour of a twelve-hour clock. -/
def setHour12 (f : Fields) (n : Int) : Except Unreadable Fields := do
  within 1 12 n
  return { f with hourOfHalf := ← agree f.hourOfHalf (n % 12) }

/-- Sets the hour. -/
def setHour (f : Fields) (n : Int) : Except Unreadable Fields := do
  within 0 23 n
  let f := { f with afternoon := ← agree f.afternoon (decide (12 ≤ n)) }
  return { f with hourOfHalf := ← agree f.hourOfHalf (n % 12) }

/-- Sets the minute. -/
def setMinute (f : Fields) (n : Int) : Except Unreadable Fields := do
  within 0 59 n
  return { f with minute := ← agree f.minute n }

/-- Sets the second, which is 60 in a leap second. -/
def setSecond (f : Fields) (n : Int) : Except Unreadable Fields := do
  within 0 60 n
  return { f with second := ← agree f.second n }

/-- Sets the nanoseconds of the second. -/
def setNanosecond (f : Fields) (n : Int) : Except Unreadable Fields := do
  within 0 999999999 n
  return { f with nanosecond := ← agree f.nanosecond n }

/-- Sets the seconds since 1970. -/
def setTimestamp (f : Fields) (n : Int) : Except Unreadable Fields := do
  return { f with timestamp := ← agree f.timestamp n }

/-- Sets the offset from UTC in seconds. -/
def setOffset (f : Fields) (n : Int) : Except Unreadable Fields := do
  within (-maxSmall - 1) maxSmall n
  return { f with offset := ← agree f.offset n }

/-! ### Working out the whole -/

/-- The year that a year, a century and a year of a century give together.  A year of a century alone lies between 1970
and 2069. -/
def resolveYear (year century yearOfCentury : Option Int) : Except Unreadable (Option Int) :=
  match year, century, yearOfCentury with
  | y, none, none => .ok y
  | some y, q, r =>
    if y < 0 then .error .contradiction
    else if q.getD (y / 100) = y / 100 ∧ r.getD (y % 100) = y % 100 then .ok (some y)
    else .error .contradiction
  | none, some q, some r => if q * 100 + r ≤ maxSmall then .ok (some (q * 100 + r)) else .error .outOfRange
  | none, none, some r => .ok (some (r + if r < 70 then 2000 else 1900))
  | none, some _, none => .error .insufficient

/-- True if a field is absent or has this value. -/
def fits {α : Type} [DecidableEq α] (field : Option α) (value : α) : Bool :=
  match field with
  | none => true
  | some v => v = value

/-- True if century and year of the century are those of a year; years before 0 have neither. -/
def fitsCentury (year : Int) (century yearOfCentury : Option Int) : Bool :=
  if 0 ≤ year then fits century (year / 100) && fits yearOfCentury (year % 100)
  else century.isNone && yearOfCentury.isNone

/-- True if year, month and day are those of the date. -/
def fitsCivil (f : Fields) (d : Date) : Bool :=
  fits f.year d.year && fitsCentury d.year f.century f.yearOfCentury && fits f.month d.month &&
    fits f.dayOfMonth d.dayOfMonth

/-- True if week and weekday are those of the date. -/
def fitsWeek (f : Fields) (d : Date) : Bool :=
  fits f.weekYear d.weekYear && fitsCentury d.weekYear none f.weekYearOfCentury && fits f.week d.week &&
    fits f.weekday d.weekday

/-- True if the day and the weeks of the year are those of the date. -/
def fitsOrdinal (f : Fields) (d : Date) : Bool :=
  fits f.ordinal d.ordinal && fits f.weekFromSunday (d.weeksFrom .sunday) &&
    fits f.weekFromMonday (d.weeksFrom .monday)

/-- The value, or the reason why there is none. -/
def orElse {α : Type} (v : Option α) (e : Unreadable) : Except Unreadable α :=
  match v with
  | some a => .ok a
  | none => .error e

/-- The date of a weekday in a counted week of the year. -/
def weekDate (year : Int) (week : Int) (weekday start : Weekday) : Except Unreadable Date := do
  let _ ← orElse (Date.ofOrdinal? year 1) .outOfRange
  orElse (Date.ofWeeksFrom? year week.toNat weekday start) .contradiction

/-- The date that the fields give, and whether the other fields of dates fit it. -/
def dateAndFit (f : Fields) : Except Unreadable (Date × Bool) := do
  let year ← resolveYear f.year f.century f.yearOfCentury
  let weekYear ← resolveYear f.weekYear none f.weekYearOfCentury
  match year, f.month, f.dayOfMonth with
  | some y, some m, some day =>
    let d ← orElse (Date.ofCivil? y m.toNat day.toNat) .outOfRange
    return (d, f.fitsWeek d && f.fitsOrdinal d)
  | _, _, _ =>
    match year, f.ordinal with
    | some y, some n =>
      let d ← orElse (Date.ofOrdinal? y n.toNat) .outOfRange
      return (d, f.fitsCivil d && f.fitsWeek d && f.fitsOrdinal d)
    | _, _ =>
      match year, f.weekFromSunday, f.weekday with
      | some y, some w, some day =>
        let d ← weekDate y w day .sunday
        return (d, f.fitsCivil d && f.fitsWeek d && f.fitsOrdinal d)
      | _, _, _ =>
        match year, f.weekFromMonday, f.weekday with
        | some y, some w, some day =>
          let d ← weekDate y w day .monday
          return (d, f.fitsCivil d && f.fitsWeek d && f.fitsOrdinal d)
        | _, _, _ =>
          match weekYear, f.week, f.weekday with
          | some y, some w, some day =>
            let d ← orElse (Date.ofWeek? y w.toNat day) .outOfRange
            return (d, f.fitsCivil d && f.fitsOrdinal d)
          | _, _, _ => .error .insufficient

/-- The date that the fields give. -/
def date (f : Fields) : Except Unreadable Date := do
  let (d, fit) ← f.dateAndFit
  if fit && fits f.quarter d.quarter then return d else .error .contradiction

/-- The time of day that the fields give: an hour with its half of the day and a minute at least. -/
def time (f : Fields) : Except Unreadable TimeOfDay := do
  let afternoon ← orElse f.afternoon .insufficient
  let hour ← orElse f.hourOfHalf .insufficient
  let minute ← orElse f.minute .insufficient
  let second := f.second.getD 0
  if f.second.isNone && f.nanosecond.isSome then .error .insufficient
  else
    let nanos := f.nanosecond.getD 0
    let seconds := ((if afternoon then 12 else 0) + hour) * 3600 + minute * 60 + (if second = 60 then 59 else second)
    let nanos := if second = 60 then nanos + nanosPerSecond else nanos
    orElse (TimeOfDay.of? seconds.toNat nanos.toNat) .outOfRange

/-- Date and time by the timestamp, shifted by an offset, and by what the fields say besides. -/
def wallOfTimestamp (f : Fields) (timestamp offset : Int) : Except Unreadable Wall := do
  let t ← orElse (Instant.of? (timestamp + offset) 0) .outOfRange
  let w := t.wall 0
  let second := w.time.second
  let w ←
    if f.second = some 60 then
      if second = 59 then .ok w
      else if second = 0 then .ok (w.addNanos (-(nanosPerSecond : Int)))
      else .error .contradiction
    else .ok w
  let f ← if f.second = some 60 then .ok f else f.setSecond second
  let f ← f.setYear w.date.year
  let f ← f.setOrdinal w.date.ordinal
  let f ← f.setHour w.time.hour
  let f ← f.setMinute w.time.minute
  return ⟨← f.date, ← f.time⟩

/-- The local date and time that the fields give for an offset. -/
def wall (f : Fields) (offset : Int) : Except Unreadable Wall :=
  match f.date, f.time, f.timestamp with
  | .ok d, .ok t, none => .ok ⟨d, t⟩
  | .ok d, .ok t, some given =>
    let w : Wall := ⟨d, t⟩
    let timestamp := w.second - offset
    if given = timestamp ∨ (t.isLeap ∧ given = timestamp + 1) then .ok w else .error .contradiction
  | .error e, _, none => .error e
  | .ok _, .error e, none => .error e
  | .error .insufficient, .error .insufficient, some given
  | .error .insufficient, .ok _, some given
  | .ok _, .error .insufficient, some given => f.wallOfTimestamp given offset
  | .error .insufficient, .error e, some _ => .error e
  | .error e, _, some _ => .error e
  | .ok _, .error e, some _ => .error e

/-- The instant that the fields give; they need an offset or a timestamp. -/
def instant (f : Fields) : Except Unreadable Instant := do
  let offset ←
    match f.offset, f.timestamp with
    | some o, _ => .ok o
    | none, some _ => .ok 0
    | none, none => .error .insufficient
  let w ← f.wall offset
  if -86400 < offset ∧ offset < 86400 then orElse (w.instant? offset) .contradiction else .error .outOfRange

end Fields

end Rowwise
