import Rowwise.Calendar.Unit
import Rowwise.Calendar.Zone
import Rowwise.Double.Parts

/-!
# Rowwise.Calendar.Edit — differences, sums and fields of instants and times of day

Units up to an hour have a fixed length.  Days, weeks, months and years of an instant are counted on the local calendar
of a zone, so that a day later is the same time of the next day.  Near the ends of the range clocks of a zone show dates that
programs cannot hold; calculations on the calendar break off there.  Times of day wrap around midnight.
-/

namespace Rowwise

/-! ### Differences on the calendar -/

namespace Wall

/-- The date of `b`, a day closer to that of `a` if the time of day of `a` has not been reached. -/
def reachedDate (a b : Wall) : Date :=
  if a.date.day < b.date.day ∧ b.time.before a.time then (b.date.addDays? (-1)).getD b.date
  else if b.date.day < a.date.day ∧ a.time.before b.time then (b.date.addDays? 1).getD b.date
  else b.date

/-- Whole days from `a` to `b`. -/
def daysUntil (a b : Wall) : Int := (a.reachedDate b).day - a.date.day

/-- Whole months from `a` to `b`. -/
def monthsUntil (a b : Wall) : Int :=
  let reached := a.reachedDate b
  let months := reached.monthIndex - a.date.monthIndex
  if 0 < months ∧ reached.dayOfMonth < a.date.dayOfMonth then months - 1
  else if months < 0 ∧ a.date.dayOfMonth < reached.dayOfMonth then months + 1
  else months

end Wall

namespace Instant

/-- An instant in range, or the reason why there is none. -/
def orOutOfRange : Option Instant → Except CalendarCause Instant
  | some t => .ok t
  | none => .error .outOfRange

/-- What clocks of the zone show, as calculations take it: they break off where it lies out of the range of dates. -/
def localTime (t : Instant) (zone : Zone) : Except CalendarCause Wall :=
  if (zone.wall t).inRange then .ok (zone.wall t) else .error .noLocalTime

/-- A count from the local time of `a` to that of `b`. -/
def countLocal (a b : Instant) (zone : Zone) (count : Wall → Wall → Int) : Except CalendarCause Int := do
  let start ← a.localTime zone
  let finish ← b.localTime zone
  return count start finish

/-- Whole units from `a` to `b`; a unit that is not over does not count. -/
def unitsUntil (a b : Instant) (unit : DateUnit) (zone : Zone) : Except CalendarCause Int :=
  match unit with
  | .nanosecond =>
    let n := a.nanosUntil b
    if Double.minInt64 ≤ n ∧ n ≤ Double.maxInt64 then .ok n else .error .outOfRange
  | .millisecond => .ok ((a.nanosUntil b).tdiv 1000000)
  | .second => .ok ((a.nanosUntil b).tdiv 1000000000)
  | .minute => .ok ((a.nanosUntil b).tdiv 60000000000)
  | .hour => .ok ((a.nanosUntil b).tdiv 3600000000000)
  | .day => a.countLocal b zone Wall.daysUntil
  | .week => a.countLocal b zone fun start finish => (start.daysUntil finish).tdiv 7
  | .month => a.countLocal b zone Wall.monthsUntil
  | .year => a.countLocal b zone fun start finish => (start.monthsUntil finish).tdiv 12

/-- The instant whose local date is changed by `f`. -/
def mapDate (t : Instant) (zone : Zone) (f : Date → Option Date) : Except CalendarCause Instant := do
  let w ← t.localTime zone
  orOutOfRange ((f w.date).bind fun d => zone.resolve ⟨d, w.time⟩)

/-- The instant whose local date is moved `n` steps by `f`.  From `limit` steps on the local date is not looked at. -/
def moveDate (t : Instant) (zone : Zone) (limit : Nat) (n : Int) (f : Date → Int → Option Date) :
    Except CalendarCause Instant :=
  if n.natAbs < limit then t.mapDate zone (f · n) else .error .outOfRange

/-- The instant `n` units later. -/
def addUnits (t : Instant) (n : Int) (unit : DateUnit) (zone : Zone) : Except CalendarCause Instant :=
  match unit with
  | .nanosecond => orOutOfRange (t.addNanos? n)
  | .millisecond => orOutOfRange (t.addNanos? (n * 1000000))
  | .second => orOutOfRange (t.addNanos? (n * 1000000000))
  | .minute => orOutOfRange (t.addNanos? (n * 60000000000))
  | .hour => orOutOfRange (t.addNanos? (n * 3600000000000))
  | .day => t.moveDate zone (twoTo 63) n Date.addDays?
  | .week => t.moveDate zone (twoTo 63) (n * 7) Date.addDays?
  | .month => t.moveDate zone (twoTo 32) n Date.addMonths?
  | .year => t.moveDate zone (twoTo 32) (n * 12) Date.addMonths?

/-- The instant a number of units later, the fraction of the number dropped.  It is missing if the number is, and the
first or last instant if the number is infinite. -/
def add (t : Instant) (amount : Float) (unit : DateUnit) (zone : Zone) : Except CalendarCause (Option Instant) :=
  if Double.isMissing amount then .ok none
  else
    match Double.toInt? amount with
    | none => .ok (some (if Double.isNegative amount then first else last))
    | some n => if n.natAbs < twoTo 63 then (t.addUnits n unit zone).map some else .error .outOfRange

/-- The wall time with another field; months count from zero.  A day that the month does not have becomes its last. -/
def wallWith (w : Wall) (field : Float) (unit : DateUnit) : Except CalendarCause (Option Wall) := do
  let (lo, hi) := unit.range
  match unit with
  | .nanosecond =>
    let n ← fieldValue unit lo hi field
    return (w.time.withNanos? n.toNat).map fun t => ⟨w.date, t⟩
  | .millisecond =>
    let n ← fieldValue unit lo hi field
    return (w.time.withNanos? (n.toNat * 1000000 + w.time.nanos % 1000000)).map fun t => ⟨w.date, t⟩
  | .second =>
    let n ← fieldValue unit lo hi field
    return (w.time.withSecond? n.toNat).map fun t => ⟨w.date, t⟩
  | .minute =>
    let n ← fieldValue unit lo hi field
    return (w.time.withMinute? n.toNat).map fun t => ⟨w.date, t⟩
  | .hour =>
    let n ← fieldValue unit lo hi field
    return (w.time.withHour? n.toNat).map fun t => ⟨w.date, t⟩
  | .day =>
    let length := match Date.monthLength? w.date.year w.date.month with
      | some n => (n : Int)
      | none => hi
    let n ← fieldValue unit lo length field
    return (Date.ofCivil? w.date.year w.date.month n.toNat).map fun d => ⟨d, w.time⟩
  | .week =>
    let n ← fieldValue unit lo hi field
    match Date.ofWeek? w.date.weekYear n.toNat w.date.weekday with
    | some d => return some ⟨d, w.time⟩
    | none => .error (.noWeek w.date.weekYear n)
  | .month =>
    let n ← fieldValue unit lo hi field
    return (Date.clamped? w.date.year (n.toNat + 1) w.date.dayOfMonth).map fun d => ⟨d, w.time⟩
  | .year =>
    let n ← fieldValue unit lo hi field
    return (Date.clamped? n w.date.month w.date.dayOfMonth).map fun d => ⟨d, w.time⟩

/-- The instant with another field, as clocks and calendars of the zone show it. -/
def withField (t : Instant) (field : Float) (unit : DateUnit) (zone : Zone) : Except CalendarCause Instant := do
  let w ← t.localTime zone
  let changed ← wallWith w field unit
  orOutOfRange (changed.bind zone.resolve)

/-- A field of an instant, as clocks and calendars of the zone show it; months count from zero. -/
def field (t : Instant) (unit : DateUnit) (zone : Zone) : Int :=
  let w := zone.wall t
  match unit with
  | .nanosecond => w.time.nanosecond
  | .millisecond => (w.time.nanosecond / 1000000 : Nat)
  | .second => w.time.second
  | .minute => w.time.minute
  | .hour => w.time.hour
  | .day => w.date.dayOfMonth
  | .week => w.date.week
  | .month => (w.date.month - 1 : Nat)
  | .year => w.date.year

end Instant

namespace TimeOfDay

/-- The length of a unit of times of day; longer units count as days. -/
def unitNanos (unit : DateUnit) : Nat := unit.nanos?.getD nanosPerDay

/-- Whole units from `a` to `b`. -/
def unitsUntil (a b : TimeOfDay) (unit : DateUnit) : Int := (a.nanosUntil b).tdiv (unitNanos unit)

/-- The greatest count of units. -/
def maxCount : Int := (twoTo 127 : Int) - 1

/-- The time a number of units later, the fraction of the number dropped, wrapped around midnight.  It is missing if the
number is, and the end or the start of the day if the number is infinite. -/
def add (t : TimeOfDay) (amount : Float) (unit : DateUnit) : Option TimeOfDay :=
  if Double.isMissing amount then none
  else
    match Double.toInt? amount with
    | none => some (if Double.isNegative amount then midnight else lastOfDay)
    | some n =>
      let steps := Double.clamp (-maxCount - 1) maxCount n % (nanosPerDay / unitNanos unit : Nat)
      some (t.addNanos (steps * unitNanos unit)).1

/-- The time with another field. -/
def withField (t : TimeOfDay) (field : Float) (unit : DateUnit) : Except CalendarCause TimeOfDay := do
  let (lo, hi) := unit.range
  let n ← fieldValue unit lo hi field
  let changed := match unit with
    | .nanosecond => t.withNanos? n.toNat
    | .millisecond => t.withNanos? (n.toNat * 1000000 + t.nanos % 1000000)
    | .second => t.withSecond? n.toNat
    | .minute => t.withMinute? n.toNat
    | _ => t.withHour? n.toNat
  return changed.getD t

/-- A field of a time. -/
def field (t : TimeOfDay) (unit : DateUnit) : Nat :=
  match unit with
  | .nanosecond => t.nanosecond
  | .millisecond => t.nanosecond / 1000000
  | .second => t.second
  | .minute => t.minute
  | _ => t.hour

end TimeOfDay

end Rowwise
