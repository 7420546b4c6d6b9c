import Rowwise.Calendar.Date
import Rowwise.Calendar.TimeOfDay

/-!
# Rowwise.Calendar.Instant — points in time and wall clocks

An instant is a second since 1970-01-01T00:00:00 UTC and the nanoseconds in it, within the range of dates.  A wall time
is what a calendar and a clock show somewhere: a date and a time of day.  `Instant.wall` and `Wall.instant?` convert
between them for an offset in seconds.  The canonical text of an instant shows UTC.
-/

namespace Rowwise

/-- A date and a time of day, as clocks of some place show them. -/
structure Wall where
  date : Date
  time : TimeOfDay
deriving DecidableEq, Repr

/-- The first second of the first date, counted from 1970. -/
def firstSecond : Int := -8334601228800

/-- The last second of the last date, counted from 1970. -/
def lastSecond : Int := 8210266876799

/-- A point in time: seconds since 1970 and nanoseconds, from 1000000000 on those of a leap second. -/
structure Instant where
  seconds : Int
  nanos : Nat
  first_le : firstSecond ≤ seconds
  le_last : seconds ≤ lastSecond
  nanos_lt : nanos < 2 * nanosPerSecond
deriving DecidableEq, Repr

namespace Wall

/-- The second that the wall shows, counted as if it were UTC. -/
def second (w : Wall) : Int := w.date.day * 86400 + w.time.seconds

/-- The wall time at a second counted as if it were UTC. -/
def ofSecond (s : Int) (nanos : Nat) (h : nanos < 2 * nanosPerSecond) : Wall :=
  ⟨⟨s / 86400⟩, ⟨(s % 86400).toNat, nanos, by omega, h⟩⟩

/-- True if the date is one that programs can hold. -/
def inRange (w : Wall) : Bool := w.date.inRange

/-- The wall time `n` nanoseconds later. -/
def addNanos (w : Wall) (n : Int) : Wall :=
  let (time, days) := w.time.addNanos n
  ⟨w.date.addDays days, time⟩

/-- Nanoseconds from `a` to `b`. -/
def nanosUntil (a b : Wall) : Int := (b.date.day - a.date.day) * nanosPerDay + a.time.nanosUntil b.time

/-- The wall time without its time of day. -/
def startOf (d : Date) : Wall := ⟨d, .midnight⟩

/-! ### Text -/

/-- A year of four digits; years outside 0 to 9999 have a sign and at least four digits. -/
def yearText (year : Int) : List Char :=
  if 0 ≤ year ∧ year ≤ 9999 then Double.padded 4 year.toNat
  else (if year < 0 then '-' else '+') :: Double.padded 4 year.natAbs

/-- A sign, hours and minutes of an offset, rounded to minutes, with a colon between them if wanted. -/
def offsetText (colon : Bool) (offset : Int) : List Char :=
  let minutes := (offset.natAbs + 30) / 60
  (if offset < 0 then '-' else '+') ::
    (Double.padded 2 (minutes / 60) ++ (if colon then [':'] else []) ++ Double.padded 2 (minutes % 60))

/-- Date and time in the standard form, followed by the offset; an offset of zero is written `Z` if `zulu` is set. -/
def text (w : Wall) (zulu : Bool) (offset : Int) : List Char :=
  let c := w.date.civil
  yearText c.year ++ '-' :: Double.padded 2 c.month ++ '-' :: Double.padded 2 c.dayOfMonth ++ 'T' :: w.time.text ++
    (if zulu ∧ offset = 0 then ['Z'] else offsetText true offset)

end Wall

namespace Instant

/-- The instant at this second, if it is in range. -/
def of? (seconds : Int) (nanos : Nat) : Option Instant :=
  if h : firstSecond ≤ seconds ∧ seconds ≤ lastSecond ∧ nanos < 2 * nanosPerSecond then
    some ⟨seconds, nanos, h.1, h.2.1, h.2.2⟩
  else none

/-- The first instant. -/
def first : Instant := ⟨firstSecond, 0, by decide, by decide, by decide⟩

/-- The last instant. -/
def last : Instant := ⟨lastSecond, 999999999, by decide, by decide, by decide⟩

/-- What clocks `offset` seconds ahead of UTC show. -/
def wall (t : Instant) (offset : Int) : Wall := Wall.ofSecond (t.seconds + offset) t.nanos t.nanos_lt

/-- True if `a` comes before `b`. -/
def before (a b : Instant) : Bool := a.seconds < b.seconds || (a.seconds == b.seconds && a.nanos < b.nanos)

/-- Milliseconds since 1970, those of a leap second counted on from the second before it. -/
def millis (t : Instant) : Int := t.seconds * 1000 + (t.nanos / 1000000 : Nat)

/-- The instant at a number of milliseconds since 1970, if it is in range. -/
def ofMillis? (ms : Int) : Option Instant := of? (ms / 1000) ((ms % 1000).toNat * 1000000)

/-- Nanoseconds from `a` to `b`. -/
def nanosUntil (a b : Instant) : Int := (a.wall 0).nanosUntil (b.wall 0)

/-- The canonical text: date and time in UTC, ending in `Z`. -/
def text (t : Instant) : List Char := (t.wall 0).text true 0

end Instant

/-- The instant at which clocks `offset` seconds ahead of UTC show this time, if it is in range. -/
def Wall.instant? (w : Wall) (offset : Int) : Option Instant := Instant.of? (w.second - offset) w.time.nanos

/-- The instant `n` nanoseconds later, if it is in range. -/
def Instant.addNanos? (t : Instant) (n : Int) : Option Instant := ((t.wall 0).addNanos n).instant? 0

end Rowwise
