import Rowwise.Double.Decimal

/-!
# Rowwise.Calendar.TimeOfDay — times of day

A time of day is a second of the day and the nanoseconds in it.  From 1000000000 nanoseconds on the time lies in a
leap second, which follows the second it is counted with.  The text of a time has no fraction, or three, six or nine
digits of it.
-/

namespace Rowwise

/-- The number of nanoseconds of a second. -/
def nanosPerSecond : Nat := 1000000000

/-- The number of seconds of a day. -/
def secondsPerDay : Nat := 86400

/-- The number of nanoseconds of a day. -/
def nanosPerDay : Nat := 86400000000000

/-- A time of day; nanoseconds from `nanosPerSecond` on are those of a leap second. -/
structure TimeOfDay where
  seconds : Nat
  nanos : Nat
  seconds_lt : seconds < 86400
  nanos_lt : nanos < 2000000000
deriving DecidableEq, Repr

namespace TimeOfDay

/-- Midnight. -/
def midnight : TimeOfDay := ⟨0, 0, by decide, by decide⟩

/-- The last nanosecond of a day. -/
def lastOfDay : TimeOfDay := ⟨86399, 999999999, by decide, by decide⟩

/-- The time with this second of the day and these nanoseconds, if there is one. -/
def of? (seconds nanos : Nat) : Option TimeOfDay :=
  if h : seconds < 86400 ∧ nanos < 2000000000 then some ⟨seconds, nanos, h.1, h.2⟩ else none

/-- The second `seconds` of a day, taken around the clock, with the nanoseconds of `t`. -/
def atSecond (t : TimeOfDay) (seconds : Int) : TimeOfDay :=
  ⟨(seconds % 86400).toNat, t.nanos, by omega, t.nanos_lt⟩

/-- The hour, from 0 to 23. -/
def hour (t : TimeOfDay) : Nat := t.seconds / 3600

/-- The minute, from 0 to 59. -/
def minute (t : TimeOfDay) : Nat := t.seconds / 60 % 60

/-- The second, from 0 to 59. -/
def second (t : TimeOfDay) : Nat := t.seconds % 60

/-- True in a leap second. -/
def isLeap (t : TimeOfDay) : Bool := nanosPerSecond ≤ t.nanos

/-- The nanoseconds of the second, also of a leap second. -/
def nanosecond (t : TimeOfDay) : Nat := t.nanos % nanosPerSecond

/-- The second as it is written: 60 in a leap second. -/
def shownSecond (t : TimeOfDay) : Nat := t.second + t.nanos / nanosPerSecond

/-- The hour of a twelve-hour clock, from 1 to 12. -/
def hour12 (t : TimeOfDay) : Nat := if t.hour % 12 = 0 then 12 else t.hour % 12

/-- True from noon on. -/
def isAfternoon (t : TimeOfDay) : Bool := 12 ≤ t.hour

/-- Nanoseconds since midnight. -/
def totalNanos (t : TimeOfDay) : Nat := t.seconds * nanosPerSecond + t.nanos

/-- The order of the clock. -/
def before (a b : TimeOfDay) : Bool := a.seconds < b.seconds || (a.seconds == b.seconds && a.nanos < b.nanos)

/-! ### Single fields -/

/-- The time with another hour. -/
def withHour? (t : TimeOfDay) (hour : Nat) : Option TimeOfDay :=
  if hour < 24 then of? (hour * 3600 + t.seconds % 3600) t.nanos else none

/-- The time with another minute. -/
def withMinute? (t : TimeOfDay) (minute : Nat) : Option TimeOfDay :=
  if minute < 60 then of? (t.seconds / 3600 * 3600 + minute * 60 + t.seconds % 60) t.nanos else none

/-- The time with another second. -/
def withSecond? (t : TimeOfDay) (second : Nat) : Option TimeOfDay :=
  if second < 60 then of? (t.seconds / 60 * 60 + second) t.nanos else none

/-- The time with other nanoseconds. -/
def withNanos? (t : TimeOfDay) (nanos : Nat) : Option TimeOfDay := of? t.seconds nanos

/-! ### Differences and sums -/

/-- Nanoseconds from `a` to `b`.  A leap second that lies between the two counts as a second. -/
def nanosUntil (a b : TimeOfDay) : Int :=
  let seconds := (b.seconds : Int) - a.seconds
  let leap : Int :=
    if a.seconds < b.seconds ∧ a.isLeap then 1
    else if b.seconds < a.seconds ∧ b.isLeap then -1
    else 0
  (seconds + leap) * nanosPerSecond + ((b.nanos : Int) - a.nanos)

/-- Moves `t` by a number of nanoseconds: the time of day reached and the days passed on the way.  A move inside a leap
second stays in it; one that leaves it forward uses the leap second up. -/
def addNanos (t : TimeOfDay) (n : Int) : TimeOfDay × Int :=
  if h : t.isLeap ∧ 1000000000 ≤ t.nanos + n ∧ t.nanos + n < 2000000000 then
    (⟨t.seconds, (t.nanos + n).toNat, t.seconds_lt, by omega⟩, 0)
  else
    let start : Int := if t.isLeap && 0 ≤ n then t.totalNanos - nanosPerSecond else t.totalNanos
    let total := start + n
    (⟨(total / 1000000000 % 86400).toNat, (total % 1000000000).toNat, by omega, by omega⟩,
      total / 1000000000 / 86400)

/-! ### Text -/

/-- A fraction of a second after `mark`: nothing, or three, six or nine digits, as few as show it fully. -/
def fractionText (mark : List Char) (nanos : Nat) : List Char :=
  if nanos = 0 then []
  else if nanos % 1000000 = 0 then mark ++ Double.padded 3 (nanos / 1000000)
  else if nanos % 1000 = 0 then mark ++ Double.padded 6 (nanos / 1000)
  else mark ++ Double.padded 9 nanos

/-- The time as `hh:mm:ss` and the fraction of the second. -/
def text (t : TimeOfDay) : List Char :=
  Double.padded 2 t.hour ++ ':' :: Double.padded 2 t.minute ++ ':' :: Double.padded 2 t.shownSecond ++
    fractionText ['.'] t.nanosecond

end TimeOfDay

end Rowwise
