import Rowwise.Calendar.Instant
import Rowwise.Calendar.Pattern
import Rowwise.Calendar.Zone

/-!
# Rowwise.Calendar.Format — writing dates and times by patterns

A moment is what is known when a pattern is written: a date, a time of day, an offset, or only some of them.  `write?`
is none if the pattern has a field that the moment does not know.
-/

namespace Rowwise

/-- The known parts of a date and time. -/
structure Moment where
  date : Option Date
  time : Option TimeOfDay
  offset : Option Offset
deriving Repr

namespace Moment

/-- What a zone shows at an instant. -/
def ofInstant (t : Instant) (z : Zone) : Moment :=
  let offset := z.offsetAt t.seconds
  let w := t.wall offset.seconds
  ⟨some w.date, some w.time, some offset⟩

/-- A time of day alone. -/
def ofTime (t : TimeOfDay) : Moment := ⟨none, some t, none⟩

/-- A time of day of the first of January 1970, in universal time. -/
def anchored (t : TimeOfDay) : Moment := ⟨some ⟨0⟩, some t, some ⟨0, "UTC"⟩⟩

end Moment

namespace Pattern

/-- Digits filled up on the left to a width. -/
def filled (fill : Fill) (width : Nat) (ds : List Char) : List Char :=
  match fill with
  | .nothing => ds
  | .zeros => List.replicate (width - ds.length) '0' ++ ds
  | .blanks => List.replicate (width - ds.length) ' ' ++ ds

/-- A whole number filled up to a width, in front of which a sign always stands if `always` is set; the sign counts
for the width then. -/
def wholeText (fill : Fill) (width : Nat) (always : Bool) (n : Int) : List Char :=
  let sign : List Char := if n < 0 then ['-'] else if always then ['+'] else []
  let width := if always then width + 1 else width
  let ds := Double.digitsOf n.natAbs
  match fill with
  | .nothing => sign ++ ds
  | .zeros => sign ++ List.replicate (width - sign.length - ds.length) '0' ++ ds
  | .blanks => List.replicate (width - sign.length - ds.length) ' ' ++ sign ++ ds

/-- A year: four digits, and a sign outside 0 to 9999. -/
def yearText (fill : Fill) (year : Int) : List Char :=
  if 1000 ≤ year ∧ year ≤ 9999 then Double.digitsOf year.toNat
  else wholeText fill 4 (year < 0 || 10000 ≤ year) year

/-- Two digits of a number below 256.  The first one of a number above 99 is the character that many places after `0`. -/
def twoDigits (fill : Fill) (n : Nat) : List Char :=
  let ones := Char.ofNat (48 + n % 10)
  match n / 10, fill with
  | 0, .nothing => [ones]
  | 0, .blanks => [' ', ones]
  | tens, _ => [Char.ofNat (48 + tens), ones]

/-- The text of a number; none if the moment does not know it. -/
def numberText? (m : Moment) (fill : Fill) : NumberField → Option (List Char)
  | .year => m.date.map fun d => yearText fill d.year
  | .weekYear => m.date.map fun d => yearText fill d.weekYear
  | .century => m.date.map fun d => twoDigits fill (d.year / 100 % 256).toNat
  | .yearOfCentury => m.date.map fun d => twoDigits fill (d.year % 100).toNat
  | .weekYearOfCentury => m.date.map fun d => twoDigits fill (d.weekYear % 100).toNat
  | .quarter => m.date.map fun d => Double.digitsOf d.quarter
  | .month => m.date.map fun d => twoDigits fill d.month
  | .dayOfMonth => m.date.map fun d => twoDigits fill d.dayOfMonth
  | .weekFromSunday => m.date.map fun d => twoDigits fill (d.weeksFrom .sunday)
  | .weekFromMonday => m.date.map fun d => twoDigits fill (d.weeksFrom .monday)
  | .week => m.date.map fun d => twoDigits fill d.week
  | .daysFromSunday => m.date.map fun d => Double.digitsOf d.weekday.fromSunday
  | .dayOfWeek => m.date.map fun d => Double.digitsOf (d.weekday.fromMonday + 1)
  | .ordinal => m.date.map fun d => wholeText fill 3 false d.ordinal
  | .hour => m.time.map fun t => twoDigits fill t.hour
  | .hour12 => m.time.map fun t => twoDigits fill t.hour12
  | .minute => m.time.map fun t => twoDigits fill t.minute
  | .second => m.time.map fun t => twoDigits fill t.shownSecond
  | .nanosecond => m.time.map fun t => wholeText fill 9 false t.nanosecond
  | .timestamp => do
    let w : Wall := ⟨← m.date, ← m.time⟩
    let offset := (m.offset.map Offset.seconds).getD 0
    return wholeText fill 9 false (w.second - offset)

/-- Sign, hours, minutes and seconds of an offset. -/
def secondsOffsetText (offset : Int) : List Char :=
  let n := offset.natAbs
  (if offset < 0 then '-' else '+') ::
    (Double.padded 2 (n / 3600) ++ ':' :: Double.padded 2 (n / 60 % 60) ++ ':' :: Double.padded 2 (n % 60))

/-- Sign and hours of an offset. -/
def hoursOffsetText (offset : Int) : List Char :=
  (if offset < 0 then '-' else '+') :: Double.padded 2 (offset.natAbs / 3600)

/-- An offset in one of its forms; the lenient one is for reading only. -/
def offsetText? (form : OffsetForm) (offset : Int) : Option (List Char) :=
  match form with
  | .plain => some (Wall.offsetText false offset)
  | .colon => some (Wall.offsetText true offset)
  | .seconds => some (secondsOffsetText offset)
  | .hours => some (hoursOffsetText offset)
  | .lenient => none

/-- The name at a position of a list of names. -/
def nameAt (names : List String) (i : Nat) : List Char := (names.getD i "").toList

/-- The first digits of the nine digits of a fraction. -/
def fractionDigits (digits nanos : Nat) : List Char := (Double.padded 9 nanos).take digits

/-- The name of the half of the day. -/
def halfText (l : Locale) (t : TimeOfDay) : List Char := (if t.isAfternoon then l.afternoon else l.morning).toList

/-- The text of a field; none if the moment does not know it. -/
def namedText? (l : Locale) (m : Moment) : NamedField → Option (List Char)
  | .shortMonth => m.date.map fun d => nameAt l.shortMonths (d.month - 1)
  | .longMonth => m.date.map fun d => nameAt l.months (d.month - 1)
  | .shortDay => m.date.map fun d => nameAt l.shortDays d.weekday.fromSunday
  | .longDay => m.date.map fun d => nameAt l.days d.weekday.fromSunday
  | .lowerHalf => m.time.map fun t => Text.lowerAscii (halfText l t)
  | .upperHalf => m.time.map fun t => halfText l t
  | .fraction => m.time.map fun t => TimeOfDay.fractionText l.point.toList t.nanosecond
  | .pointed n => m.time.map fun t => l.point.toList ++ fractionDigits n t.nanosecond
  | .bare n => m.time.map fun t => fractionDigits n t.nanosecond
  | .zoneName => m.offset.map fun o => o.name.toList
  | .offset form => m.offset.bind fun o => offsetText? form o.seconds
  | .standard => do
    let w : Wall := ⟨← m.date, ← m.time⟩
    let o ← m.offset
    return w.text false o.seconds

/-- The text of one item. -/
def itemText? (l : Locale) (m : Moment) : Item → Option (List Char)
  | .literal c | .blank c => some [c]
  | .number field fill => numberText? m fill field
  | .named field => namedText? l m field

/-- The text of a list of items; none if the moment does not know all of their fields. -/
def write? (l : Locale) (m : Moment) : List Item → Option (List Char)
  | [] => some []
  | i :: is => do return (← itemText? l m i) ++ (← write? l m is)

end Pattern

end Rowwise
