import Rowwise.Calendar.Fields
import Rowwise.Calendar.Pattern
import Rowwise.Calendar.Zone
import Rowwise.Double.Power
import Rowwise.Text.Search

/-!
# Rowwise.Calendar.Reading — reading dates and times

Texts are read along the items of a pattern, always with English names, into `Fields`.  `instantBy` and `timeBy` read by
a pattern that is given; `instant?` and `time?` read the usual standard forms.
-/

namespace Rowwise.Reading

open Rowwise.Text

/-- What was read and the text after it. -/
abbrev Scan (α : Type) := α × List Char

/-! ### Numbers, words and offsets -/

/-- The greatest number that is read. -/
def maxNumber : Int := 9223372036854775807

/-- The digits in front of a text, at most `limit` of them if there is a limit. -/
def leadingDigits (limit : Option Nat) (cs : List Char) : List Char :=
  match limit with
  | none => cs.takeWhile Char.isDigit
  | some n => (cs.take n).takeWhile Char.isDigit

/-- A number of at least `least` digits and at most `limit`. -/
def number (least : Nat) (limit : Option Nat) (cs : List Char) : Except Unreadable (Scan Int) :=
  let ds := leadingDigits limit cs
  let n : Int := Double.ofDigits ds
  if ds.length < least then .error .mismatch
  else if maxNumber < n then .error .outOfRange
  else .ok (n, cs.drop ds.length)

/-- A number that may have a sign; with one it may have any number of digits. -/
def signedNumber (limit : Nat) (cs : List Char) : Except Unreadable (Scan Int) :=
  match cs with
  | '-' :: cs => do
    let (n, rest) ← number 1 none cs
    return (-n, rest)
  | '+' :: cs => number 1 none cs
  | _ => number 1 (some limit) cs

/-- Digits of a fraction as nanoseconds; digits after the ninth are passed over. -/
def fraction (cs : List Char) : Except Unreadable (Scan Int) := do
  let (n, rest) ← number 1 (some 9) cs
  let used := cs.length - rest.length
  return (n * tenTo (9 - used), rest.dropWhile Char.isDigit)

/-- A set number of digits of a fraction as nanoseconds. -/
def fractionOf (digits : Nat) (cs : List Char) : Except Unreadable (Scan Int) := do
  let (n, rest) ← number digits (some digits) cs
  return (n * tenTo (9 - digits), rest)

/-- The text after a word in any case. -/
def dropWord? (word cs : List Char) : Option (List Char) :=
  let front := cs.take word.length
  if front.length = word.length ∧ lowerAscii front = lowerAscii word then some (cs.drop word.length) else none

/-- The position of the first of the words that stands in front of the text, and the text after it. -/
def oneOf (words : List String) (cs : List Char) : Except Unreadable (Scan Nat) :=
  let rec go (i : Nat) : List String → Except Unreadable (Scan Nat)
    | [] => .error .mismatch
    | w :: ws =>
      match dropWord? w.toList cs with
      | some rest => .ok (i, rest)
      | none => go (i + 1) ws
  go 0 words

/-- A short name, and the rest of the long one if it follows. -/
def nameOf (short long : List String) (whole : Bool) (cs : List Char) : Except Unreadable (Scan Nat) := do
  let (i, rest) ← oneOf short cs
  let more := (long.getD i "").toList.drop 3
  return (i, if whole then (dropWord? more rest).getD rest else rest)

/-- One character. -/
def character (c : Char) (cs : List Char) : Except Unreadable (Scan Unit) :=
  match cs with
  | d :: rest => if c = d then .ok ((), rest) else .error .mismatch
  | [] => .error .mismatch

/-- Colons and blanks. -/
def separators (cs : List Char) : Except Unreadable (Scan Unit) := .ok ((), cs.dropWhile fun c => c == ':' || isBlank c)

/-- The two digits in front of a text. -/
def twoDigits? (cs : List Char) : Option (Option (Nat × Nat) × List Char) :=
  match cs with
  | a :: b :: rest =>
    some (if a.isDigit && b.isDigit then some (a.toNat - 48, b.toNat - 48) else none, rest)
  | _ => none

/-- An offset in seconds: a sign, two digits of hours, what `between` reads, two digits of minutes.  `Z` stands for
zero if `zulu` is set, and the minutes may be absent at the end of the text if `hoursOnly` is set. -/
def offset (between : List Char → Except Unreadable (Scan Unit)) (zulu hoursOnly : Bool) (cs : List Char) :
    Except Unreadable (Scan Int) :=
  match zulu, cs with
  | true, 'Z' :: rest => .ok (0, rest)
  | true, 'z' :: rest => .ok (0, rest)
  | _, _ => do
    let (negative, cs) ←
      match cs with
      | '+' :: rest => .ok (false, rest)
      | '-' :: rest => .ok (true, rest)
      | '\u2212' :: rest => .ok (true, rest)
      | _ => .error .mismatch
    let (hours, cs) ←
      match twoDigits? cs with
      | some (some (a, b), rest) => .ok (10 * a + b, rest)
      | _ => .error .mismatch
    let (_, cs) ← between cs
    let (minutes, cs) ←
      match twoDigits? cs with
      | some (some (a, b), rest) => if a < 6 then .ok (10 * a + b, rest) else .error .outOfRange
      | some (none, _) => .error .mismatch
      | none => if hoursOnly && cs.isEmpty then .ok (0, cs) else .error .mismatch
    let seconds : Int := hours * 3600 + minutes * 60
    return (if negative then -seconds else seconds, cs)

/-! ### Items -/

/-- The number of digits of a field; none if there is no limit. -/
def digitLimit : NumberField → Option Nat
  | .year | .weekYear => some 4
  | .quarter | .daysFromSunday | .dayOfWeek => some 1
  | .ordinal => some 3
  | .nanosecond => some 9
  | .timestamp => none
  | _ => some 2

/-- Sets the field of a number. -/
def setNumber (f : Fields) (field : NumberField) (n : Int) : Except Unreadable Fields :=
  match field with
  | .year => f.setYear n
  | .century => f.setCentury n
  | .yearOfCentury => f.setYearOfCentury n
  | .weekYear => f.setWeekYear n
  | .weekYearOfCentury => f.setWeekYearOfCentury n
  | .quarter => f.setQuarter n
  | .month => f.setMonth n
  | .dayOfMonth => f.setDayOfMonth n
  | .weekFromSunday => f.setWeekFromSunday n
  | .weekFromMonday => f.setWeekFromMonday n
  | .week => f.setWeek n
  | .daysFromSunday => f.setDaysFromSunday n
  | .dayOfWeek => f.setDayOfWeek n
  | .ordinal => f.setOrdinal n
  | .hour => f.setHour n
  | .hour12 => f.setHour12 n
  | .minute => f.setMinute n
  | .second => f.setSecond n
  | .nanosecond => f.setNanosecond n
  | .timestamp => f.setTimestamp n

/-- Reads the number of a field after blanks; years may have a sign. -/
def readNumber (f : Fields) (field : NumberField) (cs : List Char) : Except Unreadable (Scan Fields) := do
  let cs := trimStart cs
  let (n, rest) ←
    match field with
    | .year | .weekYear => signedNumber 4 cs
    | _ => number 1 (digitLimit field) cs
  return (← setNumber f field n, rest)

/-- Reads a fraction of a second after a point; without a point there is nothing to read. -/
def readPointed (f : Fields) (scan : List Char → Except Unreadable (Scan Int)) (cs : List Char) :
    Except Unreadable (Scan Fields) :=
  match cs with
  | '.' :: cs => do
    let (n, rest) ← scan cs
    return (← f.setNanosecond n, rest)
  | _ => .ok (f, cs)

/-- Reads numbers with marks between them; blanks may stand before the marks. -/
def readMarked (f : Fields) (cs : List Char) : List (NumberField × Option Char) → Except Unreadable (Scan Fields)
  | [] => .ok (f, cs)
  | (field, mark) :: more => do
    let (f, cs) ← readNumber f field cs
    match mark with
    | none => readMarked f cs more
    | some c => do
      let (_, cs) ← character c (trimStart cs)
      readMarked f cs more

/-- Reads the mark between date and time. -/
def dateTimeMark (cs : List Char) : Except Unreadable (Scan Unit) :=
  match cs with
  | 't' :: rest | 'T' :: rest | ' ' :: rest => .ok ((), rest)
  | _ => .error .mismatch

/-- Reads date, time and offset in the standard form, in which years may be longer, blanks may stand before marks, and
`UTC` stands for the offset zero. -/
def readStandard (f : Fields) (cs : List Char) : Except Unreadable (Scan Fields) := do
  let (f, cs) ← readMarked f cs [(.year, some '-'), (.month, some '-'), (.dayOfMonth, none)]
  let (_, cs) ← dateTimeMark cs
  let (f, cs) ← readMarked f cs [(.hour, some ':'), (.minute, some ':'), (.second, none)]
  let (f, cs) ← readPointed f fraction cs
  let cs := trimStart cs
  let (n, cs) ←
    match dropWord? "UTC".toList cs with
    | some rest => .ok (0, rest)
    | none => offset separators true false cs
  return (← f.setOffset n, cs)

/-- Reads a field that is not a plain number. -/
def readNamed (f : Fields) (field : NamedField) (cs : List Char) : Except Unreadable (Scan Fields) :=
  let l := Locale.posix
  match field with
  | .shortMonth | .longMonth => do
    let (i, rest) ← nameOf l.shortMonths l.months (field = .longMonth) cs
    return (← f.setMonth (i + 1), rest)
  | .shortDay | .longDay => do
    let (i, rest) ← nameOf l.shortDays l.days (field = .longDay) cs
    return (← f.setDaysFromSunday i, rest)
  | .lowerHalf | .upperHalf => do
    let (i, rest) ← oneOf ["am", "pm"] cs
    return (← f.setAfternoon (i = 1), rest)
  | .fraction => readPointed f fraction cs
  | .pointed n => readPointed f (fractionOf n) cs
  | .bare n => do
    let (v, rest) ← fractionOf n cs
    return (← f.setNanosecond v, rest)
  | .zoneName => .ok (f, cs.dropWhile fun c => !isBlank c)
  | .offset form => do
    let lenient := form = .lenient
    let (n, rest) ← offset separators lenient lenient (trimStart cs)
    return (← f.setOffset n, rest)
  | .standard => readStandard f cs

/-- Reads one item. -/
def readItem (f : Fields) (i : Item) (cs : List Char) : Except Unreadable (Scan Fields) :=
  match i with
  | .literal c => do
    let (_, rest) ← character c cs
    return (f, rest)
  | .blank _ => .ok (f, trimStart cs)
  | .number field _ => readNumber f field cs
  | .named field => readNamed f field cs

/-- Reads a text along the items of a pattern. -/
def readItems (f : Fields) (cs : List Char) : List Item → Except Unreadable (Scan Fields)
  | [] => .ok (f, cs)
  | i :: is => do
    let (f, cs) ← readItem f i cs
    readItems f cs is

/-- The fields of a whole text along the items of a pattern. -/
def fieldsOf (items : List Item) (cs : List Char) : Except Unreadable Fields := do
  let (f, rest) ← readItems {} cs items
  if rest.isEmpty then return f else .error .mismatch

/-- The value of a reading that succeeded. -/
def succeeded {α : Type} : Except Unreadable α → Option α
  | .ok a => some a
  | .error _ => none

/-! ### Reading by a pattern -/

/-- The instant that a text with an offset or a timestamp stands for. -/
def offsetInstant? (items : List Item) (cs : List Char) : Option Instant :=
  succeeded ((fieldsOf items cs).bind Fields.instant)

/-- The local date and time that a text stands for. -/
def wall? (items : List Item) (cs : List Char) : Option Wall :=
  succeeded ((fieldsOf items cs).bind fun f => f.wall 0)

/-- The date that a text stands for, at midnight. -/
def startOfDay? (items : List Item) (cs : List Char) : Option Wall :=
  (succeeded ((fieldsOf items cs).bind Fields.date)).map Wall.startOf

/-- The time of day that a text stands for. -/
def timeBy? (items : List Item) (cs : List Char) : Option TimeOfDay :=
  succeeded ((fieldsOf items cs).bind Fields.time)

/-- The instant that a text stands for: without an offset it is local to `zone`, without a time it is midnight. -/
def instantBy? (items : List Item) (zone : Zone) (cs : List Char) : Option Instant :=
  match offsetInstant? items cs with
  | some t => some t
  | none =>
    match wall? items cs with
    | some w => zone.resolve w
    | none => (startOfDay? items cs).bind zone.resolve

/-! ### The standard forms -/

/-- The greatest offset of the strict standard form: one minute less than a day. -/
def maxStrictOffset : Int := 86340

/-- Date, time and offset in the strict standard form, each number with all of its digits. -/
def readStrict (cs : List Char) : Except Unreadable (Scan Fields) := do
  let f : Fields := {}
  let (n, cs) ← number 4 (some 4) cs
  let f ← f.setYear n
  let (_, cs) ← character '-' cs
  let (n, cs) ← number 2 (some 2) cs
  let f ← f.setMonth n
  let (_, cs) ← character '-' cs
  let (n, cs) ← number 2 (some 2) cs
  let f ← f.setDayOfMonth n
  let (_, cs) ← dateTimeMark cs
  let (n, cs) ← number 2 (some 2) cs
  let f ← f.setHour n
  let (_, cs) ← character ':' cs
  let (n, cs) ← number 2 (some 2) cs
  let f ← f.setMinute n
  let (_, cs) ← character ':' cs
  let (n, cs) ← number 2 (some 2) cs
  let f ← f.setSecond n
  let (f, cs) ← readPointed f fraction cs
  let (n, cs) ← offset (character ':') true false cs
  Fields.within (-maxStrictOffset) maxStrictOffset n
  return (← f.setOffset n, cs)

/-- The instant that a text in the strict standard form stands for. -/
def strict? (cs : List Char) : Option Instant :=
  match readStrict cs with
  | .ok (f, []) => succeeded f.instant
  | _ => none

/-- The items of a pattern of the standard forms. -/
def itemsOf (pattern : String) : List Item := (Pattern.read? .posix pattern.toList).getD []

/-- Looser forms with an offset. -/
def offsetForm : List Item := itemsOf "%Y-%m-%dT%H:%M:%S%.f%z"

/-- Forms without an offset: with seconds or without. -/
def localForms : List (List Item) := [itemsOf "%Y-%m-%dT%H:%M:%S%.f", itemsOf "%Y-%m-%dT%H:%M"]

/-- A date alone. -/
def dateForm : List Item := itemsOf "%Y-%m-%d"

/-- Replaces the first space by the mark between date and time. -/
def markDateTime : List Char → List Char
  | [] => []
  | c :: cs => if c = ' ' then 'T' :: cs else c :: markDateTime cs

/-- The text in front of a bracketed zone name at the end, and that name. -/
def splitZone (cs : List Char) : Option (List Char × List Char) :=
  match cs.reverse with
  | ']' :: front => splitAt? '[' front.reverse
  | _ => none

/-- The instant that a body without a zone name stands for, local to `zone` if it has no offset. -/
def body? (zone : Zone) (body : List Char) : Option Instant :=
  match strict? body with
  | some t => some t
  | none =>
    match offsetInstant? offsetForm body with
    | some t => some t
    | none =>
      match localForms.findSome? fun form => wall? form body with
      | some w => zone.resolve w
      | none => (startOfDay? dateForm body).bind zone.resolve

/-- The instant that a text in one of the standard forms stands for.  A zone name in brackets may end the text and takes
the place of `zone`; `find` gives the zones by their names. -/
def instant? (find : List Char → Option Zone) (zone : Zone) (cs : List Char) : Option Instant :=
  let text := trim cs
  match splitZone text with
  | some (body, name) => (find name).bind fun z => body? z (markDateTime body)
  | none => body? zone (markDateTime text)

/-- Hour and minute of a time of day. -/
def hourMinuteForm : List (NumberField × Option Char) := [(.hour, some ':'), (.minute, none)]

/-- Reads the seconds of a time of day after a colon. -/
def readSeconds (f : Fields) (cs : List Char) : Except Unreadable (Scan Fields) := do
  let (_, cs) ← character ':' (trimStart cs)
  let (f, cs) ← readMarked f cs [(.second, none)]
  let (f, cs) ← readPointed f fraction cs
  return (f, trimStart cs)

/-- The fields of a time of day of hours, minutes and, if they follow, seconds. -/
def timeFields (cs : List Char) : Except Unreadable Fields := do
  let (f, cs) ← readMarked {} cs hourMinuteForm
  let (f, cs) :=
    match readSeconds f cs with
    | .ok done => done
    | .error _ => (f, cs)
  if (trimStart cs).isEmpty then return f else .error .mismatch

/-- The time of day that a text in one of the standard forms stands for. -/
def time? (cs : List Char) : Option TimeOfDay := succeeded ((timeFields (trim cs)).bind Fields.time)

end Rowwise.Reading
