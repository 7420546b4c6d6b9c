import Rowwise.Calendar.Locale
import Rowwise.Text.Blank

/-!
# Rowwise.Calendar.Pattern — patterns of dates and times

A pattern is text with fields marked by `%` and a letter.  `Pattern.read?` turns it into a list of items, one for each
character or field; it is none for a mark that stands for no field.  A mark may hold `-`, `_` or `0`, which change how
a single number is filled up.  Four marks stand for whole formats of a locale.
-/

namespace Rowwise

/-- How a number that is too short is filled up. -/
inductive Fill where
  | nothing
  | zeros
  | blanks
deriving DecidableEq, Repr

/-- Numbers of a date or a time. -/
inductive NumberField where
  | year
  | century
  | yearOfCentury
  | weekYear
  | weekYearOfCentury
  | quarter
  | month
  | dayOfMonth
  | weekFromSunday
  | weekFromMonday
  | week
  | daysFromSunday
  | dayOfWeek
  | ordinal
  | hour
  | hour12
  | minute
  | second
  | nanosecond
  | timestamp
deriving DecidableEq, Repr

/-- The number of digits that a number is filled up to. -/
def NumberField.width : NumberField → Nat
  | .year | .weekYear => 4
  | .ordinal => 3
  | .nanosecond | .timestamp => 9
  | .quarter | .daysFromSunday | .dayOfWeek => 1
  | _ => 2

/-- How the hours and minutes of an offset are written. -/
inductive OffsetForm where
  | plain
  | colon
  | seconds
  | hours
  | lenient
deriving DecidableEq, Repr

/-- Fields that are not numbers of a set width. -/
inductive NamedField where
  | shortMonth
  | longMonth
  | shortDay
  | longDay
  | lowerHalf
  | upperHalf
  /-- A point and as few groups of three digits as show the fraction fully; nothing if it is zero. -/
  | fraction
  /-- A point and this many digits of the fraction. -/
  | pointed (digits : Nat)
  /-- This many digits of the fraction. -/
  | bare (digits : Nat)
  | zoneName
  | offset (form : OffsetForm)
  /-- Date, time and offset in the standard form. -/
  | standard
deriving DecidableEq, Repr

/-- The pieces of a pattern. -/
inductive Item where
  | literal (c : Char)
  | blank (c : Char)
  | number (field : NumberField) (fill : Fill)
  | named (field : NamedField)
deriving DecidableEq, Repr

/-- Formats that depend on the locale. -/
inductive LocalForm where
  | dateTime
  | date
  | time
  | halfDayTime
deriving DecidableEq, Repr

namespace Pattern

/-- The item of a character that stands for itself. -/
def plainItem (c : Char) : Item := if Text.isBlank c then .blank c else .literal c

/-- The number that a letter stands for, with the filling it has by itself. -/
def number? (c : Char) : Option (NumberField × Fill) :=
  match c with
  | 'Y' => some (.year, .zeros)
  | 'C' => some (.century, .zeros)
  | 'y' => some (.yearOfCentury, .zeros)
  | 'G' => some (.weekYear, .zeros)
  | 'g' => some (.weekYearOfCentury, .zeros)
  | 'q' => some (.quarter, .nothing)
  | 'm' => some (.month, .zeros)
  | 'd' => some (.dayOfMonth, .zeros)
  | 'e' => some (.dayOfMonth, .blanks)
  | 'U' => some (.weekFromSunday, .zeros)
  | 'W' => some (.weekFromMonday, .zeros)
  | 'V' => some (.week, .zeros)
  | 'w' => some (.daysFromSunday, .nothing)
  | 'u' => some (.dayOfWeek, .nothing)
  | 'j' => some (.ordinal, .zeros)
  | 'H' => some (.hour, .zeros)
  | 'k' => some (.hour, .blanks)
  | 'I' => some (.hour12, .zeros)
  | 'l' => some (.hour12, .blanks)
  | 'M' => some (.minute, .zeros)
  | 'S' => some (.second, .zeros)
  | 'f' => some (.nanosecond, .zeros)
  | 's' => some (.timestamp, .nothing)
  | _ => none

/-- A number filled with zeros. -/
def zeroed (field : NumberField) : Item := .number field .zeros

/-- Hour and minute. -/
def hourMinute : List Item := [zeroed .hour, .literal ':', zeroed .minute]

/-- Hour, minute and second. -/
def clock : List Item := hourMinute ++ [.literal ':', zeroed .second]

/-- The items of a letter that is no number and no format of a locale. -/
def named? (c : Char) : Option (List Item) :=
  match c with
  | 'A' => some [.named .longDay]
  | 'a' => some [.named .shortDay]
  | 'B' => some [.named .longMonth]
  | 'b' | 'h' => some [.named .shortMonth]
  | 'P' => some [.named .lowerHalf]
  | 'p' => some [.named .upperHalf]
  | 'Z' => some [.named .zoneName]
  | 'z' => some [.named (.offset .plain)]
  | '+' => some [.named .standard]
  | 'D' => some [zeroed .month, .literal '/', zeroed .dayOfMonth, .literal '/', zeroed .yearOfCentury]
  | 'F' => some [zeroed .year, .literal '-', zeroed .month, .literal '-', zeroed .dayOfMonth]
  | 'v' =>
    some [.number .dayOfMonth .blanks, .literal '-', .named .shortMonth, .literal '-', zeroed .year]
  | 'R' => some hourMinute
  | 'T' => some clock
  | 'n' => some [.blank '\n']
  | 't' => some [.blank '\t']
  | '%' => some [.literal '%']
  | _ => none

/-- The format of a locale that a letter stands for. -/
def localForm? (c : Char) : Option LocalForm :=
  match c with
  | 'c' => some .dateTime
  | 'x' => some .date
  | 'X' => some .time
  | 'r' => some .halfDayTime
  | _ => none

/-- The filling that a sign between mark and letter asks for. -/
def fill? (c : Char) : Option Fill :=
  match c with
  | '-' => some .nothing
  | '_' => some .blanks
  | '0' => some .zeros
  | _ => none

/-- The items of a mark and one letter. -/
def letter? (expand : LocalForm → Option (List Item)) (c : Char) : Option (List Item) :=
  match number? c with
  | some (field, fill) => some [.number field fill]
  | none =>
    match localForm? c with
    | some form => expand form
    | none => named? c

/-- The number of digits in marks such as `%3f`. -/
def digits? (c : Char) : Option Nat :=
  match c with
  | '3' => some 3
  | '6' => some 6
  | '9' => some 9
  | _ => none

/-- The items of a pattern, in which formats of a locale are replaced by what `expand` gives for them. -/
def readWith (expand : LocalForm → Option (List Item)) : List Char → Option (List Item)
  | [] => some []
  | '%' :: '#' :: 'z' :: cs => do
    return .named (.offset .lenient) :: (← readWith expand cs)
  | '%' :: ':' :: ':' :: ':' :: 'z' :: cs => do
    return .named (.offset .hours) :: (← readWith expand cs)
  | '%' :: ':' :: ':' :: 'z' :: cs => do
    return .named (.offset .seconds) :: (← readWith expand cs)
  | '%' :: ':' :: 'z' :: cs => do
    return .named (.offset .colon) :: (← readWith expand cs)
  | '%' :: '.' :: 'f' :: cs => do
    return .named .fraction :: (← readWith expand cs)
  | '%' :: '.' :: d :: 'f' :: cs => do
    return .named (.pointed (← digits? d)) :: (← readWith expand cs)
  | '%' :: c :: 'f' :: cs =>
    match digits? c with
    | some n => do return .named (.bare n) :: (← readWith expand cs)
    | none =>
      match fill? c with
      | some fill => do return .number .nanosecond fill :: (← readWith expand cs)
      | none => do return (← letter? expand c) ++ plainItem 'f' :: (← readWith expand cs)
  | '%' :: c :: d :: cs =>
    match fill? c with
    | some fill => do
      let (field, _) ← number? d
      return .number field fill :: (← readWith expand cs)
    | none => do return (← letter? expand c) ++ (← readWith expand (d :: cs))
  | ['%', c] => letter? expand c
  | ['%'] => none
  | c :: cs => do return plainItem c :: (← readWith expand cs)

/-- The format of a locale as text. -/
def localText (l : Locale) : LocalForm → String
  | .dateTime => l.dateTime
  | .date => l.date
  | .time => l.time
  | .halfDayTime => if l.halfDayTime.isEmpty then l.time else l.halfDayTime

/-- The items of a pattern in a locale; none for a malformed pattern. -/
def read? (l : Locale) (pattern : List Char) : Option (List Item) :=
  readWith (fun form => readWith (fun _ => none) (localText l form).toList) pattern

/-- True if the pattern is well formed. -/
def isValid (pattern : List Char) : Bool := (read? .posix pattern).isSome

end Pattern

end Rowwise
