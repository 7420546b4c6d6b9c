import Rowwise.Calendar.Edit
import Rowwise.Calendar.Format
import Rowwise.Calendar.Locale
import Rowwise.Value.Cast

/-!
# Rowwise.Function.Calendar — functions of instants and times of day

Units, zones, locales and patterns are given as texts.  A missing unit or value gives a missing result; so does a missing
zone, but for reading and writing texts it means the zone that holds where none is named.
-/

namespace Rowwise

/-- Functions of instants and times of day. -/
inductive CalendarFunction where
  | dateDiff
  | dateAdd
  | dateSet
  | dateGet
  | dateOfText
  | dateText
  | dateBefore
  | dateAfter
  | dateMillis
  | dateOfMillis
  | timeDiff
  | timeAdd
  | timeSet
  | timeGet
  | timeOfText
  | timeText
deriving DecidableEq, Repr

/-! ### Arguments given as texts -/

/-- The unit of that name. -/
def readUnit (s : String) : Except ValueCause DateUnit :=
  match DateUnit.named? s.toList with
  | some u => .ok u
  | none => .error (.unknownUnit s)

/-- The unit of that name, which times of day must have. -/
def readUnitOfDay (days : Bool) (s : String) : Except ValueCause DateUnit := do
  let u ← readUnit s
  if u.isOfDay days then return u else .error (.notOfDay u)

/-- The zone of that name. -/
def readZone (s : String) : Except ValueCause Zone :=
  match Zone.named? (Text.trim s.toList) with
  | some z => .ok z
  | none => .error (.unknownZone s)

/-- The locale of that name, with hyphens for underscores. -/
def readLocale (s : String) : Except ValueCause Locale :=
  match Locale.named? ((Text.trim s.toList).map fun c => if c = '-' then '_' else c) with
  | some l => .ok l
  | none => .error (.unknownLocale s)

/-- The items of a pattern in a locale. -/
def readItems (l : Locale) (s : String) : Except ValueCause (List Item) :=
  if Pattern.isValid s.toList then .ok ((Pattern.read? l s.toList).getD []) else .error (.badPattern s)

/-- A cause on the calendar as a cause of a value. -/
def onCalendar {α : Type} : Except CalendarCause α → Except ValueCause α
  | .ok a => .ok a
  | .error cause => .error (.calendar cause)

/-- The text at a position, if it is given and not missing. -/
def textAt (args : List Value) (i : Nat) : Option String := args[i]?.bind Value.text?

/-- The zone at a position: `zone` if none is given, none if it is missing. -/
def zoneAt (zone : Zone) (args : List Value) (i : Nat) : Except ValueCause (Option Zone) :=
  match args[i]? with
  | none => .ok (some zone)
  | some (.text (some s)) => return some (← readZone s)
  | some _ => .ok none

/-- The locale at a position, if it is given and not missing. -/
def localeAt (args : List Value) (i : Nat) : Except ValueCause (Option Locale) :=
  match textAt args i with
  | some s => return some (← readLocale s)
  | none => .ok none

namespace CalendarFunction

/-- The type of the results. -/
def result : CalendarFunction → ValueType
  | dateDiff | dateGet | dateMillis | timeDiff | timeGet => .integer
  | dateAdd | dateSet | dateOfText | dateOfMillis => .instant
  | dateText | timeText => .text
  | dateBefore | dateAfter => .boolean
  | timeAdd | timeSet | timeOfText => .timeOfDay

/-- The number of arguments that the function reads by their places; those behind them may be left out. -/
def required : CalendarFunction → Nat
  | dateDiff | dateAdd | dateSet | timeDiff | timeAdd | timeSet => 3
  | dateGet | dateBefore | dateAfter | timeGet => 2
  | dateOfText | dateText | dateMillis | dateOfMillis | timeOfText | timeText => 1

/-- The text of a moment by a pattern. -/
def writeBy (l : Locale) (m : Moment) (pattern : String) : Except ValueCause (List Char) := do
  match Pattern.write? l m (← readItems l pattern) with
  | some cs => return cs
  | none => .error (.patternUnfit pattern)

/-- The text of a time of day by a pattern: one that needs more than the time does not fit, in no locale. -/
def writeTime (locale : Option Locale) (t : TimeOfDay) (pattern : String) : Except ValueCause (List Char) := do
  let plain ← writeBy .posix (.ofTime t) pattern
  match locale with
  | none => return plain
  | some l => writeBy l (.anchored t) pattern

/-- The result of a reading. -/
def orUnreadable {α : Type} (s : String) (pattern : Option String) : Option α → Except ValueCause α
  | some a => .ok a
  | none => .error (.unreadable s pattern)

/-- The instant that a text says, by a pattern or in one of the standard forms. -/
def readInstant (zone : Zone) (s : String) (pattern : Option String) : Except ValueCause Instant := do
  match pattern with
  | some p => orUnreadable s pattern (Reading.instantBy? (← readItems .posix p) zone s.toList)
  | none => orUnreadable s none (Reading.instant? Zone.named? zone s.toList)

/-- The time of day that a text says, by a pattern or in one of the standard forms. -/
def readTime (s : String) (pattern : Option String) : Except ValueCause TimeOfDay := do
  match pattern with
  | some p => orUnreadable s pattern (Reading.timeBy? (← readItems .posix p) s.toList)
  | none => orUnreadable s none (Reading.time? s.toList)

/-- The instant at a number of milliseconds since 1970, without their fraction. -/
def instantOfNumber (x : Float) : Except ValueCause Value :=
  if Double.isMissing x then .ok (.instant none)
  else
    match Value.instantOfMillis? x with
    | some t => .ok (.instant (some t))
    | none => .error (.calendar .outOfRange)

/-- The value of the function, missing if one of those that it reads by their places is; `zone` holds where none is
named. -/
def run (zone : Zone) (f : CalendarFunction) (args : List Value) : Except ValueCause Value :=
  match f, args with
  | dateDiff, .instant (some a) :: .instant (some b) :: .text (some s) :: _ => do
    let unit ← readUnit s
    match ← zoneAt zone args 3 with
    | some z => return .ofInt (← onCalendar (a.unitsUntil b unit z))
    | none => return .missing f.result
  | dateAdd, .instant (some a) :: amount :: .text (some s) :: _ => do
    let unit ← readUnit s
    match ← zoneAt zone args 3 with
    | some z => return .instant (← onCalendar (a.add amount.toNumber unit z))
    | none => return .missing f.result
  | dateSet, .instant (some a) :: field :: .text (some s) :: _ => do
    if field.isMissing then return .missing f.result
    let unit ← readUnit s
    match ← zoneAt zone args 3 with
    | some z => return .instant (some (← onCalendar (a.withField field.toNumber unit z)))
    | none => return .missing f.result
  | dateGet, .instant (some a) :: .text (some s) :: _ => do
    let unit ← readUnit s
    match ← zoneAt zone args 2 with
    | some z => return .ofInt (a.field unit z)
    | none => return .missing f.result
  | dateOfText, .text (some s) :: _ => do
    let _ ← localeAt args 2
    let z := (← zoneAt zone args 3).getD zone
    return .instant (some (← readInstant z s (textAt args 1)))
  | dateText, .instant (some a) :: _ => do
    let locale ← localeAt args 2
    let z := (← zoneAt zone args 3).getD zone
    match textAt args 1 with
    | some pattern => return .ofChars (← writeBy (locale.getD .posix) (.ofInstant a z) pattern)
    | none => return .ofChars ((z.wall a).text true (z.offsetAt a.seconds).seconds)
  | dateBefore, [.instant (some a), .instant (some b)] => .ok (.ofBool (a.before b))
  | dateAfter, [.instant (some a), .instant (some b)] => .ok (.ofBool (b.before a))
  | dateMillis, [.instant (some a)] => .ok (.ofInt a.millis)
  | dateOfMillis, [x] => instantOfNumber x.toNumber
  | timeDiff, [.timeOfDay (some a), .timeOfDay (some b), .text (some s)] => do
    return .ofInt (a.unitsUntil b (← readUnitOfDay true s))
  | timeAdd, [.timeOfDay (some a), amount, .text (some s)] => do
    return .timeOfDay (a.add amount.toNumber (← readUnitOfDay true s))
  | timeSet, [.timeOfDay (some a), field, .text (some s)] => do
    if field.isMissing then return .missing f.result
    let unit ← readUnitOfDay false s
    return .timeOfDay (some (← onCalendar (a.withField field.toNumber unit)))
  | timeGet, [.timeOfDay (some a), .text (some s)] => do
    return .ofInt (a.field (← readUnitOfDay false s))
  | timeOfText, .text (some s) :: _ => do
    let _ ← localeAt args 2
    return .timeOfDay (some (← readTime s (textAt args 1)))
  | timeText, .timeOfDay (some a) :: _ => do
    let locale ← localeAt args 2
    match textAt args 1 with
    | some pattern => return .ofChars (← writeTime locale a pattern)
    | none => return .ofChars a.text
  | f, args => if f.required ≤ args.length then .ok (.missing f.result) else .error .lostArgument

end CalendarFunction

end Rowwise
