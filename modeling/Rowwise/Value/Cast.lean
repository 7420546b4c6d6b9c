import Rowwise.Calendar.Reading
import Rowwise.Calendar.ZoneTable
import Rowwise.Double.Nearby
import Rowwise.Value.Fault

/-!
# Rowwise.Value.Cast — conversion between types

Which types convert to which depends on the types alone.  A text that does not say a value of the target type converts to
the missing value, and so do missing values.
-/

namespace Rowwise

/-- True if values of the first type convert to the second. -/
def ValueType.castable (source target : ValueType) : Bool :=
  source = target ||
    match target with
    | .text => true
    | .integer | .double => source ∈ [.integer, .double, .text, .boolean, .instant]
    | .boolean | .instant => source ∈ [.integer, .double, .text]
    | .timeOfDay => source = .text
    | .textSet | .textList => false

namespace Value

/-- The number that a text says, with blanks around it; NaN if it says none. -/
def numberOfText (s : String) : Float := (Double.read? (Text.trim s.toList)).getD Double.nan

/-- The number that a value converts to. -/
def castNumber : Value → Float
  | integer x => x
  | double x => x
  | text (some s) => numberOfText s
  | boolean (some b) => if b then 1 else 0
  | instant (some t) => Double.ofInt t.millis
  | _ => Double.nan

/-- The truth that a text says, in any case and with blanks around it. -/
def booleanOfText? (s : String) : Option Bool :=
  let trimmed := Text.trim s.toList
  if Text.sameIgnoringCase trimmed "true".toList then some true
  else if Text.sameIgnoringCase trimmed "false".toList then some false
  else none

/-- The truth that a value converts to. -/
def castBoolean : Value → Option Bool
  | text (some s) => booleanOfText? s
  | integer x => truth? (integer x)
  | double x => truth? (double x)
  | _ => none

/-- The instant at a number of milliseconds since 1970, without their fraction. -/
def instantOfMillis? (x : Float) : Option Instant :=
  if Double.isFinite x then Instant.ofMillis? (Double.toInt64 x) else none

/-- The instant that a value converts to; a text without a zone is local to `zone`. -/
def castInstant (zone : Zone) : Value → Option Instant
  | text (some s) => Reading.instant? Zone.named? zone s.toList
  | integer x => instantOfMillis? x
  | double x => instantOfMillis? x
  | _ => none

/-- The time of day that a value converts to. -/
def castTimeOfDay : Value → Option TimeOfDay
  | text (some s) => Reading.time? s.toList
  | _ => none

/-- Converts a value to another type that it can be converted to. -/
def convert (zone : Zone) (v : Value) : ValueType → Value
  | .integer => integer (Double.halfUp v.castNumber)
  | .double => double v.castNumber
  | .text => text v.toText?
  | .boolean => boolean v.castBoolean
  | .instant => instant (v.castInstant zone)
  | .timeOfDay => timeOfDay v.castTimeOfDay
  | .textSet => textSet none
  | .textList => textList none

/-- Converts a value to a type; a value of that type stays as it is. -/
def cast (zone : Zone) (v : Value) (target : ValueType) : Except TypeCause Value :=
  if v.type.castable target then .ok (if v.type = target then v else v.convert zone target)
  else .error (.unconvertible v.type target)

theorem type_convert (zone : Zone) (v : Value) (target : ValueType) : (v.convert zone target).type = target := by
  cases target <;> rfl

end Value

end Rowwise
