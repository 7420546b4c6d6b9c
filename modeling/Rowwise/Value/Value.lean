import Rowwise.Calendar.Instant
import Rowwise.Double.Decimal
import Rowwise.Value.TextSet
import Rowwise.Value.ValueType

/-!
# Rowwise.Value.Value — values and their canonical text

A value has one of the eight types.  Every type has a missing value: NaN for the numbers, none for the others.  The
canonical text of a value is what concatenation and conversion to text show; a missing value has none.
-/

namespace Rowwise

/-- A value; none and NaN are missing. -/
inductive Value where
  | integer (x : Float)
  | double (x : Float)
  | text (s : Option String)
  | boolean (b : Option Bool)
  | instant (t : Option Instant)
  | timeOfDay (t : Option TimeOfDay)
  | textSet (s : Option TextSet)
  | textList (s : Option (List String))
deriving DecidableEq, Repr

namespace Value

/-- The type of a value. -/
def type : Value → ValueType
  | integer _ => .integer
  | double _ => .double
  | text _ => .text
  | boolean _ => .boolean
  | instant _ => .instant
  | timeOfDay _ => .timeOfDay
  | textSet _ => .textSet
  | textList _ => .textList

/-- The missing value of a type. -/
def missing : ValueType → Value
  | .integer => integer Double.nan
  | .double => double Double.nan
  | .text => text none
  | .boolean => boolean none
  | .instant => instant none
  | .timeOfDay => timeOfDay none
  | .textSet => textSet none
  | .textList => textList none

/-- True for the missing values. -/
def isMissing : Value → Bool
  | integer x => Double.isMissing x
  | double x => Double.isMissing x
  | text s => s.isNone
  | boolean b => b.isNone
  | instant t => t.isNone
  | timeOfDay t => t.isNone
  | textSet s => s.isNone
  | textList s => s.isNone

/-- A number of one of the two types of numbers. -/
def number (t : ValueType) (x : Float) : Value :=
  match t with
  | .integer => integer x
  | _ => double x

/-- The number that a value is; NaN if it is none. -/
def toNumber : Value → Float
  | integer x => x
  | double x => x
  | _ => Double.nan

/-- The number that a value is. -/
def number? : Value → Option Float
  | integer x => some x
  | double x => some x
  | _ => none

/-- The text that a value is, if it is not missing. -/
def text? : Value → Option String
  | text s => s
  | _ => none

/-- The instant that a value is, if it is not missing. -/
def instant? : Value → Option Instant
  | instant t => t
  | _ => none

/-- The time of day that a value is, if it is not missing. -/
def timeOfDay? : Value → Option TimeOfDay
  | timeOfDay t => t
  | _ => none

@[simp] theorem type_missing (t : ValueType) : (missing t).type = t := by cases t <;> rfl

/-- A present text. -/
def ofChars (cs : List Char) : Value := text (some (String.ofList cs))

/-- A whole number. -/
def ofInt (n : Int) : Value := integer (Double.ofInt n)

/-- True or false. -/
def ofBool (b : Bool) : Value := boolean (some b)

/-! ### Canonical text -/

/-- Infinity with its sign. -/
def infinityText (x : Float) : String := if Double.isNegative x then "-∞" else "∞"

/-- A whole number without a fraction; zero has no sign. -/
def integerText? (x : Float) : Option String :=
  if Double.isMissing x then none
  else if Double.isInfinite x then some (infinityText x)
  else if x == 0 then some "0"
  else some (Double.shortest (Double.trunc x))

/-- A number with three digits after the point; zero has no sign. -/
def doubleText? (x : Float) : Option String :=
  if Double.isMissing x then none
  else if Double.isInfinite x then some (infinityText x)
  else
    let s := Double.fixed 3 x
    some (if s = "-0.000" then "0.000" else s)

/-- Texts in brackets, with a comma and a space between them. -/
def itemsText (ss : List String) : String := "[" ++ ", ".intercalate ss ++ "]"

/-- The canonical text of a value; none if it is missing. -/
def toText? : Value → Option String
  | integer x => integerText? x
  | double x => doubleText? x
  | text s => s
  | boolean b => b.map fun b => if b then "true" else "false"
  | instant t => t.map fun t => String.ofList t.text
  | timeOfDay t => t.map fun t => String.ofList t.text
  | textSet s => s.map fun s => itemsText s.toList
  | textList s => s.map itemsText

/-- The truth of a boolean or a number, which is true unless it is zero; none if it is missing or of another type. -/
def truth? : Value → Option Bool
  | boolean b => b
  | integer x => if Double.isMissing x then none else some (x != 0)
  | double x => if Double.isMissing x then none else some (x != 0)
  | _ => none

/-! ### Equality -/

/-- True if a text says a boolean, in any case. -/
def saysBoolean (s : String) (b : Bool) : Bool :=
  Text.sameIgnoringCase s.toList (if b then "true".toList else "false".toList)

/-- A boolean compared with another present value: numbers count by one and zero, texts by the words, other values by
their canonical text. -/
def equalsBoolean (b : Bool) (v : Value) : Bool :=
  match v with
  | integer x => x == (if b then 1 else 0)
  | double x => x == (if b then 1 else 0)
  | text (some s) => saysBoolean s b
  | boolean (some c) => b == c
  | v => (boolean (some b)).toText? == v.toText?

/-- Equality across types.  A missing value equals only the missing values of the same storage; numbers are compared as
numbers; booleans as `equalsBoolean` says; other values of different types by their canonical text. -/
def equals (a b : Value) : Bool :=
  if a.isMissing || b.isMissing then
    a.isMissing && b.isMissing && a.type.storage == b.type.storage
  else
    match a, b with
    | boolean (some x), v => equalsBoolean x v
    | v, boolean (some x) => equalsBoolean x v
    | a, b =>
      match a.number?, b.number? with
      | some x, some y => x == y
      | _, _ => if a.type = b.type then a = b else a.toText? == b.toText?

end Value

end Rowwise
