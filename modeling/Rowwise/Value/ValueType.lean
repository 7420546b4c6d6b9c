import Rowwise.Text.Blank

/-!
# Rowwise.Value.ValueType — the eight types of values

Every node of an expression has one type.  `integer` and `double` hold the same kind of number; `integer` only promises
whole ones.  `Storage` names what a value of a type is made of, so that the two number types share one.
-/

namespace Rowwise

/-- The types of values. -/
inductive ValueType where
  | integer
  | double
  | text
  | boolean
  | instant
  | timeOfDay
  | textSet
  | textList
deriving DecidableEq, Repr

/-- What the values of a type are made of. -/
inductive Storage where
  | number
  | text
  | boolean
  | instant
  | timeOfDay
  | textSet
  | textList
deriving DecidableEq, Repr

/-- The name of a storage in faults. -/
def Storage.name : Storage → String
  | .number => "numeric"
  | .text => "text"
  | .boolean => "boolean"
  | .instant => "instant"
  | .timeOfDay => "local time"
  | .textSet => "string set"
  | .textList => "string list"

namespace ValueType

/-- All types. -/
def all : List ValueType := [integer, double, text, boolean, instant, timeOfDay, textSet, textList]

theorem mem_all (t : ValueType) : t ∈ all := by cases t <;> decide

/-- The name of a type in expressions and faults. -/
def name : ValueType → String
  | integer => "integer"
  | double => "double"
  | text => "string"
  | boolean => "boolean"
  | instant => "instant"
  | timeOfDay => "local_time"
  | textSet => "string_set"
  | textList => "string_list"

/-- What the values of the type are made of. -/
def storage : ValueType → Storage
  | integer => .number
  | double => .number
  | text => .text
  | boolean => .boolean
  | instant => .instant
  | timeOfDay => .timeOfDay
  | textSet => .textSet
  | textList => .textList

/-- True for the two types of numbers. -/
def isNumeric (t : ValueType) : Bool := t.storage = .number

/-- The type of numbers that come from both types: whole ones only if both are whole. -/
def join (a b : ValueType) : ValueType := if a = integer ∧ b = integer then integer else double

/-- The type of that name, in any case and with blanks around it. -/
def named? (text : List Char) : Option ValueType :=
  let wanted := Text.lowerAscii (Text.trim text)
  all.find? fun t => t.name.toList == wanted

/-- The types that a text can be converted to by name. -/
def targets : List ValueType := [integer, double, text, boolean, instant, timeOfDay]

end ValueType

end Rowwise
