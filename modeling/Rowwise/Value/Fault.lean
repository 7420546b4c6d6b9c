import Rowwise.Calendar.Unit
import Rowwise.Value.Value

/-!
# Rowwise.Value.Fault — why expressions fail

A missing value is no fault; faults are malformed text, arguments of wrong types or values, and defects of the program
around the expression.  Each is kept as its cause; `Fault.text` words it.
-/

namespace Rowwise

/-! ### Malformed text -/

/-- What a text could go on with, in the words of a reader. -/
inductive Concept where
  | endOfInput
  | expression
  | operator
  | identifier
  | literal
  | reference
deriving DecidableEq, Repr

/-- The words for a concept. -/
def Concept.text : Concept → String
  | endOfInput => "end of input"
  | expression => "expression"
  | operator => "operator"
  | identifier => "identifier"
  | literal => "literal"
  | reference => "reference"

/-- A list in words: commas, and `or` before the last. -/
def listText : List String → String
  | [] => "something else"
  | [a] => a
  | [a, b] => a ++ " or " ++ b
  | a :: b :: rest => a ++ ", " ++ listText (b :: rest)

/-- What is wrong with a text. -/
inductive Malformed where
  /-- The text cannot go on as it does. -/
  | expected (concepts : List Concept)
  /-- An escape names no character. -/
  | badUnicode (taken : String)
  /-- A text ends inside an escape. -/
  | danglingEscape
  /-- The expression is nested too deeply. -/
  | tooDeep (limit : Nat)
deriving DecidableEq, Repr

/-- The wording. -/
def Malformed.text : Malformed → String
  | expected concepts => "expected " ++ listText (concepts.map Concept.text)
  | badUnicode taken => "invalid unicode escape '\\u" ++ taken ++ "'"
  | danglingEscape => "dangling escape at end of literal"
  | tooDeep limit => s!"expression nesting depth exceeds maximum of {limit} levels"

/-! ### Arguments -/

/-- The counts of arguments that a function accepts. -/
structure Arity where
  least : Nat
  most : Option Nat
deriving DecidableEq, Repr

namespace Arity

/-- Exactly `n` arguments. -/
def exact (n : Nat) : Arity := ⟨n, some n⟩

/-- From `least` to `most` arguments. -/
def between (least most : Nat) : Arity := ⟨least, some most⟩

/-- At least `n` arguments. -/
def atLeast (n : Nat) : Arity := ⟨n, none⟩

/-- True if `n` arguments are accepted. -/
def accepts (a : Arity) (n : Nat) : Bool :=
  a.least ≤ n &&
    match a.most with
    | none => true
    | some m => n ≤ m

/-- The wording. -/
def text (a : Arity) : String :=
  match a.most with
  | none => s!"at least {a.least}"
  | some m =>
    if m = a.least then s!"{m}"
    else if m = a.least + 1 then s!"{a.least} or {m}"
    else s!"{a.least} to {m}"

end Arity

/-- What a position of an argument accepts. -/
inductive Param where
  | number
  | text
  | instant
  | timeOfDay
  | condition
  | any
deriving DecidableEq, Repr

namespace Param

/-- True if the position accepts values of the type. -/
def accepts (p : Param) (t : ValueType) : Bool :=
  match p with
  | number => t.isNumeric
  | text => t = .text
  | instant => t = .instant
  | timeOfDay => t = .timeOfDay
  | condition => t = .boolean || t.isNumeric
  | any => true

/-- The wording. -/
def words : Param → String
  | number => "numeric"
  | text => "string"
  | instant => "instant"
  | timeOfDay => "local_time"
  | condition => "boolean or numeric"
  | any => "any"

end Param

/-- What is wrong with the type of an argument. -/
inductive TypeCause where
  /-- The argument at a position, counted from one, has a type that the function does not accept. -/
  | argument (position : Nat) (wanted : Param) (found : ValueType)
  | incomparable (left right : ValueType)
  | unconvertible (source target : ValueType)
  | typeNotConstant
  | evalWithoutType
  | attributeWithoutType
deriving DecidableEq, Repr

/-- The wording. -/
def TypeCause.text : TypeCause → String
  | argument position wanted found =>
    s!"argument {position} must be " ++ wanted.words ++ ", found " ++ found.name
  | incomparable left right => "cannot compare " ++ left.name ++ " with " ++ right.name
  | unconvertible source target => "cannot convert " ++ source.name ++ " to " ++ target.name
  | typeNotConstant => "the type argument must be a constant such as TYPE_DOUBLE"
  | evalWithoutType => "a non-constant expression needs a result type, e.g. eval(text, TYPE_DOUBLE)"
  | attributeWithoutType => "a non-constant attribute name needs a result type"

/-- What is wrong with the value of an argument. -/
inductive ValueCause where
  | missingLeft
  | notWhole (what : String) (value : Float)
  | notCount (what : String) (value : Float)
  | negativeCounts (n k : Int)
  | cutOutside (start finish total : Nat)
  | indexOutside (index total : Nat)
  | emptySearch
  | badRegex (pattern : String)
  | largeRegex (pattern : String)
  | typeMissing
  | unknownType (name : String)
  | noTarget (type : ValueType)
  | attributeMissing
  | macroMissing
  | macroUnset
  | evalInside
  | nestedTooDeep (limit : Nat)
  | unknownUnit (text : String)
  | unknownZone (text : String)
  | unknownLocale (text : String)
  | notOfDay (unit : DateUnit)
  | badPattern (pattern : String)
  | patternUnfit (pattern : String)
  | unreadable (text : String) (pattern : Option String)
  | calendar (cause : CalendarCause)
  | unknownParameter (parameter operator : String)
  | refused
  /-- A place was read that no argument stands at, or one of another type. -/
  | lostArgument
deriving DecidableEq, Repr

/-- True if the calculation cannot be given up with a fault: the program breaks off. -/
def ValueCause.breaksOff : ValueCause → Bool
  | calendar .noLocalTime => true
  | _ => false

/-- The wording. -/
def CalendarCause.text : CalendarCause → String
  | outOfRange => "the result is out of the supported range"
  | noLocalTime => "the local time is out of the supported range"
  | badField unit lo hi value =>
    unit.name ++ s!" must be a whole number in {lo}..={hi}, was " ++ Double.shortest value
  | noWeek year week => s!"{year} has no week {week}"

/-- The wording. -/
def ValueCause.text : ValueCause → String
  | missingLeft => "left operand is a constant missing value"
  | notWhole what value => what ++ " must be a whole number, was " ++ Double.shortest value
  | notCount what value => what ++ " must be a non-negative whole number, was " ++ Double.shortest value
  | negativeCounts n k => s!"arguments must not be negative, were {n} and {k}"
  | cutOutside start finish total => s!"range {start}..{finish} is outside of a text of length {total}"
  | indexOutside index total => s!"index {index} is outside of a text of length {total}"
  | emptySearch => "search text must not be empty"
  | badRegex pattern => "invalid regular expression '" ++ pattern ++ "'"
  | largeRegex pattern =>
    "invalid regular expression '" ++ pattern ++ "': Compiled regex exceeds size limit of 10485760 bytes."
  | typeMissing => "the type argument is missing"
  | unknownType name => "unknown type name '" ++ name ++ "'"
  | noTarget type => "cannot convert to " ++ type.name
  | attributeMissing => "the attribute name is missing"
  | macroMissing => "the macro name is missing"
  | macroUnset => "the scope constant has no value"
  | evalInside => "nested expressions must not call eval"
  | nestedTooDeep limit => s!"sub-expressions nested deeper than {limit} levels"
  | unknownUnit text => "unknown date unit '" ++ text ++ "'"
  | unknownZone text => "unknown time zone '" ++ text ++ "'"
  | unknownLocale text => "unknown locale '" ++ text ++ "'"
  | notOfDay unit => "unit '" ++ unit.name ++ "' is not supported for times of day"
  | badPattern pattern => "invalid date pattern '" ++ pattern ++ "'"
  | patternUnfit pattern => "pattern '" ++ pattern ++ "' does not apply"
  | unreadable text none => "cannot parse '" ++ text ++ "'"
  | unreadable text (some pattern) => "cannot parse '" ++ text ++ "' with pattern '" ++ pattern ++ "'"
  | calendar cause => cause.text
  | unknownParameter parameter operator =>
    "unknown parameter '" ++ parameter ++ "' of operator '" ++ operator ++ "'"
  | refused => "always fails"
  | lostArgument => "an argument is missing"

/-! ### Defects -/

/-- Defects of the program around an expression. -/
inductive Defect where
  /-- A node yielded a value of another storage than its type has. -/
  | yielded (declared found : ValueType)
  /-- A node was asked for a storage that its type has not. -/
  | requested (storage : Storage) (type : ValueType)
  /-- A resolver has no values of this storage. -/
  | unsupported (storage : Storage) (name : String)
  /-- A table has no such column. -/
  | noColumn (name : String)
  /-- A column was read as a storage that it has not. -/
  | wrongColumn (storage : Storage) (type : ValueType) (name : String)
  /-- A function was not given the arguments that its arity and the types of its places promise. -/
  | lostArgument (function : String)
deriving DecidableEq, Repr

/-- Where a defect shows. -/
def Defect.origin : Defect → String
  | yielded .. | requested .. | lostArgument .. => "evaluator"
  | unsupported .. => "resolver"
  | noColumn .. | wrongColumn .. => "table resolver"

/-- The wording. -/
def Defect.text : Defect → String
  | yielded declared found =>
    "producer declared as " ++ declared.name ++ " yielded a " ++ found.name ++ " value"
  | requested storage type => "requested a " ++ storage.name ++ " producer from a " ++ type.name ++ " node"
  | unsupported storage name =>
    storage.name ++ " values of '" ++ name ++ "' are not supported by this resolver"
  | noColumn name => "no column named '" ++ name ++ "'"
  | wrongColumn storage type name =>
    "requested " ++ storage.name ++ " value from " ++ type.name ++ " column '" ++ name ++ "'"
  | lostArgument function => "arguments of '" ++ function ++ "' are missing"

/-! ### Faults -/

/-- Why parsing or evaluating an expression failed. -/
inductive Fault where
  | malformed (line column : Nat) (cause : Malformed)
  | unknownName (name : String)
  | unknownFunction (name : String)
  | arity (function : String) (expected : Arity) (found : Nat)
  | type (function : String) (cause : TypeCause)
  | value (function : String) (cause : ValueCause)
  /-- A nested expression failed. -/
  | nested (function : String) (inner : Fault)
  | internal (defect : Defect)
  /-- The host has cancelled the job. -/
  | aborted
deriving DecidableEq, Repr

/-- The kinds of faults that a host tells apart. -/
inductive FaultKind where
  | malformed
  | type
  | value
  | nested
  | internal
  | aborted
deriving DecidableEq, Repr

namespace Fault

/-- The kind of a fault. -/
def kind : Fault → FaultKind
  | malformed .. | unknownName .. | unknownFunction .. => .malformed
  | arity .. | type .. => .type
  | value .. => .value
  | nested .. => .nested
  | internal .. => .internal
  | aborted => .aborted

/-- The fault of a function by a cause; arguments that are not there are a defect. -/
def ofCause (function : String) : ValueCause → Fault
  | .lostArgument => internal (.lostArgument function)
  | cause => value function cause

/-- A fault inside a nested expression of `function`; cancellation stays itself. -/
def within (function : String) : Fault → Fault
  | aborted => aborted
  | inner => nested function inner

/-- True if the program breaks off, also inside nested expressions: no host is told a fault then. -/
def breaksOff : Fault → Bool
  | value _ cause => cause.breaksOff
  | nested _ inner => inner.breaksOff
  | _ => false

/-- The line of malformed text, also inside nested expressions. -/
def line? : Fault → Option Nat
  | malformed line _ _ => some line
  | nested _ inner => inner.line?
  | _ => none

/-- The wording. -/
def text : Fault → String
  | malformed line column cause => s!"syntax error in line {line}, column {column}: " ++ cause.text
  | unknownName name => "unknown identifier '" ++ name ++ "'"
  | unknownFunction name => "unknown function '" ++ name ++ "'"
  | arity function expected found =>
    "wrong number of arguments for '" ++ function ++ "': expected " ++ expected.text ++ s!", found {found}"
  | type function cause => "invalid argument type for '" ++ function ++ "': " ++ cause.text
  | value function cause => "invalid argument value for '" ++ function ++ "': " ++ cause.text
  | nested function inner => "error in sub-expression of '" ++ function ++ "': " ++ inner.text
  | internal defect => "internal error in " ++ defect.origin ++ ": " ++ defect.text
  | aborted => "evaluation aborted"

end Fault

end Rowwise
