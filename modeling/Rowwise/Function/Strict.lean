import Rowwise.Function.Calendar
import Rowwise.Function.Number
import Rowwise.Function.Text

/-!
# Rowwise.Function.Strict — functions of values

These functions evaluate all of their arguments, and their result depends on nothing else but the zone that holds where
none is named.
-/

namespace Rowwise

/-- Comparisons by order. -/
inductive Order where
  | less
  | atMost
  | greater
  | atLeast
deriving DecidableEq, Repr

/-- Functions of truth values. -/
inductive Logic where
  | and
  | or
  | not
deriving DecidableEq, Repr

/-- Functions whose result depends on the values of their arguments alone. -/
inductive StrictFunction where
  | number (f : NumberFunction)
  /-- Joins two texts. -/
  | join
  | order (o : Order)
  | equality (negated : Bool)
  | logic (l : Logic)
  | isMissing
  | text (f : TextFunction)
  | calendar (f : CalendarFunction)
deriving DecidableEq, Repr

/-! ### Order -/

/-- True if values of the two types have an order: both numbers or both texts. -/
def comparable (a b : ValueType) : Bool := (a.isNumeric && b.isNumeric) || (a = .text && b = .text)

/-- The order of two numbers, neither of which is missing. -/
def compareNumbers (x y : Float) : Ordering := if x < y then .lt else if y < x then .gt else .eq

/-- The order of two values, if they have one. -/
def order? (a b : Value) : Option Ordering :=
  match a, b with
  | .text (some s), .text (some t) => some (compare s t)
  | a, b =>
    match a.number?, b.number? with
    | some x, some y =>
      if Double.isMissing x || Double.isMissing y then none else some (compareNumbers x y)
    | _, _ => none

/-- True if a comparison accepts an order. -/
def Order.accepts : Order → Ordering → Bool
  | less, o => o = .lt
  | atMost, o => o ≠ .gt
  | greater, o => o = .gt
  | atLeast, o => o ≠ .lt

/-- The comparison of two values; missing values compare false. -/
def Order.run (o : Order) (a b : Value) : Bool :=
  match order? a b with
  | some r => o.accepts r
  | none => false

/-! ### Truth and text -/

/-- The function of truth values, missing if one of them is. -/
def Logic.run : Logic → List Value → Except ValueCause (Option Bool)
  | and, [a, b] => .ok do return (← a.truth?) && (← b.truth?)
  | or, [a, b] => .ok do
    let x ← a.truth?
    let y ← b.truth?
    return x || y
  | not, [a] => .ok (a.truth?.map (!·))
  | _, _ => .error .lostArgument

/-- The texts of two values one after the other; a missing value counts as empty, but two give a missing text. -/
def joined (a b : Value) : Option String :=
  match a.toText?, b.toText? with
  | none, none => none
  | s, t => some (s.getD "" ++ t.getD "")

namespace StrictFunction

/-- The value of the function as a value of the type `type`. -/
def run (zone : Zone) (f : StrictFunction) (type : ValueType) (args : List Value) : Except ValueCause Value :=
  match f, args with
  | number f, args => return .number type (← f.run (args.map Value.toNumber))
  | join, [a, b] => .ok (.text (joined a b))
  | order o, [a, b] => .ok (.ofBool (o.run a b))
  | equality negated, [a, b] => .ok (.ofBool (a.equals b != negated))
  | logic l, args => return .boolean (← l.run args)
  | isMissing, [a] => .ok (.ofBool a.isMissing)
  | text f, args => f.run args
  | calendar f, args => f.run zone args
  | _, _ => .error .lostArgument

end StrictFunction

end Rowwise
