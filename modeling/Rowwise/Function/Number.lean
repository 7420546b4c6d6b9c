import Rowwise.Double.Nearby
import Rowwise.Value.Fault

/-!
# Rowwise.Function.Number — functions of numbers

Missing numbers give missing results.  Functions of bits take whole numbers only.
-/

namespace Rowwise

/-- Functions of numbers whose result depends on their arguments alone. -/
inductive NumberFunction where
  | negate
  | add
  | subtract
  | multiply
  | divide
  | remainder
  | power
  | squareRoot
  | exponential
  | logarithm
  | decimalLogarithm
  | binaryLogarithm
  | sign
  | absolute
  | floor
  | ceiling
  | halfEven
  | round
  | sine
  | cosine
  | tangent
  | cotangent
  | secant
  | cosecant
  | arcSine
  | arcCosine
  | arcTangent
  | angle
  | hyperbolicSine
  | hyperbolicCosine
  | hyperbolicTangent
  | areaSine
  | areaCosine
  | areaTangent
  | bitOr
  | bitAnd
  | bitXor
  | bitNot
deriving DecidableEq, Repr

/-- The integer that a whole number is, within 64 bits. -/
def wholeNumber (what : String) (x : Float) : Except ValueCause Int :=
  match Double.parts? x with
  | none => .error (.notWhole what x)
  | some p =>
    if p.fraction = 0 ∧ p.toInt.natAbs ≤ twoTo 63 then .ok (Double.clamp Double.minInt64 Double.maxInt64 p.toInt)
    else .error (.notWhole what x)

/-- The bits of an integer in two's complement, in 64 places. -/
def bitsOf (n : Int) : BitVec 64 := BitVec.ofInt 64 n

/-- A function of the bits of two whole numbers. -/
def onBits (f : BitVec 64 → BitVec 64 → BitVec 64) (x y : Float) : Except ValueCause Float :=
  if Double.isMissing x || Double.isMissing y then .ok Double.nan
  else do
    let a ← wholeNumber "argument 1" x
    let b ← wholeNumber "argument 2" y
    return Double.ofInt (f (bitsOf a) (bitsOf b)).toInt

/-- A function of one number, missing where the number is. -/
def ofPresent (f : Float → Float) (x : Float) : Float := if Double.isMissing x then Double.nan else f x

/-- A function of two numbers, missing where one of them is. -/
def ofBothPresent (f : Float → Float → Float) (x y : Float) : Float :=
  if Double.isMissing x || Double.isMissing y then Double.nan else f x y

namespace NumberFunction

/-- The type of the results, for arguments of these types. -/
def result (f : NumberFunction) (types : List ValueType) : ValueType :=
  match f with
  | add | subtract | multiply | remainder => types.foldl ValueType.join .integer
  | negate | absolute => types.headD .double
  | sign | floor | ceiling | halfEven | bitOr | bitAnd | bitXor | bitNot => .integer
  | round => if types.length = 1 ∨ types.head? = some .integer then .integer else .double
  | _ => .double

/-- The function of one number, if it is one. -/
def unary? : NumberFunction → Option (Float → Float)
  | negate => some fun x => -x
  | squareRoot => some Float.sqrt
  | exponential => some (ofPresent Float.exp)
  | logarithm => some (ofPresent Float.log)
  | decimalLogarithm => some (ofPresent Float.log10)
  | binaryLogarithm => some (ofPresent Float.log2)
  | sign => some Double.sign
  | absolute => some Float.abs
  | floor => some Double.floor
  | ceiling => some Double.ceil
  | halfEven => some Double.halfEven
  | sine => some (ofPresent Float.sin)
  | cosine => some (ofPresent Float.cos)
  | tangent => some (ofPresent Float.tan)
  | cotangent => some (ofPresent fun x => 1 / x.tan)
  | secant => some (ofPresent fun x => 1 / x.cos)
  | cosecant => some (ofPresent fun x => 1 / x.sin)
  | arcSine => some (ofPresent Float.asin)
  | arcCosine => some (ofPresent Float.acos)
  | arcTangent => some (ofPresent Float.atan)
  | hyperbolicSine => some (ofPresent Float.sinh)
  | hyperbolicCosine => some (ofPresent Float.cosh)
  | hyperbolicTangent => some (ofPresent Float.tanh)
  | areaSine => some (ofPresent Float.asinh)
  | areaCosine => some (ofPresent Float.acosh)
  | areaTangent => some (ofPresent Float.atanh)
  | _ => none

/-- The function of two numbers, if it is one that never fails. -/
def binary? : NumberFunction → Option (Float → Float → Float)
  | add => some (· + ·)
  | subtract => some (· - ·)
  | multiply => some (· * ·)
  | divide => some (· / ·)
  | remainder => some Double.remainder
  | power => some Float.pow
  | angle => some (ofBothPresent Float.atan2)
  | _ => none

/-- The value of the function; it reads as many arguments as its arity promises. -/
def run (f : NumberFunction) (args : List Float) : Except ValueCause Float :=
  match f, args with
  | round, [x] => .ok (Double.roundTo x 0)
  | round, [x, digits] =>
    if Double.isMissing digits then .ok Double.nan
    else return Double.roundTo x (← wholeNumber "number of digits" digits)
  | bitOr, [x, y] => onBits (· ||| ·) x y
  | bitAnd, [x, y] => onBits (· &&& ·) x y
  | bitXor, [x, y] => onBits (· ^^^ ·) x y
  | bitNot, [x] =>
    if Double.isMissing x then .ok Double.nan
    else return Double.ofInt (~~~ bitsOf (← wholeNumber "argument" x)).toInt
  | f, [x] =>
    match f.unary? with
    | some g => .ok (g x)
    | none => .error .lostArgument
  | f, [x, y] =>
    match f.binary? with
    | some g => .ok (g x y)
    | none => .error .lostArgument
  | _, _ => .error .lostArgument

end NumberFunction

end Rowwise
