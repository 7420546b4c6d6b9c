import Rowwise.Double.Parts

/-!
# Rowwise.Double.Nearby — rounding rules of functions and conversions

Whole numbers and multiples of powers of ten near a number.
-/

namespace Rowwise.Double

/-- The sum with one half, rounded down. -/
def halfUp (x : Float) : Float := floor (x + 0.5)

/-- The most decimal digits that rounding distinguishes. -/
def maxDigits : Int := 400

/-- Rounds to `digits` decimal digits, a half up; a negative count rounds to tens, hundreds and so on.  A number that has
no such digits stays. -/
def roundTo (x : Float) (digits : Int) : Float :=
  if !isFinite x then x
  else
    let factor := powInt 10 (clamp (-maxDigits) maxDigits digits)
    if factor == 0 then 0
    else if !isFinite factor || !isFinite (x * factor) then x
    else halfUp (x * factor) / factor

/-- One with the sign of the number; a zero loses its sign. -/
def sign (x : Float) : Float :=
  if isMissing x || x == 0 then x.abs else if isNegative x then -1 else 1

/-- The nearest whole number, a half to the even neighbour. -/
def halfEven (x : Float) : Float :=
  let rounded := nearest x
  if (x - trunc x).abs == 0.5 && remainder rounded 2 != 0 then rounded - (if isNegative x then -1 else 1) else rounded

end Rowwise.Double
