import Rowwise.Double.Power

/-!
# Rowwise.Double.Parts — the exact value of a double

A finite double is `± mantissa * 2 ^ exponent` for natural `mantissa` and integer `exponent`.  All functions here
compute on these parts with exact integers, so that no rounding is hidden in them: whole parts, remainders and
conversions to bounded integers.  `parts?` takes the bits apart and `ofParts` puts them together.
-/

namespace Rowwise.Double

/-- A finite double: `mantissa * 2 ^ exponent`, negated if `negative`. -/
structure Parts where
  negative : Bool
  mantissa : Nat
  exponent : Int
deriving DecidableEq, Repr

/-- The double with the sign bit, exponent field and fraction field given. -/
def ofFields (negative : Bool) (field fraction : Nat) : Float :=
  Float.ofBits (UInt64.ofNat ((if negative then twoTo 63 else 0) + field * twoTo 52 + fraction))

/-- The missing number. -/
def nan : Float := ofFields false 2047 (twoTo 51)

/-- Positive or negative infinity. -/
def infinity (negative : Bool) : Float := ofFields negative 2047 0

/-- The sign bit. -/
def isNegative (x : Float) : Bool := twoTo 63 ≤ x.toBits.toNat

/-- The exponent field. -/
def exponentField (x : Float) : Nat := x.toBits.toNat / twoTo 52 % 2048

/-- The fraction field. -/
def fractionField (x : Float) : Nat := x.toBits.toNat % twoTo 52

/-- True for NaN. -/
def isMissing (x : Float) : Bool := exponentField x == 2047 && fractionField x != 0

/-- True for the two infinities. -/
def isInfinite (x : Float) : Bool := exponentField x == 2047 && fractionField x == 0

/-- True for every double but NaN and the infinities. -/
def isFinite (x : Float) : Bool := exponentField x != 2047

/-- The parts of a finite double; none for NaN and the infinities. -/
def parts? (x : Float) : Option Parts :=
  let field := exponentField x
  if field = 2047 then none
  else if field = 0 then some ⟨isNegative x, fractionField x, -1074⟩
  else some ⟨isNegative x, twoTo 52 + fractionField x, (field : Int) - 1075⟩

/-- The double with the parts given, which must be a value that doubles have: `mantissa` of at most 53 binary
digits, and no binary digit below `2 ^ -1074` or above `2 ^ 1023`. -/
def ofParts (p : Parts) : Float :=
  if p.mantissa = 0 then ofFields p.negative 0 0
  else
    let lead := (p.mantissa.log2 : Int) + p.exponent
    if lead < -1022 then
      ofFields p.negative 0 (p.mantissa * twoTo (p.exponent + 1074).toNat)
    else
      ofFields p.negative (lead + 1023).toNat (p.mantissa * twoTo (52 - p.mantissa.log2) - twoTo 52)

namespace Parts

/-- The magnitude without its fraction. -/
def whole (p : Parts) : Nat :=
  if 0 ≤ p.exponent then p.mantissa * twoTo p.exponent.toNat else p.mantissa / twoTo (-p.exponent).toNat

/-- The fraction of the magnitude, as a count of `2 ^ exponent`. -/
def fraction (p : Parts) : Nat :=
  if 0 ≤ p.exponent then 0 else p.mantissa % twoTo (-p.exponent).toNat

/-- Twice the fraction against one whole: below, at or above a half. -/
def half (p : Parts) : Ordering := compare (2 * p.fraction) (twoTo (-p.exponent).toNat)

/-- The value without its fraction. -/
def toInt (p : Parts) : Int := if p.negative then -(p.whole : Int) else p.whole

end Parts

/-- Ways to pick a whole number near a value. -/
inductive Rounding where
  | down
  | up
  | towardZero
  | nearestAway
deriving DecidableEq, Repr

/-- True if the magnitude grows by one when its fraction is dropped. -/
def Rounding.grows (r : Rounding) (p : Parts) : Bool :=
  match r with
  | .down => p.negative && p.fraction != 0
  | .up => !p.negative && p.fraction != 0
  | .towardZero => false
  | .nearestAway => p.fraction != 0 && p.half != .lt

/-- The whole number that `r` picks for `x`, with the sign of `x` also if it is zero; NaN and the infinities stay. -/
def round (r : Rounding) (x : Float) : Float :=
  match parts? x with
  | none => x
  | some p =>
    if 0 ≤ p.exponent then x
    else ofParts ⟨p.negative, p.whole + (if r.grows p then 1 else 0), 0⟩

/-- The largest whole number not above. -/
def floor (x : Float) : Float := round .down x

/-- The smallest whole number not below. -/
def ceil (x : Float) : Float := round .up x

/-- The whole number next toward zero. -/
def trunc (x : Float) : Float := round .towardZero x

/-- The nearest whole number, a half going away from zero. -/
def nearest (x : Float) : Float := round .nearestAway x

/-- True if `x` is finite and has no fraction. -/
def isWhole (x : Float) : Bool :=
  match parts? x with
  | none => false
  | some p => p.fraction == 0

/-- The exact integer that a finite double without its fraction is. -/
def toInt? (x : Float) : Option Int := (parts? x).map Parts.toInt

/-- The least and the greatest 64-bit integer. -/
def minInt64 : Int := -(twoTo 63 : Int)

@[inherit_doc minInt64]
def maxInt64 : Int := (twoTo 63 : Int) - 1

/-- `n` pulled into the range `lo` to `hi`. -/
def clamp (lo hi n : Int) : Int := max lo (min hi n)

/-- `x` without its fraction as an integer of the range `lo` to `hi`: values outside go to the nearer end, NaN to
zero. -/
def saturate (lo hi : Int) (x : Float) : Int :=
  match parts? x with
  | some p => clamp lo hi p.toInt
  | none => if isMissing x then 0 else if isNegative x then lo else hi

/-- `x` as a 64-bit integer. -/
def toInt64 (x : Float) : Int := saturate minInt64 maxInt64 x

/-- `x` as an unsigned 64-bit integer. -/
def toNat64 (x : Float) : Nat := (saturate 0 ((twoTo 64 : Int) - 1) x).toNat

/-- The double nearest to an integer. -/
def ofInt (n : Int) : Float := Float.ofInt n

/-- The double nearest to a natural number. -/
def ofNat (n : Nat) : Float := Float.ofNat n

/-- The remainder of the division toward zero, with the sign of `x`; exact.  It is NaN for an infinite `x`, a zero
`y` or a NaN, and `x` itself for an infinite `y`. -/
def remainder (x y : Float) : Float :=
  if isMissing x || isMissing y then nan
  else
    match parts? x, parts? y with
    | none, _ => nan
    | some _, none => x
    | some p, some d =>
      if d.mantissa = 0 then nan
      else
        let e := min p.exponent d.exponent
        let a := p.mantissa * twoTo (p.exponent - e).toNat
        let b := d.mantissa * twoTo (d.exponent - e).toNat
        ofParts ⟨p.negative, a % b, e⟩

/-- `x` raised to a natural power by squaring: the product runs over the binary digits of `n` from the lowest. -/
def powNat (x : Float) (n : Nat) : Float :=
  go x 1 n n
where
  /-- The product with `acc`; the last argument bounds the number of digits left. -/
  go (base acc : Float) (n : Nat) : Nat → Float
    | 0 => acc
    | fuel + 1 =>
      let acc := if n % 2 = 1 then acc * base else acc
      if n / 2 = 0 then acc else go (base * base) acc (n / 2) fuel

/-- `x` raised to an integer power; a negative power is one over the positive one. -/
def powInt (x : Float) (n : Int) : Float :=
  if n < 0 then 1 / powNat x n.natAbs else powNat x n.natAbs

end Rowwise.Double
