import Rowwise.Double.Parts

/-!
# Rowwise.Double.Decimal — doubles as decimal text

Writing: `shortest` gives the fewest digits that read back as the same double, the nearer of two and the larger on a
tie, always positional; `fixed` gives a set number of places of the exact value, a tie going to the even neighbour.
Reading: `read?` accepts an optional sign, then `inf`, `infinity` or `nan` in any case, or digits with at most one
point and an optional exponent.
-/

namespace Rowwise.Double

/-- The decimal number `digits * 10 ^ exponent`. -/
structure Decimal where
  digits : Nat
  exponent : Int
deriving DecidableEq, Repr

/-- `a * 10 ^ i` compared with `n * 2 ^ j`, exactly. -/
def compareScaled (a : Nat) (i : Int) (n : Nat) (j : Int) : Ordering :=
  compare (a * tenTo i.toNat * twoTo (-j).toNat) (n * twoTo j.toNat * tenTo (-i).toNat)

namespace Parts

/-- True if the next double below is only half as far away as the next one above. -/
def narrowBelow (p : Parts) : Bool := p.mantissa == twoTo 52 && -1074 < p.exponent

/-- True if `d` lies among the reals that round to `p`; the ends belong to it when the mantissa is even. -/
def readsBack (p : Parts) (d : Decimal) : Bool :=
  let lo := 4 * p.mantissa - (if p.narrowBelow then 1 else 2)
  let hi := 4 * p.mantissa + 2
  let closed := p.mantissa % 2 == 0
  let below := compareScaled d.digits d.exponent lo (p.exponent - 2)
  let above := compareScaled d.digits d.exponent hi (p.exponent - 2)
  (below == .gt || (closed && below == .eq)) && (above == .lt || (closed && above == .eq))

/-- The least `k` with `p < 10 ^ k`, for a mantissa that is not zero. -/
def scale (p : Parts) : Int :=
  let guess := ((p.mantissa.log2 : Int) + p.exponent) * 30103 / 100000 - 1
  match [guess, guess + 1, guess + 2].find? fun k => compareScaled 1 k p.mantissa p.exponent == .gt with
  | some k => k
  | none => guess + 3

/-- The value in units of `10 ^ g`, as a fraction. -/
def inUnits (p : Parts) (g : Int) : Nat × Nat :=
  (p.mantissa * twoTo p.exponent.toNat * tenTo (-g).toNat, twoTo (-p.exponent).toNat * tenTo g.toNat)

/-- The point `n` of the grid of `10 ^ g`, without a zero at its end: the neighbour above may be a power of ten. -/
def gridPoint (n : Nat) (g : Int) : Decimal :=
  if n % 10 = 0 then ⟨n / 10, g + 1⟩ else ⟨n, g⟩

/-- The neighbour of the value on the grid of `10 ^ g` that reads back: the nearer of two, the larger on a tie. -/
def onGrid (p : Parts) (g : Int) : Option Decimal :=
  let (num, den) := p.inUnits g
  let lo := num / den
  let down := gridPoint lo g
  let up := gridPoint (lo + 1) g
  match p.readsBack down, p.readsBack up with
  | true, true => some (if 2 * num < (2 * lo + 1) * den then down else up)
  | true, false => some down
  | false, true => some up
  | false, false => none

/-- The exact value as a decimal. -/
def exactDecimal (p : Parts) : Decimal :=
  if 0 ≤ p.exponent then ⟨p.mantissa * twoTo p.exponent.toNat, 0⟩
  else ⟨p.mantissa * fiveTo (-p.exponent).toNat, p.exponent⟩

/-- The decimal of the fewest digits that reads back as `p`. -/
def shortest (p : Parts) : Decimal :=
  if p.mantissa = 0 then ⟨0, 0⟩
  else
    let k := p.scale
    ((List.range 17).findSome? fun n => p.onGrid (k - (n + 1 : Nat))).getD p.exactDecimal

end Parts

/-- The digits of a natural number. -/
def digitsOf (n : Nat) : List Char := Nat.toDigits 10 n

/-- The digits of `n`, filled with zeros on the left up to `width`. -/
def padded (width n : Nat) : List Char :=
  let ds := digitsOf n
  List.replicate (width - ds.length) '0' ++ ds

/-- A decimal without an exponent: zeros are written out, and a point only stands before digits. -/
def Decimal.positional (d : Decimal) : List Char :=
  if 0 ≤ d.exponent then
    if d.digits = 0 then ['0'] else digitsOf d.digits ++ List.replicate d.exponent.toNat '0'
  else
    let places := (-d.exponent).toNat
    digitsOf (d.digits / tenTo places) ++ '.' :: padded places (d.digits % tenTo places)

/-- The sign in front of a magnitude. -/
def signed (negative : Bool) (cs : List Char) : String :=
  String.ofList (if negative then '-' :: cs else cs)

/-- The number with the fewest digits that read back, without an exponent; `NaN`, `inf` and `-inf` otherwise. -/
def shortest (x : Float) : String :=
  match parts? x with
  | some p => signed p.negative p.shortest.positional
  | none => if isMissing x then "NaN" else signed (isNegative x) ['i', 'n', 'f']

/-- `num / den` to the nearest natural number, a tie going to the even one. -/
def roundDiv (num den : Nat) : Nat :=
  let q := num / den
  match compare (2 * (num % den)) den with
  | .lt => q
  | .gt => q + 1
  | .eq => if q % 2 = 0 then q else q + 1

/-- The number with `places` digits after the point, for `places` at least one; the exact value is rounded. -/
def fixed (places : Nat) (x : Float) : String :=
  match parts? x with
  | some p =>
    let (num, den) := p.inUnits (-(places : Int))
    signed p.negative (Decimal.positional ⟨roundDiv num den, -(places : Int)⟩)
  | none => if isMissing x then "NaN" else signed (isNegative x) ['i', 'n', 'f']

/-! ### Reading -/

/-- The natural number that digits are. -/
def ofDigits (cs : List Char) : Nat := cs.foldl (fun n c => 10 * n + (c.toNat - 48)) 0

/-- The double nearest to `± digits * 10 ^ exponent`.  Beyond four hundred places every number is zero or infinite. -/
def ofDecimal (negative : Bool) (d : Decimal) : Float :=
  let lead := ((digitsOf d.digits).length : Int) + d.exponent
  let x :=
    if d.digits = 0 || lead < -400 then 0
    else if 400 < lead then infinity false
    else Float.ofScientific d.digits (d.exponent < 0) d.exponent.natAbs
  if negative then -x else x

/-- An optional sign and the text after it. -/
def splitSign : List Char → Bool × List Char
  | '-' :: cs => (true, cs)
  | '+' :: cs => (false, cs)
  | cs => (false, cs)

/-- The exponent that ends a number: nothing, or a mark, an optional sign and digits. -/
def readExponent? : List Char → Option Int
  | [] => some 0
  | c :: cs =>
    if c = 'e' ∨ c = 'E' then
      let (negative, ds) := splitSign cs
      if ds.isEmpty || !ds.all Char.isDigit then none
      else some (if negative then -(ofDigits ds : Int) else ofDigits ds)
    else none

/-- Digits with at most one point, at least one digit, and an optional exponent. -/
def readDecimal? (cs : List Char) : Option Decimal :=
  let whole := cs.takeWhile Char.isDigit
  let rest := cs.dropWhile Char.isDigit
  let (fraction, rest) :=
    match rest with
    | '.' :: more => (more.takeWhile Char.isDigit, more.dropWhile Char.isDigit)
    | _ => ([], rest)
  if whole.isEmpty && fraction.isEmpty then none
  else (readExponent? rest).map fun e => ⟨ofDigits (whole ++ fraction), e - fraction.length⟩

/-- The number that a text is, if it is one. -/
def read? (text : List Char) : Option Float :=
  let (negative, cs) := splitSign text
  let word := String.ofList (cs.map Char.toLower)
  if word = "nan" then some nan
  else if word = "inf" ∨ word = "infinity" then some (infinity negative)
  else (readDecimal? cs).map (ofDecimal negative)

end Rowwise.Double
