import Rowwise.Double.Parts

/-!
# Rowwise.Eval.Random — random numbers

A stream is given by its seed; its numbers are at least zero and less than one, and equal seeds give equal streams.
-/

namespace Rowwise.Random

/-- The distance between the states of a stream. -/
def stride : UInt64 := 0x9E3779B97F4A7C15

/-- Spreads the bits of a state. -/
def scramble (z : UInt64) : UInt64 :=
  let z := (z ^^^ (z >>> 30)) * 0xBF58476D1CE4E5B9
  let z := (z ^^^ (z >>> 27)) * 0x94D049BB133111EB
  z ^^^ (z >>> 31)

/-- The 53 bits of the number at a position of a stream. -/
def bitsAt (seed index : Nat) : Nat :=
  ((scramble (UInt64.ofNat seed + stride * UInt64.ofNat (index + 1))) >>> 11).toNat

/-- The number at a position of a stream. -/
def numberAt (seed index : Nat) : Float := Double.ofNat (bitsAt seed index) / 9007199254740992

/-- The seed that a number is: its whole part in 64 bits, or `default` if it has none. -/
def seedOf (x : Float) (default : Nat) : Nat :=
  if Double.isFinite x then (Double.toInt64 x % (twoTo 64 : Int)).toNat else default

end Rowwise.Random
