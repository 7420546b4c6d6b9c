/-!
# Rowwise.Double.Power — powers of two, five and ten

The places of binary and decimal numbers.  `5 ^ n` turns a binary fraction into a decimal one: `1 / 2 ^ n` is
`5 ^ n / 10 ^ n`.
-/

namespace Rowwise

/-- Two to the power `n`. -/
def twoTo (n : Nat) : Nat := Nat.pow 2 n

/-- Five to the power `n`. -/
def fiveTo (n : Nat) : Nat := Nat.pow 5 n

/-- Ten to the power `n`. -/
def tenTo (n : Nat) : Nat := Nat.pow 10 n

theorem twoTo_succ (n : Nat) : twoTo (n + 1) = 2 * twoTo n := Nat.mul_comm ..

theorem tenTo_succ (n : Nat) : tenTo (n + 1) = 10 * tenTo n := Nat.mul_comm ..

theorem twoTo_mul_fiveTo (n : Nat) : twoTo n * fiveTo n = tenTo n := (Nat.mul_pow 2 5 n).symm

theorem twoTo_pos (n : Nat) : 0 < twoTo n := Nat.pow_pos Nat.zero_lt_two

theorem tenTo_pos (n : Nat) : 0 < tenTo n := Nat.pow_pos (Nat.succ_pos 9)

end Rowwise
