import Mathlib.Algebra.Order.Ring.Nat
import Rowwise.Double.Decimal

/-!
# Rowwise.Proofs.Numbers.Digits — digits are read back

A natural number written with zeros in front of its digits is the number that the digits are (`Double.ofDigits_padded`); it has
as many digits as were asked for if these are enough (`Double.length_padded`), and digits alone.  Digits are a number below the next
power of ten (`Double.ofDigits_lt`).
-/

namespace Rowwise.Double

theorem ofDigits_eq (cs : List Char) : ofDigits cs = Nat.ofDigitChars 10 cs 0 := Nat.ofDigitChars_eq_foldl.symm

theorem ofDigits_digitsOf (n : Nat) : ofDigits (digitsOf n) = n := by
  rw [ofDigits_eq, digitsOf, Nat.ofDigitChars_ten_toDigits]

theorem ofDigits_replicate_append (k : Nat) (ds : List Char) : ofDigits (List.replicate k '0' ++ ds) = ofDigits ds := by
  rw [ofDigits_eq, ofDigits_eq, Nat.ofDigitChars_append, Nat.ofDigitChars_replicate_zero]
  simp

theorem ofDigits_padded (width n : Nat) : ofDigits (padded width n) = n := by
  unfold padded
  rw [ofDigits_replicate_append, ofDigits_digitsOf]

theorem length_digitsOf_le {n k : Nat} (hk : 0 < k) (h : n < 10 ^ k) : (digitsOf n).length ≤ k :=
  (Nat.length_toDigits_le_iff (by decide) hk).2 h

theorem length_padded {width n : Nat} (hwidth : 0 < width) (h : n < 10 ^ width) : (padded width n).length = width := by
  have hdigits := length_digitsOf_le hwidth h
  unfold padded
  rw [List.length_append, List.length_replicate]
  omega

theorem length_padded_pos (width n : Nat) : 0 < (padded width n).length := by
  have hdigits : 0 < (digitsOf n).length := Nat.length_toDigits_pos
  unfold padded
  rw [List.length_append]
  omega

theorem isDigit_padded (width n : Nat) : ∀ c ∈ padded width n, c.isDigit = true := by
  intro c h
  unfold padded at h
  rcases List.mem_append.1 h with hzero | hdigit
  · rw [List.eq_of_mem_replicate hzero]
    rfl
  · exact Nat.isDigit_of_mem_toDigits (by decide) (by decide) hdigit

theorem toNat_of_isDigit {c : Char} (h : c.isDigit = true) : 48 ≤ c.toNat ∧ c.toNat ≤ 57 := by
  unfold Char.isDigit at h
  simp only [Bool.and_eq_true, decide_eq_true_eq, ge_iff_le, UInt32.le_iff_toNat_le] at h
  exact h

/-- Digits are a number below the power of ten that has one digit more. -/
theorem ofDigits_lt {ds : List Char} (hds : ∀ c ∈ ds, c.isDigit = true) : ofDigits ds < 10 ^ ds.length := by
  induction ds with
  | nil => decide
  | cons c ds ih =>
    have hdigit := toNat_of_isDigit (hds c (by simp))
    have hrest := ih fun d hd => hds d (by simp [hd])
    have hvalue : ofDigits (c :: ds) = 10 ^ ds.length * (c.toNat - 48) + ofDigits ds := by
      rw [ofDigits_eq, ofDigits_eq, Nat.ofDigitChars_cons, Nat.ofDigitChars_eq_ofDigitChars_zero]
      simp
    have hmul : 10 ^ ds.length * (c.toNat - 48) ≤ 10 ^ ds.length * 9 := Nat.mul_le_mul_left _ (by omega)
    rw [hvalue, List.length_cons, Nat.pow_succ]
    omega

end Rowwise.Double
