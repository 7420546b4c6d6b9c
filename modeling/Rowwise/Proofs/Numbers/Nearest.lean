import Mathlib.Algebra.Group.Int.Even
import Mathlib.Algebra.Order.Field.Rat
import Mathlib.Algebra.Order.Ring.Abs
import Mathlib.Data.Rat.Cast.Order
import Mathlib.Tactic.Linarith
import Mathlib.Tactic.Positivity
import Mathlib.Tactic.Ring

/-!
# Rowwise.Proofs.Numbers.Nearest — rounding to 53 binary digits

A number is rounded to a mantissa of 53 binary digits in two steps: the exponent is the one that gives the mantissa all its digits,
or the least one there is, and the mantissa is the nearest integer, the even one on a tie (`Double.Rounds`).  Both are
determined, so there is one result (`Double.IsNearest.unique`).  No number of 53 digits is nearer
(`Double.IsNearest.abs_sub_le`), so a number that has such digits itself is not changed (`Double.IsNearest.eq_self`) and rounding
does not jump over one (`Double.IsNearest.le_of_le`, `Double.IsNearest.ge_of_ge`).  The error of one rounding is at most half of
the last place (`Double.IsNearest.abs_sub_le_of_lt`, `Double.IsNearest.abs_sub_le_abs`).
-/

namespace Rowwise.Double

/-- The number has a mantissa of 53 binary digits, or is the next power of two. -/
def Fits (q : ℚ) : Prop := ∃ m e : ℤ, |m| ≤ 2 ^ 53 ∧ -1074 ≤ e ∧ q = m * 2 ^ e

/-- `m * 2 ^ e` is what `q` is rounded to. -/
structure Rounds (q : ℚ) (m e : ℤ) : Prop where
  near : |m * 2 ^ e - q| ≤ 2 ^ e / 2
  even : |m * 2 ^ e - q| = 2 ^ e / 2 → Even m
  least : -1074 ≤ e
  /-- No digit is given away. -/
  fine : e = -1074 ∨ 2 ^ 52 * 2 ^ e ≤ |q|
  /-- No digit is too many. -/
  coarse : |q| < 2 ^ 53 * 2 ^ e

/-- `d` is the double nearest to `q`, as far as doubles reach. -/
def IsNearest (q d : ℚ) : Prop := ∃ m e : ℤ, Rounds q m e ∧ d = m * 2 ^ e

variable {q d d' : ℚ} {m m' e e' : ℤ}

theorem two_zpow_pos (e : ℤ) : (0 : ℚ) < 2 ^ e := zpow_pos two_pos e

/-- With a greater exponent, a power of two is a multiple. -/
theorem two_zpow_eq_mul (h : e ≤ e') : (2 : ℚ) ^ e' = ((2 ^ (e' - e).toNat : ℤ) : ℚ) * 2 ^ e := by
  have hsplit : e' = ((e' - e).toNat : ℤ) + e := by omega
  conv_lhs => rw [hsplit, zpow_add₀ two_ne_zero, zpow_natCast]
  push_cast
  rfl

theorem two_zpow_succ (e : ℤ) : (2 : ℚ) ^ (e + 1) = 2 * 2 ^ e := by
  rw [zpow_add₀ two_ne_zero, zpow_one, mul_comm]

theorem two_zpow_lt (h : e < e') : 2 * (2 : ℚ) ^ e ≤ 2 ^ e' := by
  rw [← two_zpow_succ]
  exact zpow_le_zpow_right₀ one_le_two h

/-! ### Numbers of 53 digits -/

theorem Fits.neg (h : Fits q) : Fits (-q) := by
  obtain ⟨m, e, hm, he, rfl⟩ := h
  exact ⟨-m, e, by rwa [abs_neg], he, by push_cast; ring⟩

theorem fits_intCast {n : ℤ} (hn : |n| ≤ 2 ^ 53) : Fits n := ⟨n, 0, hn, by omega, by simp⟩

/-- A natural number fits if there are no more than 53 digits in front of its last zeros. -/
theorem fits_of_dvd {n : ℕ} (h : 2 ^ (n.log2 - 52) ∣ n) : Fits n := by
  obtain ⟨m, hm⟩ := h
  have hlog : n < 2 ^ (n.log2 - 52) * 2 ^ 53 := by
    rw [← Nat.pow_add]
    exact Nat.lt_log2_self.trans_le (Nat.pow_le_pow_right Nat.zero_lt_two (by omega))
  have hsmall : m < 2 ^ 53 := by
    refine lt_of_mul_lt_mul_left (a := 2 ^ (n.log2 - 52)) ?_ (Nat.zero_le _)
    rwa [← hm]
  refine ⟨m, (n.log2 - 52 : ℕ), ?_, by omega, ?_⟩
  · rw [Nat.abs_cast]
    exact_mod_cast hsmall.le
  · conv_lhs => rw [hm]
    rw [zpow_natCast]
    push_cast
    ring

theorem mul_two_zpow_of_nonneg (he : 0 ≤ e) : (m : ℚ) * 2 ^ e = ((m * 2 ^ e.toNat : ℤ) : ℚ) := by
  conv_lhs => rw [← Int.toNat_of_nonneg he, zpow_natCast]
  push_cast
  rfl

theorem abs_mul_two_zpow_le (hm : |m| ≤ 2 ^ 53) (he : e < 0) : |(m : ℚ) * 2 ^ e| ≤ 2 ^ 52 := by
  have hunit : (2 : ℚ) * 2 ^ e ≤ 2 ^ (0 : ℤ) := two_zpow_lt he
  have hm' : |(m : ℚ)| ≤ 2 ^ 53 := by exact_mod_cast hm
  have hmul := mul_le_mul_of_nonneg_right hm' (two_zpow_pos e).le
  rw [abs_mul, abs_of_pos (two_zpow_pos e)]
  rw [zpow_zero] at hunit
  linarith

/-- A number with a fraction is small. -/
theorem Fits.abs_le_of_not_whole (hq : Fits q) (hfraction : ¬∃ n : ℤ, q = n) : |q| ≤ 2 ^ 52 := by
  obtain ⟨m, e, hm, -, rfl⟩ := hq
  exact abs_mul_two_zpow_le hm (not_le.1 fun he => hfraction ⟨_, mul_two_zpow_of_nonneg he⟩)

/-- A whole number that is odd has no more than 53 digits. -/
theorem Fits.abs_lt_of_odd {n : ℤ} (hn : Fits n) (hodd : Odd n) : |n| < 2 ^ 53 := by
  obtain ⟨m, e, hm, -, hvalue⟩ := hn
  have hne : |n| ≠ 2 ^ 53 := by
    intro heq
    have heven : Even |n| := by
      rw [heq]
      decide
    exact Int.not_even_iff_odd.2 hodd (even_abs.1 heven)
  refine lt_of_le_of_ne ?_ hne
  rcases lt_trichotomy e 0 with hneg | rfl | hpos
  · have habs : |(n : ℚ)| ≤ 2 ^ 52 := hvalue ▸ abs_mul_two_zpow_le hm hneg
    have hint : |n| ≤ 2 ^ 52 := by exact_mod_cast habs
    omega
  · have heq : n = m := by
      rw [zpow_zero, mul_one] at hvalue
      exact_mod_cast hvalue
    rwa [heq]
  · -- a greater exponent makes it even
    have heq : n = m * 2 ^ e.toNat := by
      rw [mul_two_zpow_of_nonneg hpos.le] at hvalue
      exact_mod_cast hvalue
    have heven : Even n := by
      rw [heq]
      exact (Int.even_pow.2 ⟨even_two, by omega⟩).mul_left m
    exact absurd hodd (Int.not_odd_iff_even.2 heven)

/-! ### The result of rounding -/

namespace Rounds

theorem neg (h : Rounds q m e) : Rounds (-q) (-m) e := by
  have habs : |((-m : ℤ) : ℚ) * 2 ^ e - -q| = |m * 2 ^ e - q| := by
    rw [← abs_neg]
    congr 1
    push_cast
    ring
  exact ⟨habs ▸ h.near, fun htie => even_neg.2 (h.even (habs ▸ htie)), h.least, by rw [abs_neg]; exact h.fine,
    by rw [abs_neg]; exact h.coarse⟩

theorem not_exponent_lt (h : Rounds q m e) (h' : Rounds q m' e') : ¬e < e' := by
  intro hlt
  have hfine : (2 : ℚ) ^ 52 * 2 ^ e' ≤ |q| := h'.fine.resolve_left (by have := h.least; omega)
  have hcoarse := h.coarse
  have hstep := two_zpow_lt hlt
  linarith

theorem exponent_unique (h : Rounds q m e) (h' : Rounds q m' e') : e = e' :=
  le_antisymm (not_lt.1 (h'.not_exponent_lt h)) (not_lt.1 (h.not_exponent_lt h'))

/-- A greater mantissa is the next one and lies as far away, so one of the two is odd. -/
theorem not_mantissa_lt (h : Rounds q m e) (h' : Rounds q m' e) : ¬m < m' := by
  intro hlt
  have hunit := two_zpow_pos e
  have hnear := abs_le.1 h.near
  have hnear' := abs_le.1 h'.near
  have hstep : (m + 1 : ℚ) * 2 ^ e ≤ m' * 2 ^ e := by
    refine mul_le_mul_of_nonneg_right ?_ hunit.le
    exact_mod_cast hlt
  have htie : |m * 2 ^ e - q| = 2 ^ e / 2 := by
    rw [abs_eq (by positivity)]
    exact Or.inr (by linarith)
  have htie' : |m' * 2 ^ e - q| = 2 ^ e / 2 := by
    rw [abs_eq (by positivity)]
    exact Or.inl (by linarith)
  have hnext : m' = m + 1 := by
    have hsum : (m' : ℚ) * 2 ^ e = (m + 1) * 2 ^ e := by linarith
    exact_mod_cast mul_right_cancel₀ hunit.ne' hsum
  obtain ⟨a, ha⟩ := h.even htie
  obtain ⟨b, hb⟩ := h'.even htie'
  omega

theorem mantissa_unique (h : Rounds q m e) (h' : Rounds q m' e) : m = m' :=
  le_antisymm (not_lt.1 (h'.not_mantissa_lt h)) (not_lt.1 (h.not_mantissa_lt h'))

/-- Rounding gives at most one digit more, in the next power of two. -/
theorem abs_mantissa_le (h : Rounds q m e) : |m| ≤ 2 ^ 53 := by
  have hunit := two_zpow_pos e
  have hmagnitude : |(m : ℚ)| * 2 ^ e ≤ |m * 2 ^ e - q| + |q| := by
    rw [← abs_of_pos hunit, ← abs_mul, abs_of_pos hunit]
    simpa using abs_add_le (m * 2 ^ e - q) q
  have hlt : |(m : ℚ)| * 2 ^ e < (2 ^ 53 + 1) * 2 ^ e := by
    have hnear := h.near
    have hcoarse := h.coarse
    linarith
  have hbound : |(m : ℚ)| < 2 ^ 53 + 1 := lt_of_mul_lt_mul_right hlt hunit.le
  have hint : |m| < 2 ^ 53 + 1 := by exact_mod_cast hbound
  omega

/-- No other multiple of the unit in the last place is nearer. -/
theorem near_le (h : Rounds q m e) (k : ℤ) : |m * 2 ^ e - q| ≤ |k * 2 ^ e - q| := by
  have hunit := two_zpow_pos e
  by_cases hk : k = m
  · rw [hk]
  · have hapart : (1 : ℚ) ≤ |((k - m : ℤ) : ℚ)| := by exact_mod_cast Int.one_le_abs (sub_ne_zero.2 hk)
    have hdistance : 2 ^ e ≤ |(k * 2 ^ e - q) - (m * 2 ^ e - q)| := by
      have hscaled : (k * 2 ^ e - q) - (m * 2 ^ e - q) = ((k - m : ℤ) : ℚ) * 2 ^ e := by
        push_cast
        ring
      rw [hscaled, abs_mul, abs_of_pos hunit]
      exact le_mul_of_one_le_left hunit.le hapart
    have htriangle := abs_sub (k * 2 ^ e - q) (m * 2 ^ e - q)
    have hnear := h.near
    linarith

/-- Nor is a number with more digits behind the point: it lies below all numbers with this exponent. -/
theorem near_le_of_fits (h : Rounds q m e) (hd : Fits d) : |m * 2 ^ e - q| ≤ |d - q| := by
  obtain ⟨k, f, hk, hf, rfl⟩ := hd
  rcases le_or_gt e f with hle | hlt
  · have hscaled : (k : ℚ) * 2 ^ f = ((k * 2 ^ (f - e).toNat : ℤ) : ℚ) * 2 ^ e := by
      rw [two_zpow_eq_mul hle]
      push_cast
      ring
    rw [hscaled]
    exact h.near_le _
  · have hfine : (2 : ℚ) ^ 52 * 2 ^ e ≤ |q| := h.fine.resolve_left (by omega)
    have hsmall : |(k : ℚ) * 2 ^ f| ≤ 2 ^ 52 * 2 ^ e := by
      have hk' : |(k : ℚ)| ≤ 2 ^ 53 := by exact_mod_cast hk
      have hmul := mul_le_mul_of_nonneg_right hk' (two_zpow_pos f).le
      have hstep := two_zpow_lt hlt
      rw [abs_mul, abs_of_pos (two_zpow_pos f)]
      linarith
    have hunit := two_zpow_pos e
    have hall := abs_le.1 hsmall
    rcases abs_cases q with ⟨hq, -⟩ | ⟨hq, -⟩
    · refine (h.near_le (2 ^ 52)).trans ?_
      push_cast
      rw [abs_of_nonpos (by linarith), abs_of_nonpos (by linarith)]
      linarith
    · refine (h.near_le (-2 ^ 52)).trans ?_
      push_cast
      rw [abs_of_nonneg (by linarith), abs_of_nonneg (by linarith)]
      linarith

end Rounds

namespace IsNearest

theorem neg (h : IsNearest q d) : IsNearest (-q) (-d) := by
  obtain ⟨m, e, hround, rfl⟩ := h
  exact ⟨-m, e, hround.neg, by push_cast; ring⟩

theorem fits (h : IsNearest q d) : Fits d := by
  obtain ⟨m, e, hround, rfl⟩ := h
  exact ⟨m, e, hround.abs_mantissa_le, hround.least, rfl⟩

theorem unique (h : IsNearest q d) (h' : IsNearest q d') : d = d' := by
  obtain ⟨m, e, hround, rfl⟩ := h
  obtain ⟨m', e', hround', rfl⟩ := h'
  obtain rfl := hround.exponent_unique hround'
  rw [hround.mantissa_unique hround']

/-- No number of 53 digits is nearer. -/
theorem abs_sub_le (h : IsNearest q d) (hd : Fits d') : |d - q| ≤ |d' - q| := by
  obtain ⟨m, e, hround, rfl⟩ := h
  exact hround.near_le_of_fits hd

/-- A number of 53 digits is not changed. -/
theorem eq_self (h : IsNearest q d) (hq : Fits q) : d = q := by
  have hzero := h.abs_sub_le hq
  rw [sub_self, abs_zero] at hzero
  exact sub_eq_zero.1 (abs_nonpos_iff.1 hzero)

/-- Rounding does not come below a number of 53 digits that is not above. -/
theorem le_of_le (h : IsNearest q d) (hd : Fits d') (hle : d' ≤ q) : d' ≤ d := by
  by_contra hlt
  have hnear := h.abs_sub_le hd
  rw [abs_of_nonpos (by linarith), abs_of_nonpos (by linarith)] at hnear
  linarith

/-- Rounding does not come above a number of 53 digits that is not below. -/
theorem ge_of_ge (h : IsNearest q d) (hd : Fits d') (hge : q ≤ d') : d ≤ d' :=
  neg_le_neg_iff.1 (h.neg.le_of_le hd.neg (neg_le_neg hge))

/-- Below a power of two, rounding moves a number by no more than half of the last place there. -/
theorem abs_sub_le_of_lt (h : IsNearest q d) {b : ℤ} (hb : -1021 ≤ b) (hq : |q| < 2 ^ b) : |d - q| ≤ 2 ^ (b - 54) := by
  obtain ⟨m, e, hround, rfl⟩ := h
  have he : e ≤ b - 53 := by
    rcases hround.fine with rfl | hfine
    · omega
    · rw [← zpow_natCast, ← zpow_add₀ two_ne_zero] at hfine
      have hlt := (zpow_lt_zpow_iff_right₀ one_lt_two).1 (hfine.trans_lt hq)
      push_cast at hlt
      omega
  have hunit : (2 : ℚ) * 2 ^ (b - 54) = 2 ^ (b - 53) := by
    rw [← two_zpow_succ]
    congr 1
    ring
  have hmono : (2 : ℚ) ^ e ≤ 2 ^ (b - 53) := zpow_le_zpow_right₀ one_le_two he
  have hnear := hround.near
  linarith

/-- The error is small against the number. -/
theorem abs_sub_le_abs (h : IsNearest q d) (hq : 1 ≤ |q|) : |d - q| ≤ |q| / 2 ^ 53 := by
  obtain ⟨m, e, hround, rfl⟩ := h
  have hnear := hround.near
  have hunit : (2 : ℚ) ^ 52 * 2 ^ e ≤ |q| := by
    refine hround.fine.elim (fun he => ?_) id
    rw [he, ← zpow_natCast, ← zpow_add₀ two_ne_zero]
    exact (zpow_le_one_of_nonpos₀ one_le_two (by norm_num)).trans hq
  linarith

end IsNearest

end Rowwise.Double
