import Rowwise.Proofs.Numbers.Integers
import Rowwise.Proofs.Numbers.Nearest

/-!
# Rowwise.Proofs.Numbers.Accuracy — digits that are dropped

The digits that an operation drops are kept as two: the first of them, and whether one of the others is not zero
(`Unpacked.Describes`).  This is enough to round as if all of them were there: the result is the nearest number of 53 digits
(`Unpacked.isRounded_accuracy`), which is a double unless the number reaches the bound (`Double.Parts.IsFull.exponent_le`).
-/

namespace Rowwise

open Float.Model Float.Model.UnpackedFloat

namespace Double

/-- The parts have all the digits that a double has, of whatever magnitude they are. -/
structure Parts.IsFull (p : Parts) : Prop where
  mantissa_lt : p.mantissa < 2 ^ 53
  least : -1074 ≤ p.exponent
  digits : p.mantissa.log2 = 52 ∨ p.exponent = -1074 ∧ p.mantissa < 2 ^ 52

namespace Parts

variable {p : Parts}

theorem IsCanonical.full (h : p.IsCanonical) : p.IsFull := ⟨h.mantissa_lt, h.least, h.digits⟩

theorem IsFull.canonical (h : p.IsFull) (he : p.exponent ≤ 971) : p.IsCanonical := ⟨h.mantissa_lt, h.least, he, h.digits⟩

theorem abs_signed (p : Parts) : |p.signed| = p.mantissa := by
  unfold signed
  split
  · rw [abs_neg, Nat.abs_cast]
  · exact Nat.abs_cast _

theorem abs_value (p : Parts) : |p.value| = p.mantissa * 2 ^ p.exponent := by
  rw [value, abs_mul, abs_of_pos (two_zpow_pos _), ← Int.cast_abs, abs_signed, Int.cast_natCast]

theorem mantissa_pos (h : p.value ≠ 0) : 0 < p.mantissa := by
  refine Nat.pos_of_ne_zero fun hzero => h ?_
  have habs := p.abs_value
  rwa [hzero, Nat.cast_zero, zero_mul, abs_eq_zero] at habs

/-- Above the least exponent the first digit is there. -/
theorem IsFull.le_mantissa (h : p.IsFull) (he : p.exponent ≠ -1074) : 2 ^ 52 ≤ p.mantissa := by
  have hlog := h.digits.resolve_right fun hleast => he hleast.1
  have hpos : p.mantissa ≠ 0 := by
    intro hzero
    rw [hzero, Nat.log2_zero] at hlog
    cases hlog
  exact ((Nat.log2_eq_iff hpos).1 hlog).1

theorem IsFull.rounds (h : p.IsFull) : Rounds p.value p.signed p.exponent := by
  have hunit := two_zpow_pos p.exponent
  refine ⟨?_, fun htie => absurd htie ?_, h.least, ?_, ?_⟩
  · rw [value, sub_self, abs_zero]
    positivity
  · rw [value, sub_self, abs_zero]
    positivity
  · by_cases he : p.exponent = -1074
    · exact Or.inl he
    · refine Or.inr ?_
      rw [abs_value]
      exact mul_le_mul_of_nonneg_right (by exact_mod_cast h.le_mantissa he) hunit.le
  · rw [abs_value]
    exact mul_lt_mul_of_pos_right (by exact_mod_cast h.mantissa_lt) hunit

/-- Rounding keeps what has all its digits. -/
theorem IsFull.nearest (h : p.IsFull) : IsNearest p.value p.value := ⟨_, _, h.rounds, rfl⟩

theorem IsFull.fits (h : p.IsFull) : Fits p.value := h.nearest.fits

/-- The value determines the parts, but for the sign of zero. -/
theorem IsFull.eq_of_value {q : Parts} (hp : p.IsFull) (hq : q.IsFull) (h : p.value = q.value) (hne : p.value ≠ 0) :
    p = q := by
  have hexponent : p.exponent = q.exponent := hp.rounds.exponent_unique (h ▸ hq.rounds)
  have hsigned : p.signed = q.signed := by
    have hround := hq.rounds
    rw [← h, ← hexponent] at hround
    exact hp.rounds.mantissa_unique hround
  have hpos := mantissa_pos hne
  obtain ⟨s, m, e⟩ := p
  obtain ⟨t, k, f⟩ := q
  obtain rfl : e = f := hexponent
  cases s <;> cases t <;> simp [signed] at hsigned hpos ⊢ <;> omega

/-- What reaches the bound is rounded to an infinite number. -/
def bound : ℚ := (2 ^ 53 - 1 / 2) * 2 ^ (971 : ℤ)

theorem lt_of_lt_bound {q d : ℚ} (h : IsNearest q d) (hq : q < bound) : d < 2 ^ 53 * 2 ^ (971 : ℤ) := by
  have hgreatest : Fits (((2 ^ 53 - 1 : ℤ) : ℚ) * 2 ^ (971 : ℤ)) := ⟨_, _, by norm_num, by omega, rfl⟩
  have hnear := h.abs_sub_le hgreatest
  have hunit := two_zpow_pos 971
  unfold bound at hq
  generalize (2 : ℚ) ^ (971 : ℤ) = u at hnear hunit hq ⊢
  push_cast at hnear
  by_contra hlarge
  rw [abs_of_nonneg (by linarith)] at hnear
  rcases le_abs'.1 hnear with hbelow | habove <;> linarith

/-- Below the bound, numbers are rounded to doubles. -/
theorem IsFull.exponent_le {q : ℚ} (h : p.IsFull) (hp : IsNearest q p.value) (hq : |q| < bound) : p.exponent ≤ 971 := by
  by_contra hlarge
  have hvalue : 2 ^ 53 * 2 ^ (971 : ℤ) ≤ |p.value| := by
    have hmantissa : (2 ^ 52 : ℚ) ≤ p.mantissa := by exact_mod_cast h.le_mantissa (by omega)
    have hstep := two_zpow_lt (not_le.1 hlarge)
    have hmul := mul_le_mul_of_nonneg_right hmantissa (two_zpow_pos p.exponent).le
    rw [abs_value]
    linarith
  rcases le_abs.1 hvalue with habove | hbelow
  · exact absurd (lt_of_lt_bound hp (abs_lt.1 hq).2) (not_lt.2 habove)
  · exact absurd (lt_of_lt_bound hp.neg (neg_lt.1 (abs_lt.1 hq).1)) (not_lt.2 hbelow)

end Parts

end Double

namespace Unpacked

open Double (Rounds IsNearest)

/-! ### Digits that are dropped -/

/-- The number is the mantissa and a fraction, of which the two digits behind the mantissa tell whether it is zero, and how it
lies to one half. -/
def Describes (em : ExtendedMantissa) (t : ℚ) : Prop :=
  match em.roundBit, em.stickyBit with
  | false, false => t = em.mantissa
  | false, true => em.mantissa < t ∧ t < em.mantissa + 1 / 2
  | true, false => t = em.mantissa + 1 / 2
  | true, true => em.mantissa + 1 / 2 < t ∧ t < em.mantissa + 1

namespace Describes

variable {em : ExtendedMantissa} {t : ℚ}

theorem exact (m : Nat) : Describes ⟨m, false, false⟩ m := rfl

theorem bounds (h : Describes em t) : em.mantissa ≤ t ∧ t < em.mantissa + 1 := by
  obtain ⟨m, r, s⟩ := em
  cases r <;> cases s <;> simp only [Describes] at h <;> constructor <;> linarith

/-- Dropping one more digit halves the number. -/
theorem shiftRightOne (h : Describes em t) : Describes em.shiftRightOne (t / 2) := by
  obtain ⟨m, r, s⟩ := em
  have hsplit : (m : ℚ) = 2 * (m / 2 : Nat) + (m % 2 : Nat) := by exact_mod_cast (Nat.div_add_mod m 2).symm
  rcases Nat.mod_two_eq_zero_or_one m with hlast | hlast
  · have hbit : (m % 2 != 0) = false := by rw [hlast]; rfl
    rw [hlast, Nat.cast_zero] at hsplit
    cases r <;> cases s <;> simp only [Describes] at h <;>
      simp only [Describes, ExtendedMantissa.shiftRightOne, hbit, Bool.or_false, Bool.or_true] <;>
      first
      | linarith
      | constructor <;> linarith
  · have hbit : (m % 2 != 0) = true := by rw [hlast]; rfl
    rw [hlast, Nat.cast_one] at hsplit
    cases r <;> cases s <;> simp only [Describes] at h <;>
      simp only [Describes, ExtendedMantissa.shiftRightOne, hbit, Bool.or_false, Bool.or_true] <;>
      first
      | linarith
      | constructor <;> linarith

theorem shiftRight (h : Describes em t) (k : Nat) : Describes (em >>> k) (t / 2 ^ k) := by
  induction k with
  | zero => simpa [HShiftRight.hShiftRight, Nat.repeat] using h
  | succ k ih =>
    rw [pow_succ, ← div_div]
    exact ih.shiftRightOne

/-- The rounded mantissa is the nearest integer, the even one on a tie. -/
theorem roundedMantissa (h : Describes em t) :
    |em.roundedMantissa - t| ≤ 1 / 2 ∧ (|em.roundedMantissa - t| = 1 / 2 → Even em.roundedMantissa) := by
  obtain ⟨m, r, s⟩ := em
  have hsum : Even (m + m % 2) := by
    rw [Nat.even_iff]
    omega
  cases r <;> cases s <;> simp only [Describes] at h <;>
    simp only [ExtendedMantissa.roundedMantissa, ExtendedMantissa.accuracy, Accuracy.roundToNearestEven]
  · rw [h, sub_self, abs_zero]
    norm_num
  · rw [abs_of_neg (by linarith)]
    exact ⟨by linarith, fun htie => by linarith⟩
  · refine ⟨?_, fun _ => hsum⟩
    rcases Nat.mod_two_eq_zero_or_one m with hlast | hlast <;> rw [h, hlast] <;> push_cast <;> rw [abs_le] <;>
      constructor <;> linarith
  · push_cast
    rw [abs_of_pos (by linarith)]
    exact ⟨by linarith, fun htie => by linarith⟩

end Describes

/-! ### Rounding -/

/-- The number with a sign. -/
def withSign (s : Sign) (q : ℚ) : ℚ := if s == .negative then -q else q

/-- `u` is what `q` is rounded to. -/
def IsRounded (u : UnpackedFloat) (q : ℚ) : Prop := ∃ p, parts? u = some p ∧ p.IsFull ∧ IsNearest q p.value

theorem value_mk (s : Sign) (m : Nat) (e : Int) :
    (⟨s == .negative, m, e⟩ : Double.Parts).value = withSign s (m * 2 ^ e) := by
  unfold Double.Parts.value Double.Parts.signed withSign
  split <;> push_cast <;> ring

theorem withSign_negative (q : ℚ) : withSign .negative q = -q := rfl

theorem withSign_positive (q : ℚ) : withSign .positive q = q := rfl

theorem isNearest_withSign {q d : ℚ} (h : IsNearest q d) (s : Sign) : IsNearest (withSign s q) (withSign s d) := by
  cases s with
  | negative => exact h.neg
  | positive => exact h

theorem isRounded_self {u : UnpackedFloat} {p : Double.Parts} (h : parts? u = some p) (hp : p.IsFull) :
    IsRounded u p.value :=
  ⟨p, h, hp, hp.nearest⟩

theorem isFull_zero (negative : Bool) : (⟨negative, 0, -1074⟩ : Double.Parts).IsFull :=
  ⟨by norm_num, le_rfl, Or.inr ⟨rfl, by norm_num⟩⟩

theorem value_zero (negative : Bool) : (⟨negative, 0, -1074⟩ : Double.Parts).value = 0 := by
  simp [Double.Parts.value, Double.Parts.signed]

/-- The mantissa that a number is rounded to has all its digits: with fewer the number would be below the least one that has. -/
theorem isFull_of_rounds {q : ℚ} {r : Nat} {e : Int} (h : Rounds q (r : Int) e) (hq : 0 ≤ q) (hr : r < 2 ^ 53) (hne : r ≠ 0)
    (negative : Bool) : (⟨negative, r, e⟩ : Double.Parts).IsFull := by
  refine ⟨hr, h.least, ?_⟩
  rcases Nat.lt_or_ge r (2 ^ 52) with hfew | hall
  · refine Or.inr ⟨h.fine.resolve_right fun hfine => ?_, hfew⟩
    have hunit := Double.two_zpow_pos e
    have hbelow : (r : ℚ) + 1 ≤ 2 ^ 52 := by exact_mod_cast hfew
    have hmul := mul_le_mul_of_nonneg_right hbelow hunit.le
    have hnear := (abs_le.1 h.near).1
    rw [abs_of_nonneg hq] at hfine
    push_cast at hnear
    linarith
  · exact Or.inl ((Nat.log2_eq_iff hne).2 ⟨hall, hr⟩)

section Round

variable {m k : Nat} {e : Int} {a : Accuracy} {t : ℚ}

theorem shiftToTarget_accuracy (h : max (m.log2 + e - 52) (-1074) = e + k) :
    shiftToTargetExponent .binary64 m e a = (ExtendedMantissa.ofMantissaAndAccuracy m a >>> k, e + k) := by
  have hk : (max (m.log2 + e - 52) (-1074) - e).toNat = k := by omega
  unfold shiftToTargetExponent shiftToExponent
  rw [target_eq]
  simp only [hk]

theorem mantissa_ofMantissaAndAccuracy (m : Nat) (a : Accuracy) : (ExtendedMantissa.ofMantissaAndAccuracy m a).mantissa = m := by
  cases a with
  | exact => rfl
  | inexact o => cases o <;> rfl

theorem rounds_mantissa (ht : Describes (.ofMantissaAndAccuracy m a) t) (h : max (m.log2 + e - 52) (-1074) = e + k) :
    Rounds (t * 2 ^ e) ((ExtendedMantissa.ofMantissaAndAccuracy m a >>> k).roundedMantissa : Int) (e + k) := by
  obtain ⟨hlo, hhi⟩ := ht.bounds
  obtain ⟨hnear, heven⟩ := (ht.shiftRight k).roundedMantissa
  rw [mantissa_ofMantissaAndAccuracy] at hlo hhi
  set r := (ExtendedMantissa.ofMantissaAndAccuracy m a >>> k).roundedMantissa
  have hunit := Double.two_zpow_pos (e + k)
  have hpos : 0 ≤ t * 2 ^ e := mul_nonneg ((Nat.cast_nonneg m).trans hlo) (Double.two_zpow_pos e).le
  have hscaled : t * 2 ^ e = t / 2 ^ k * 2 ^ (e + k) := by
    rw [zpow_add₀ two_ne_zero, zpow_natCast]
    field_simp
  have hdistance : |((r : Int) : ℚ) * 2 ^ (e + k) - t * 2 ^ e| = |r - t / 2 ^ k| * 2 ^ (e + k) := by
    rw [hscaled, Int.cast_natCast, ← sub_mul, abs_mul, abs_of_pos hunit]
  refine ⟨?_, fun htie => ?_, by omega, ?_, ?_⟩
  · rw [hdistance]
    have hmul := mul_le_mul_of_nonneg_right hnear hunit.le
    linarith
  · rw [hdistance] at htie
    have hhalf : |(r : ℚ) - t / 2 ^ k| = 1 / 2 := mul_right_cancel₀ hunit.ne' (htie.trans (by ring))
    exact_mod_cast heven hhalf
  · rcases eq_or_ne (e + k : Int) (-1074) with hleast | hleast
    · exact Or.inl hleast
    · refine Or.inr ?_
      have hlog : (52 : Int) + (e + k) = m.log2 + e := by omega
      have hm : m ≠ 0 := by
        rintro rfl
        rw [Nat.log2_zero] at hlog
        omega
      have hdigits : (2 : ℚ) ^ m.log2 ≤ m := by exact_mod_cast Nat.log2_self_le hm
      have hexp : (2 : ℚ) ^ 52 * 2 ^ (e + k) = 2 ^ m.log2 * 2 ^ e := by
        rw [← zpow_natCast, ← zpow_add₀ two_ne_zero, ← zpow_natCast, ← zpow_add₀ two_ne_zero]
        exact congrArg _ (by exact_mod_cast hlog)
      rw [abs_of_nonneg hpos, hexp]
      exact mul_le_mul_of_nonneg_right (hdigits.trans hlo) (Double.two_zpow_pos e).le
  · have hdigits : (m : ℚ) + 1 ≤ 2 ^ (m.log2 + 1) := by exact_mod_cast Nat.lt_log2_self
    have hexp : (2 : ℚ) ^ (m.log2 + 1) * 2 ^ e ≤ 2 ^ 53 * 2 ^ (e + k) := by
      rw [← zpow_natCast, ← zpow_add₀ two_ne_zero, ← zpow_natCast, ← zpow_add₀ two_ne_zero]
      exact zpow_le_zpow_right₀ one_le_two (by push_cast; omega)
    rw [abs_of_nonneg hpos]
    exact (mul_lt_mul_of_pos_right (hhi.trans_le hdigits) (Double.two_zpow_pos e)).trans_le hexp

/-- A number is rounded by its digits, those that are dropped included. -/
theorem isRounded_accuracy (s : Sign) (ht : Describes (.ofMantissaAndAccuracy m a) t)
    (he : e ≤ max (m.log2 + e - 52) (-1074)) :
    IsRounded (roundWithAccuracy .binary64 s m e a) (withSign s (t * 2 ^ e)) := by
  obtain ⟨k, hk⟩ := Int.le.dest he
  have hrounds := rounds_mantissa ht hk.symm
  set em := ExtendedMantissa.ofMantissaAndAccuracy m a >>> k with hem
  have hsigned : ∀ {m' : Nat} {e' : Int}, (em.roundedMantissa : ℚ) * 2 ^ (e + k) = m' * 2 ^ e' →
      IsNearest (withSign s (t * 2 ^ e)) (⟨s == .negative, m', e'⟩ : Double.Parts).value := by
    intro m' e' hvalue
    rw [value_mk, ← hvalue]
    exact isNearest_withSign ⟨_, _, hrounds, by push_cast; rfl⟩ s
  have hle : em.roundedMantissa ≤ 2 ^ 53 := by
    have habs := hrounds.abs_mantissa_le
    rw [Nat.abs_cast] at habs
    exact_mod_cast habs
  unfold roundWithAccuracy
  rw [shiftToTarget_accuracy hk.symm]
  dsimp only
  rw [← hem]
  rcases Nat.lt_or_ge em.roundedMantissa (2 ^ 53) with hsmall | hcarry
  · have hlog : em.roundedMantissa.log2 ≤ 52 := by
      by_cases hzero : em.roundedMantissa = 0
      · rw [hzero, Nat.log2_zero]
        omega
      · have := (Nat.log2_lt hzero).2 hsmall
        omega
    rw [shiftToTarget_self hlog hrounds.least]
    dsimp only
    rcases eq_or_ne em.roundedMantissa 0 with hzero | hpos
    · rw [dif_pos hzero]
      refine ⟨_, rfl, isFull_zero _, hsigned ?_⟩
      rw [hzero]
      simp
    · rw [dif_neg hpos]
      have hnonneg : 0 ≤ t * 2 ^ e := mul_nonneg ((Nat.cast_nonneg _).trans ht.bounds.1) (Double.two_zpow_pos e).le
      exact ⟨_, rfl, isFull_of_rounds hrounds hnonneg hsmall hpos _, hsigned rfl⟩
  · have hcarry : em.roundedMantissa = 2 ^ 53 := Nat.le_antisymm hle hcarry
    have hleast := hrounds.least
    have htarget : max (((2 ^ 53 : Nat).log2 : Int) + (e + k) - 52) (-1074) = e + k + (1 : Nat) := by
      rw [Nat.log2_two_pow]
      omega
    rw [hcarry, shiftToTarget_eq htarget]
    refine ⟨⟨s == .negative, 2 ^ 52, e + k + 1⟩, rfl, ⟨by norm_num, by simp only; omega, Or.inl Nat.log2_two_pow⟩, hsigned ?_⟩
    rw [hcarry, Double.two_zpow_succ]
    push_cast
    ring

/-- A number with few digits gets zeros at its end first. -/
theorem isRounded_normal (s : Sign) (hm : 0 < m) : IsRounded (UnpackedFloat.round .binary64 s m e) (withSign s (m * 2 ^ e)) := by
  unfold UnpackedFloat.round decreaseExponent
  rw [target_eq]
  simp only [Nat.shiftLeft_eq]
  set k := (e - max (m.log2 + e - 52) (-1074)).toNat with hk
  have hlog := log2_mul_two_pow hm.ne' k
  have hvalue : (m : ℚ) * 2 ^ e = ((m * 2 ^ k : Nat) : ℚ) * 2 ^ (e - k) := by
    push_cast
    rw [zpow_sub₀ two_ne_zero, zpow_natCast]
    field_simp
  rw [hvalue]
  exact isRounded_accuracy s (Describes.exact _) (by omega)

theorem isRounded_normalize (n : Int) (e : Int) (z : Sign) : IsRounded (UnpackedFloat.normalize .binary64 n e z) (n * 2 ^ e) := by
  unfold UnpackedFloat.normalize
  split
  · rename_i h
    have hneg : n < 0 := Int.compare_eq_lt.1 h
    have hvalue : (n : ℚ) * 2 ^ e = withSign .negative ((-n).toNat * 2 ^ e) := by
      have hnat : (((-n).toNat : Nat) : ℚ) = -n := by exact_mod_cast Int.toNat_of_nonneg (by omega : 0 ≤ -n)
      rw [withSign_negative, hnat]
      ring
    rw [hvalue]
    exact isRounded_normal .negative (by omega)
  · rename_i h
    have hzero : n = 0 := Int.compare_eq_eq.1 h
    refine ⟨_, rfl, isFull_zero _, ?_⟩
    have hnearest := (isFull_zero (z == .negative)).nearest
    rw [value_zero] at hnearest
    rwa [hzero, Int.cast_zero, zero_mul, value_zero]
  · rename_i h
    have hpos : 0 < n := Int.compare_eq_gt.1 h
    have hvalue : (n : ℚ) * 2 ^ e = withSign .positive (n.toNat * 2 ^ e) := by
      have hnat : ((n.toNat : Nat) : ℚ) = n := by exact_mod_cast Int.toNat_of_nonneg hpos.le
      rw [withSign_positive, hnat]
    rw [hvalue]
    exact isRounded_normal .positive (by omega)

end Round

end Unpacked

end Rowwise
