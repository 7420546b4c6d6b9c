import Mathlib.Algebra.Order.Ring.Nat
import Mathlib.Tactic.NormNum
import Rowwise.Double.Nearby

/-!
# Rowwise.Proofs.Numbers.Rounding — rounding keeps whole numbers whole

A double is a mantissa of at most 53 binary digits with an exponent.  Sums, differences and products are computed exactly and
then rounded to such a mantissa.  Digits behind the point are dropped only if there are more than 53 before them and in front of
them, so a whole number is rounded to a whole one, whatever its magnitude.
-/

namespace Rowwise

open Float.Model Float.Model.UnpackedFloat

namespace Unpacked

/-- The number is whole, infinite or missing.  A whole number that is not zero has all 53 binary digits. -/
def IsWhole : UnpackedFloat → Prop
  | .finite _ m e _ => m.log2 = 52 ∧ 2 ^ (-e).toNat ∣ m
  | _ => True

/-! ### Shifting -/

theorem mantissa_shift (em : ExtendedMantissa) (k : Nat) : (em >>> k).mantissa = em.mantissa / 2 ^ k := by
  induction k with
  | zero => simp [HShiftRight.hShiftRight, Nat.repeat]
  | succ k ih =>
    show (em >>> k).mantissa / 2 = _
    rw [ih, Nat.div_div_eq_div_mul, Nat.pow_succ]

/-- Zeros that are shifted out leave no trace. -/
theorem shift_of_dvd {m k : Nat} (h : 2 ^ k ∣ m) :
    (⟨m, false, false⟩ : ExtendedMantissa) >>> k = ⟨m / 2 ^ k, false, false⟩ := by
  induction k with
  | zero => simp [HShiftRight.hShiftRight, Nat.repeat]
  | succ k ih =>
    have hk : 2 ^ k ∣ m := (Nat.pow_dvd_pow 2 (Nat.le_succ k)).trans h
    have heven : m / 2 ^ k % 2 = 0 := by
      obtain ⟨q, rfl⟩ := h
      rw [Nat.pow_succ, Nat.mul_assoc, Nat.mul_div_cancel_left _ (Nat.two_pow_pos k)]
      omega
    show ((⟨m, false, false⟩ : ExtendedMantissa) >>> k).shiftRightOne = _
    rw [ih hk]
    simp [ExtendedMantissa.shiftRightOne, heven, Nat.div_div_eq_div_mul, Nat.pow_succ]

theorem roundedMantissa_bounds (em : ExtendedMantissa) :
    em.mantissa ≤ em.roundedMantissa ∧ em.roundedMantissa ≤ em.mantissa + 1 := by
  obtain ⟨m, r, s⟩ := em
  have := Nat.mod_lt m Nat.zero_lt_two
  cases r <;> cases s <;>
    simp only [ExtendedMantissa.roundedMantissa, ExtendedMantissa.accuracy, Accuracy.roundToNearestEven] <;> omega

/-- The mantissa without its last `k` digits, rounded. -/
def dropped (m k : Nat) : Nat := ((⟨m, false, false⟩ : ExtendedMantissa) >>> k).roundedMantissa

theorem dropped_of_dvd {m k : Nat} (h : 2 ^ k ∣ m) : dropped m k = m / 2 ^ k := by
  rw [dropped, shift_of_dvd h]
  rfl

theorem dropped_bounds (m k : Nat) : m / 2 ^ k ≤ dropped m k ∧ dropped m k ≤ m / 2 ^ k + 1 := by
  have h := roundedMantissa_bounds ((⟨m, false, false⟩ : ExtendedMantissa) >>> k)
  rwa [mantissa_shift] at h

/-- A mantissa of 53 digits and `k` more keeps 53, or is the next power of two. -/
theorem dropped_of_log2 {m k : Nat} (h : m.log2 = 52 + k) : 2 ^ 52 ≤ dropped m k ∧ dropped m k ≤ 2 ^ 53 := by
  have hm : m ≠ 0 := by
    rintro rfl
    rw [Nat.log2_zero] at h
    omega
  obtain ⟨hlo, hhi⟩ := (Nat.log2_eq_iff hm).1 h
  have hle : 2 ^ 52 ≤ m / 2 ^ k := (Nat.le_div_iff_mul_le (Nat.two_pow_pos k)).2 (by rw [← Nat.pow_add]; exact hlo)
  have hlt : m / 2 ^ k < 2 ^ 53 := (Nat.div_lt_iff_lt_mul (Nat.two_pow_pos k)).2 (by
    rw [← Nat.pow_add]
    exact hhi.trans_eq (congrArg (2 ^ ·) (by omega)))
  have hbounds := dropped_bounds m k
  omega

/-! ### Rounding -/

/-- The exponent with which the number is written. -/
theorem target_eq (m : Nat) (e : Int) :
    Format.binary64.targetExponent (totalExponent m e) = max (m.log2 + e - 52) (-1074) := by
  have hbits : Format.binary64.mantissaBits = 53 := rfl
  have hmin : Format.binary64.minExponent = -1074 := rfl
  simp only [Format.targetExponent, totalExponent, hbits, hmin]
  omega

theorem shiftToTarget_eq {m k : Nat} {e : Int} (h : max (m.log2 + e - 52) (-1074) = e + k) :
    shiftToTargetExponent .binary64 m e .exact = ((⟨m, false, false⟩ : ExtendedMantissa) >>> k, e + k) := by
  have hk : (max (m.log2 + e - 52) (-1074) - e).toNat = k := by omega
  unfold shiftToTargetExponent shiftToExponent
  rw [target_eq]
  simp only [hk]
  rfl

theorem shiftToTarget_self {m : Nat} {e : Int} (hm : m.log2 ≤ 52) (he : -1074 ≤ e) :
    shiftToTargetExponent .binary64 m e .exact = (⟨m, false, false⟩, e) := by
  have hk : (max (m.log2 + e - 52) (-1074) - e).toNat = 0 := by omega
  unfold shiftToTargetExponent shiftToExponent
  rw [target_eq]
  simp only [hk]
  simp [HShiftRight.hShiftRight, Nat.repeat, ExtendedMantissa.ofMantissaAndAccuracy]

section Round

variable {s : Sign} {m k : Nat} {e : Int} (h : max (m.log2 + e - 52) (-1074) = e + k)

include h

theorem round_small (hpos : 0 < dropped m k) (hsmall : dropped m k < 2 ^ 53) :
    roundWithAccuracy .binary64 s m e .exact = .finite s (dropped m k) (e + k) hpos := by
  have hlog : (dropped m k).log2 ≤ 52 := by
    have := (Nat.log2_lt hpos.ne').2 hsmall
    omega
  unfold roundWithAccuracy
  rw [shiftToTarget_eq h]
  dsimp only
  rw [show ((⟨m, false, false⟩ : ExtendedMantissa) >>> k).roundedMantissa = dropped m k from rfl, shiftToTarget_self hlog (by omega)]
  exact dif_neg hpos.ne'

theorem round_carry (hcarry : dropped m k = 2 ^ 53) :
    roundWithAccuracy .binary64 s m e .exact = .finite s (2 ^ 52) (e + k + 1) (by decide) := by
  have hlog : max (((2 ^ 53 : Nat).log2 : Int) + (e + k) - 52) (-1074) = e + k + (1 : Nat) := by
    rw [Nat.log2_two_pow]
    omega
  unfold roundWithAccuracy
  rw [shiftToTarget_eq h]
  dsimp only
  rw [show ((⟨m, false, false⟩ : ExtendedMantissa) >>> k).roundedMantissa = 2 ^ 53 from hcarry, shiftToTarget_eq hlog]
  rfl

end Round

/-- Rounding keeps whole numbers whole. -/
theorem isWhole_round {s : Sign} {m : Nat} {e : Int} (hlog : 52 ≤ m.log2) (hwhole : 2 ^ (-e).toNat ∣ m) :
    IsWhole (roundWithAccuracy .binary64 s m e .exact) := by
  obtain ⟨k, hk⟩ := Nat.exists_eq_add_of_le hlog
  have hm : 0 < m := Nat.pos_of_ne_zero (by rintro rfl; simp at hlog)
  have hexp : (-e).toNat ≤ m.log2 := by
    rw [Nat.le_log2 hm.ne']
    exact Nat.le_of_dvd hm hwhole
  have htarget : max (m.log2 + e - 52) (-1074) = e + k := by omega
  obtain ⟨hlo, hhi⟩ := dropped_of_log2 hk
  rcases Nat.lt_or_ge (dropped m k) (2 ^ 53) with hsmall | hcarry
  · rw [round_small htarget (by omega) hsmall]
    refine ⟨(Nat.log2_eq_iff (by omega)).2 ⟨hlo, hsmall⟩, ?_⟩
    rcases Int.lt_or_le (e + k) 0 with hneg | hpos
    · -- digits that are dropped from a number with digits left behind the point are zeros
      have hsplit : (-e).toNat = (-(e + k)).toNat + k := by omega
      rw [hsplit, Nat.pow_add] at hwhole
      rw [dropped_of_dvd ((Nat.dvd_mul_left _ _).trans hwhole)]
      exact Nat.dvd_div_of_mul_dvd (by rwa [Nat.mul_comm])
    · rw [show (-(e + k)).toNat = 0 by omega]
      exact Nat.one_dvd _
  · rw [round_carry htarget (by omega)]
    refine ⟨Nat.log2_two_pow, ?_⟩
    exact Nat.pow_dvd_pow 2 (by omega)

/-! ### Operations -/

theorem log2_mul_two_pow {m : Nat} (hm : m ≠ 0) (k : Nat) : (m * 2 ^ k).log2 = m.log2 + k := by
  obtain ⟨hlo, hhi⟩ := (Nat.log2_eq_iff hm).1 rfl
  refine (Nat.log2_eq_iff (Nat.mul_ne_zero hm (Nat.two_pow_pos k).ne')).2 ⟨?_, ?_⟩
  · rw [Nat.pow_add]
    exact Nat.mul_le_mul_right _ hlo
  · rw [show m.log2 + k + 1 = m.log2 + 1 + k by omega, Nat.pow_add]
    exact Nat.mul_lt_mul_of_pos_right hhi (Nat.two_pow_pos k)

/-- A whole number from a mantissa with any number of digits. -/
theorem isWhole_normal {s : Sign} {m : Nat} {e : Int} (hpos : 0 < m) (hwhole : 2 ^ (-e).toNat ∣ m) :
    IsWhole (UnpackedFloat.round .binary64 s m e) := by
  have hexp : (-e).toNat ≤ m.log2 := by
    rw [Nat.le_log2 hpos.ne']
    exact Nat.le_of_dvd hpos hwhole
  unfold UnpackedFloat.round decreaseExponent
  rw [target_eq]
  simp only [Nat.shiftLeft_eq]
  set k := (e - max (m.log2 + e - 52) (-1074)).toNat with hk
  refine isWhole_round ?_ ?_
  · rw [log2_mul_two_pow hpos.ne']
    omega
  · have hsplit : (-(e - (k : Int))).toNat ≤ (-e).toNat + k := by omega
    exact (Nat.pow_dvd_pow 2 hsplit).trans (by rw [Nat.pow_add]; exact Nat.mul_dvd_mul_right hwhole _)

theorem isWhole_normalize {n : Int} {e : Int} {z : Sign} (hwhole : (2 ^ (-e).toNat : Int) ∣ n) :
    IsWhole (UnpackedFloat.normalize .binary64 n e z) := by
  have hnat : 2 ^ (-e).toNat ∣ n.natAbs := by
    rw [← Int.natCast_dvd]
    exact_mod_cast hwhole
  unfold UnpackedFloat.normalize
  split
  · rename_i h
    have hneg : n < 0 := Int.compare_eq_lt.1 h
    refine isWhole_normal (by omega) ?_
    rwa [show (-n).toNat = n.natAbs by omega]
  · trivial
  · rename_i h
    have hpos : 0 < n := Int.compare_eq_gt.1 h
    refine isWhole_normal (by omega) ?_
    rwa [show n.toNat = n.natAbs by omega]

theorem isWhole_neg {u : UnpackedFloat} (h : IsWhole u) : IsWhole u.neg := by
  cases u <;> exact h

theorem isWhole_abs {u : UnpackedFloat} (h : IsWhole u) : IsWhole u.abs := by
  cases u <;> exact h

theorem dvd_apply {s : Sign} {m d : Nat} (h : d ∣ m) : (d : Int) ∣ s.apply m := by
  cases s
  · exact (Int.dvd_neg).2 (Int.natCast_dvd_natCast.2 h)
  · exact Int.natCast_dvd_natCast.2 h

/-- With a smaller exponent, a whole number has more zeros at its end. -/
theorem dvd_decreased {m : Nat} {e t : Int} (h : 2 ^ (-e).toNat ∣ m) :
    2 ^ (-t).toNat ∣ (decreaseExponent m e t).1 := by
  unfold decreaseExponent
  simp only [Nat.shiftLeft_eq]
  have hsplit : (-t).toNat ≤ (-e).toNat + (e - t).toNat := by omega
  exact (Nat.pow_dvd_pow 2 hsplit).trans (by rw [Nat.pow_add]; exact Nat.mul_dvd_mul_right h _)

theorem isWhole_add {u v : UnpackedFloat} (hu : IsWhole u) (hv : IsWhole v) :
    IsWhole (UnpackedFloat.add .binary64 u v) := by
  cases u with
  | finite s m e hm =>
    cases v with
    | finite t n f hn =>
      refine isWhole_normalize (Int.dvd_add ?_ ?_)
      · exact_mod_cast dvd_apply (dvd_decreased hu.2)
      · exact_mod_cast dvd_apply (dvd_decreased hv.2)
    | zero t => exact hu
    | _ => trivial
  | zero s =>
    cases v with
    | zero t =>
      show IsWhole (if _ then _ else _)
      split <;> trivial
    | _ => exact hv
  | infinity s =>
    cases v with
    | infinity t =>
      show IsWhole (if _ then _ else _)
      split <;> trivial
    | _ => trivial
  | notANumber => trivial

theorem mul_finite {s t : Sign} {m n : Nat} {e f : Int} (hm : 0 < m) (hn : 0 < n) :
    UnpackedFloat.mul .binary64 (.finite s m e hm) (.finite t n f hn) =
      roundWithAccuracy .binary64 (s * t) (m * n) (e + f) .exact :=
  rfl

theorem isWhole_mul {u v : UnpackedFloat} (hu : IsWhole u) (hv : IsWhole v) :
    IsWhole (UnpackedFloat.mul .binary64 u v) := by
  cases u with
  | finite s m e hm =>
    cases v with
    | finite t n f hn =>
      obtain ⟨hlog, hwhole⟩ := hu
      obtain ⟨hlog', hwhole'⟩ := hv
      refine isWhole_round ?_ ?_
      · rw [Nat.le_log2 (Nat.mul_pos hm hn).ne']
        have hle := (Nat.log2_eq_iff hm.ne').1 hlog
        exact hle.1.trans (Nat.le_mul_of_pos_right m hn)
      · have hsplit : (-(e + f)).toNat ≤ (-e).toNat + (-f).toNat := by omega
        exact (Nat.pow_dvd_pow 2 hsplit).trans (by rw [Nat.pow_add]; exact Nat.mul_dvd_mul hwhole hwhole')
    | _ => trivial
  | _ => cases v <;> trivial

/-- Subtraction adds the negated number. -/
theorem sub_eq (u v : UnpackedFloat) : UnpackedFloat.sub .binary64 u v = UnpackedFloat.add .binary64 u v.neg := by
  have happly : ∀ (s : Sign) (n : Int), (-s).apply n = -s.apply n := by
    intro s n
    cases s
    · exact (Int.neg_neg n).symm
    · rfl
  cases u <;> cases v <;> first | rfl | skip
  rename_i s m e _ t n f _
  show UnpackedFloat.normalize .binary64
      (s.apply (decreaseExponent m e (min e f)).1 - t.apply (decreaseExponent n f (min e f)).1) (min e f) .positive =
    UnpackedFloat.normalize .binary64
      (s.apply (decreaseExponent m e (min e f)).1 + (-t).apply (decreaseExponent n f (min e f)).1) (min e f) .positive
  rw [happly, Int.sub_eq_add_neg]

theorem isWhole_sub {u v : UnpackedFloat} (hu : IsWhole u) (hv : IsWhole v) :
    IsWhole (UnpackedFloat.sub .binary64 u v) := by
  rw [sub_eq]
  exact isWhole_add hu (isWhole_neg hv)

/-- Division by one. -/
theorem isWhole_div_one {u : UnpackedFloat} (hu : IsWhole u) :
    IsWhole (UnpackedFloat.div .binary64 u (.finite .positive (2 ^ 52) (-52) (by decide))) := by
  cases u with
  | finite s m e hm =>
    obtain ⟨hlog, hwhole⟩ := hu
    have hexp : (-e).toNat ≤ 52 := by
      rw [← hlog, Nat.le_log2 hm.ne']
      exact Nat.le_of_dvd hm hwhole
    have hcore : divCore .binary64 m e (2 ^ 52) (-52) = (m * 2, e - 1, .exact) := by
      have htarget : min (e - -52) (Format.binary64.targetExponent (totalExponent m e - totalExponent (2 ^ 52) (-52))) =
          e - 1 := by
        have hbits : Format.binary64.mantissaBits = 53 := rfl
        have hmin : Format.binary64.minExponent = -1074 := rfl
        simp only [Format.targetExponent, totalExponent, hbits, hmin, Nat.log2_two_pow, hlog]
        omega
      unfold divCore
      simp only [htarget, Nat.shiftLeft_eq]
      rw [show (e - -52 - (e - 1)).toNat = 1 + 52 by omega, Nat.pow_add, ← Nat.mul_assoc,
        Nat.mul_div_cancel _ (Nat.two_pow_pos 52), Nat.mul_mod_left]
      rfl
    show IsWhole (roundWithAccuracy .binary64 (s / .positive) (divCore .binary64 m e (2 ^ 52) (-52)).1
      (divCore .binary64 m e (2 ^ 52) (-52)).2.1 (divCore .binary64 m e (2 ^ 52) (-52)).2.2)
    rw [hcore]
    refine isWhole_round ?_ ?_
    · rw [← Nat.pow_one 2, log2_mul_two_pow hm.ne', hlog]
      omega
    · have hsplit : (-(e - 1)).toNat ≤ (-e).toNat + 1 := by omega
      exact (Nat.pow_dvd_pow 2 hsplit).trans (by rw [Nat.pow_succ]; exact Nat.mul_dvd_mul_right hwhole _)
  | _ => trivial

/-- A number with the digits of a double is rounded to itself. -/
theorem round_canonical {s : Sign} {m k : Nat} {e : Int} (hpos : 0 < m) (hm : m < 2 ^ 53) (he : -1074 ≤ e)
    (hdigits : m.log2 = 52 ∨ e = -1074) :
    roundWithAccuracy .binary64 s (m * 2 ^ k) (e - k) .exact = .finite s m e hpos := by
  have hlog : m.log2 ≤ 52 := by
    have := (Nat.log2_lt hpos.ne').2 hm
    omega
  have htarget : max (((m * 2 ^ k).log2 : Int) + (e - k) - 52) (-1074) = e - k + k := by
    rw [log2_mul_two_pow hpos.ne']
    omega
  have hdropped : dropped (m * 2 ^ k) k = m := by
    rw [dropped_of_dvd (Nat.dvd_mul_left _ _), Nat.mul_div_cancel _ (Nat.two_pow_pos k)]
  have hsame : ∀ {d f} (hd : 0 < d), d = m → f = e → UnpackedFloat.finite s d f hd = .finite s m e hpos := by
    rintro _ _ _ rfl rfl
    rfl
  rw [round_small htarget (by omega) (by omega)]
  exact hsame _ hdropped (Int.sub_add_cancel e k)

/-! ### Integers -/

theorem isWhole_ofInt (n : Int) : IsWhole (UnpackedFloat.ofInt .binary64 n) := isWhole_normalize (Int.one_dvd n)

theorem isWhole_ofScientific (n : Nat) : IsWhole (UnpackedFloat.ofScientific .binary64 n 0) := by
  unfold UnpackedFloat.ofScientific
  by_cases hn : n = 0
  · rw [dif_pos hn]
    trivial
  · have hlimit : (0 : Int) < 2 ^ Format.binary64.exponentBits := by decide
    have hmantissa : n <<< Format.binary64.mantissaBits * 10 ^ (0 : Int).toNat = n * 2 ^ 53 := by
      rw [Nat.shiftLeft_eq]
      exact Nat.mul_one _
    rw [dif_neg hn, if_neg (by omega), if_neg (by omega), if_pos (Int.le_refl 0), mul_finite, hmantissa]
    refine isWhole_round ?_ (Nat.dvd_mul_left _ _)
    rw [log2_mul_two_pow hn]
    omega

end Unpacked

end Rowwise
