import Mathlib.Algebra.Order.Field.Rat
import Mathlib.Algebra.Order.Ring.Abs
import Mathlib.Data.Rat.Cast.Order
import Mathlib.Tactic.FieldSimp
import Mathlib.Tactic.Linarith
import Rowwise.Proofs.Numbers.Packing

/-!
# Rowwise.Proofs.Numbers.Whole — doubles without a fraction

Whole numbers, infinities and the missing number have no fraction (`Double.IsIntegral`).  Sums, differences, products and
remainders of such numbers are such numbers again, and so is all that rounding to whole numbers yields.  So are powers, as far
as the power function is as accurate as one expects (`Double.PowerStandard`).
-/

namespace Rowwise.Double

open Float.Model

/-- The number has no fraction: it is whole, infinite or missing. -/
def IsIntegral (x : Float) : Prop := ∀ p, parts? x = some p → p.fraction = 0

instance (x : Float) : Decidable (IsIntegral x) :=
  decidable_of_iff ((parts? x).all fun p => p.fraction == 0) (by
    unfold IsIntegral
    cases parts? x <;> simp)

theorem parts?_eq (x : Float) : parts? x = Unpacked.parts? x.toModel.unpack :=
  (Unpacked.parts?_unpack x.toBits.toBitVec).symm

theorem isIntegral_iff {x : Float} : IsIntegral x ↔ Unpacked.IsWhole x.toModel.unpack := by
  unfold IsIntegral
  rw [parts?_eq]
  exact Unpacked.isWhole_unpack_iff.symm

theorem isIntegral_pack {u : UnpackedFloat} (h : Unpacked.IsWhole u) : IsIntegral (.ofModel (.pack u)) :=
  isIntegral_iff.2 (Unpacked.isWhole_pack h)

/-! ### Arithmetic -/

variable {x y : Float}

theorem isIntegral_add (hx : IsIntegral x) (hy : IsIntegral y) : IsIntegral (x + y) :=
  isIntegral_pack (Unpacked.isWhole_add (isIntegral_iff.1 hx) (isIntegral_iff.1 hy))

theorem isIntegral_sub (hx : IsIntegral x) (hy : IsIntegral y) : IsIntegral (x - y) :=
  isIntegral_pack (Unpacked.isWhole_sub (isIntegral_iff.1 hx) (isIntegral_iff.1 hy))

theorem isIntegral_mul (hx : IsIntegral x) (hy : IsIntegral y) : IsIntegral (x * y) :=
  isIntegral_pack (Unpacked.isWhole_mul (isIntegral_iff.1 hx) (isIntegral_iff.1 hy))

theorem isIntegral_neg (hx : IsIntegral x) : IsIntegral (-x) :=
  isIntegral_pack (Unpacked.isWhole_neg (isIntegral_iff.1 hx))

theorem isIntegral_abs (hx : IsIntegral x) : IsIntegral x.abs :=
  isIntegral_pack (Unpacked.isWhole_abs (isIntegral_iff.1 hx))

theorem isIntegral_div_one (hx : IsIntegral x) : IsIntegral (x / 1) :=
  isIntegral_pack (Unpacked.isWhole_div_one (isIntegral_iff.1 hx))

/-! ### Integers -/

/-- The double nearest to a natural number is whole or infinite. -/
theorem isIntegral_ofScientific (n : Nat) : IsIntegral (Float.ofScientific n false 0) := by
  unfold Float.ofScientific
  split
  · have hword : IsIntegral n.toUInt64.toFloat := isIntegral_pack (Unpacked.isWhole_ofInt _)
    have hone : IsIntegral (Float.ofBits 0x3FF0000000000000) := by decide
    exact isIntegral_mul hword hone
  · exact isIntegral_pack (Unpacked.isWhole_ofScientific n)

theorem isIntegral_ofInt (n : Int) : IsIntegral (ofInt n) := by
  cases n with
  | ofNat n => exact isIntegral_ofScientific n
  | negSucc n => exact isIntegral_neg (isIntegral_ofScientific (n + 1))

theorem isIntegral_nan : IsIntegral nan := by decide

/-! ### Numbers from their parts -/

theorem canonical_of_parts? {p : Parts} (h : parts? x = some p) : p.IsCanonical :=
  Unpacked.canonical_unpack ((parts?_eq x).symm.trans h)

theorem isIntegral_ofFields {negative : Bool} {field fraction : Nat} (hfield : field < 2048) (hfraction : fraction < 2 ^ 52)
    (hzero : field = 0 → fraction = 0) (hwhole : field ≠ 0 → 2 ^ (1075 - field) ∣ 2 ^ 52 + fraction) :
    IsIntegral (ofFields negative field fraction) := by
  set bits := (if negative then twoTo 63 else 0) + field * twoTo 52 + fraction with hbits
  have hsum : ∃ sign ≤ 1, bits = sign * 2 ^ 63 + field * 2 ^ 52 + fraction := by
    cases negative with
    | true => exact ⟨1, Nat.le_refl 1, rfl⟩
    | false => exact ⟨0, Nat.zero_le 1, rfl⟩
  obtain ⟨sign, hsign, hsum⟩ := hsum
  have hlt : bits < 2 ^ 64 := by omega
  have hnat : (UInt64.ofNat bits).toBitVec.toNat = bits := by
    rw [UInt64.toBitVec_ofNat', BitVec.toNat_ofNat, Nat.mod_eq_of_lt hlt]
  have hexp : bits / 2 ^ 52 % 2048 = field := by omega
  have hmantissa : bits % 2 ^ 52 = fraction := by omega
  refine isIntegral_pack (Unpacked.isWhole_unpack_iff.2 fun p hp => ?_)
  rw [Unpacked.parts?_unpack, hnat, hexp, hmantissa] at hp
  split at hp
  · cases hp
  · split at hp
    · rename_i hfield
      cases hp
      rw [Parts.fraction_eq_zero_iff, hzero hfield]
      exact Nat.dvd_zero _
    · rename_i hfield
      cases hp
      rw [Parts.fraction_eq_zero_iff]
      refine Nat.dvd_trans (Nat.pow_dvd_pow 2 ?_) (hwhole hfield)
      simp only
      omega

/-- Whole parts make a whole number. -/
theorem isIntegral_ofParts {p : Parts} (hm : p.mantissa < 2 ^ 53) (he : p.exponent ≤ 971) (h : p.fraction = 0) :
    IsIntegral (ofParts p) := by
  rw [Parts.fraction_eq_zero_iff] at h
  unfold ofParts
  split
  · exact isIntegral_ofFields (by omega) (Nat.two_pow_pos 52) (fun _ => rfl) fun hne => absurd rfl hne
  · rename_i hpos
    have hlog : p.mantissa.log2 ≤ 52 := by
      have := (Nat.log2_lt hpos).2 hm
      omega
    have hwhole : (-p.exponent).toNat ≤ p.mantissa.log2 := by
      rw [Nat.le_log2 hpos]
      exact Nat.le_of_dvd (Nat.pos_of_ne_zero hpos) h
    have hscaled : (p.mantissa * 2 ^ (52 - p.mantissa.log2)).log2 = 52 := by
      rw [Unpacked.log2_mul_two_pow hpos]
      omega
    obtain ⟨hlo, hhi⟩ := (Nat.log2_eq_iff (Nat.mul_ne_zero hpos (Nat.two_pow_pos _).ne')).1 hscaled
    simp only
    rw [if_neg (by omega)]
    simp only [twoTo_eq]
    refine isIntegral_ofFields (by omega) (by omega) (fun hzero => by omega) fun _ => ?_
    · have hsum : 2 ^ 52 + (p.mantissa * 2 ^ (52 - p.mantissa.log2) - 2 ^ 52) = p.mantissa * 2 ^ (52 - p.mantissa.log2) :=
        Nat.add_sub_cancel' hlo
      rw [hsum]
      have hsplit : 1075 - ((p.mantissa.log2 : Int) + p.exponent + 1023).toNat ≤
          (-p.exponent).toNat + (52 - p.mantissa.log2) := by omega
      exact (Nat.pow_dvd_pow 2 hsplit).trans (by rw [Nat.pow_add]; exact Nat.mul_dvd_mul_right h _)

/-! ### Rounding -/

theorem isIntegral_of_parts? {p : Parts} (hp : parts? x = some p) (h : p.fraction = 0) : IsIntegral x := by
  intro q hq
  rw [hp] at hq
  cases hq
  exact h

/-- Rounding to whole numbers yields nothing else. -/
theorem isIntegral_round (r : Rounding) (x : Float) : IsIntegral (round r x) := by
  unfold round
  cases hp : parts? x with
  | none =>
    intro p hsome
    rw [hp] at hsome
    cases hsome
  | some p =>
    simp only
    split
    · rename_i he
      exact isIntegral_of_parts? hp (if_pos he)
    · rename_i he
      have hhalf : p.whole < 2 ^ 52 := by
        have hm := (canonical_of_parts? hp).mantissa_lt
        have hdivisor : 2 ^ 1 ≤ 2 ^ (-p.exponent).toNat := Nat.pow_le_pow_right Nat.zero_lt_two (by omega)
        unfold Parts.whole
        rw [if_neg he, twoTo_eq]
        exact (Nat.div_le_div_left hdivisor (by omega)).trans_lt (by omega)
      refine isIntegral_ofParts ?_ (by simp) (if_pos (Int.le_refl 0))
      show p.whole + _ < 2 ^ 53
      split <;> omega

theorem isIntegral_floor (x : Float) : IsIntegral (floor x) := isIntegral_round .down x

theorem isIntegral_nearest (x : Float) : IsIntegral (nearest x) := isIntegral_round .nearestAway x

theorem isIntegral_halfUp (x : Float) : IsIntegral (halfUp x) := isIntegral_floor _

theorem isIntegral_halfEven (x : Float) : IsIntegral (halfEven x) := by
  unfold halfEven
  simp only
  split
  · refine isIntegral_sub (isIntegral_nearest x) ?_
    split <;> decide
  · exact isIntegral_nearest x

theorem isFinite_iff : isFinite x = true ↔ (parts? x).isSome = true := by
  unfold isFinite parts?
  simp only [bne_iff_ne, ne_eq]
  split
  · simp [*]
  · split <;> simp [*]

theorem isIntegral_of_not_isFinite (h : isFinite x = false) : IsIntegral x := by
  intro p hp
  rw [isFinite_iff.2 (by rw [hp]; rfl)] at h
  cases h

/-- Only zeros equal zero. -/
theorem isIntegral_of_eq_zero (h : (x == 0) = true) : IsIntegral x := by
  have hcompare : (x.toModel.unpack.compare (.zero .positive) == some .eq) = true := h
  rw [isIntegral_iff]
  generalize x.toModel.unpack = u at hcompare
  cases u with
  | finite s m e hm => cases s <;> cases hcompare
  | _ => trivial

theorem isIntegral_sign (x : Float) : IsIntegral (sign x) := by
  unfold sign
  split
  · rename_i h
    refine isIntegral_abs ?_
    rcases Bool.or_eq_true_iff.1 h with hmissing | hzero
    · refine isIntegral_of_not_isFinite ?_
      have hfield := (Bool.and_eq_true_iff.1 hmissing).1
      simpa [isFinite] using hfield
    · exact isIntegral_of_eq_zero hzero
  · split <;> decide

theorem isIntegral_remainder (hx : IsIntegral x) (hy : IsIntegral y) : IsIntegral (remainder x y) := by
  unfold remainder
  split
  · exact isIntegral_nan
  · split
    · exact isIntegral_nan
    · exact hx
    · rename_i p d hp hd
      split
      · exact isIntegral_nan
      · rename_i hd0
        have hwhole := Parts.fraction_eq_zero_iff.1 (hx p hp)
        have hwhole' := Parts.fraction_eq_zero_iff.1 (hy d hd)
        have hp' := canonical_of_parts? hp
        have hd' := canonical_of_parts? hd
        simp only [twoTo_eq]
        set e := min p.exponent d.exponent with he
        have hscaled : ∀ {q : Parts}, e ≤ q.exponent → 2 ^ (-q.exponent).toNat ∣ q.mantissa →
            2 ^ (-e).toNat ∣ q.mantissa * 2 ^ (q.exponent - e).toNat := by
          intro q hle hq
          have hsplit : (-e).toNat ≤ (-q.exponent).toNat + (q.exponent - e).toNat := by omega
          exact (Nat.pow_dvd_pow 2 hsplit).trans (by rw [Nat.pow_add]; exact Nat.mul_dvd_mul_right hq _)
        refine isIntegral_ofParts ?_ (by simp only; have := hp'.greatest; omega) (Parts.fraction_eq_zero_iff.2 ?_)
        · -- one of the two mantissas keeps its digits, and the remainder is below both
          have hpos : 0 < d.mantissa * 2 ^ (d.exponent - e).toNat :=
            Nat.mul_pos (Nat.pos_of_ne_zero hd0) (Nat.two_pow_pos _)
          simp only
          rcases Int.le_total p.exponent d.exponent with hle | hle
          · have hzero : (p.exponent - e).toNat = 0 := by omega
            rw [hzero, Nat.pow_zero, Nat.mul_one]
            exact (Nat.mod_le _ _).trans_lt hp'.mantissa_lt
          · have hzero : (d.exponent - e).toNat = 0 := by omega
            rw [hzero, Nat.pow_zero, Nat.mul_one] at hpos ⊢
            exact (Nat.mod_lt _ hpos).trans hd'.mantissa_lt
        · exact (Nat.dvd_mod_iff (hscaled (Int.min_le_right _ _) hwhole')).2 (hscaled (Int.min_le_left _ _) hwhole)

theorem isFinite_mul_one (h : isFinite x = true) : isFinite (x * 1) = true := by
  have hcanonical : ∀ p, Unpacked.parts? x.toModel.unpack = some p → p.IsCanonical := fun p hp =>
    canonical_of_parts? ((parts?_eq x).trans hp)
  have hone : (1 : Float).toModel.unpack = .finite .positive (2 ^ 52) (-52) (by decide) := rfl
  have hmul : (x * 1).toModel.unpack =
      .unpack .binary64 (UnpackedFloat.pack .binary64 (.mul .binary64 x.toModel.unpack (1 : Float).toModel.unpack)) := rfl
  rw [isFinite_iff, parts?_eq] at h ⊢
  rw [hmul, hone]
  generalize x.toModel.unpack = u at h hcanonical
  cases u with
  | finite s m e hm =>
    obtain ⟨hlt, hleast, hgreatest, hdigits⟩ := hcanonical _ rfl
    have hround : UnpackedFloat.mul .binary64 (.finite s m e hm) (.finite .positive (2 ^ 52) (-52) (by decide)) =
        .finite (s * .positive) m e hm :=
      Unpacked.round_canonical hm hlt hleast (hdigits.imp_right And.left)
    rw [hround]
    exact Unpacked.isSome_parts?_pack hgreatest
  | zero s => cases s <;> rfl
  | infinity s => cases h
  | notANumber => cases h

/-- Rounding to no digits behind the point. -/
theorem isIntegral_roundTo_zero (x : Float) : IsIntegral (roundTo x 0) := by
  have hfactor : powInt 10 (clamp (-maxDigits) maxDigits 0) = 1 := rfl
  unfold roundTo
  simp only [hfactor]
  cases hfinite : isFinite x with
  | false => exact isIntegral_of_not_isFinite hfinite
  | true =>
    rw [isFinite_mul_one hfinite]
    exact isIntegral_div_one (isIntegral_halfUp _)

/-! ### Powers -/

/-- The mantissa with its sign. -/
def Parts.signed (p : Parts) : Int := if p.negative then -(p.mantissa : Int) else p.mantissa

/-- The exact value. -/
def Parts.value (p : Parts) : ℚ := p.signed * 2 ^ p.exponent

/-- What is relied on of the power function: an operand that is infinite or missing gives zero, one, an infinite or a missing
number, and a whole number to a whole power that is not negative is less than a unit in the last place off. -/
structure PowerStandard : Prop where
  special {x y : Float} : (isFinite x && isFinite y) = false → isFinite (x.pow y) = false ∨ x.pow y ∈ [0, -0.0, 1]
  accurate {x y : Float} {p q r : Parts} : parts? x = some p → parts? y = some q → p.fraction = 0 → q.fraction = 0 → 0 ≤ y →
    parts? (x.pow y) = some r → |r.value - (p.toInt : ℚ) ^ q.toInt.toNat| < 2 ^ r.exponent

/-- What is less than a unit in the last place off a whole number is this number, or has no fraction in the first place. -/
theorem Parts.fraction_eq_zero_of_near {p : Parts} {n : Int} (h : |p.value - n| < 2 ^ p.exponent) : p.fraction = 0 := by
  by_cases he : 0 ≤ p.exponent
  · exact if_pos he
  · obtain ⟨k, hk⟩ : ∃ k : Nat, p.exponent = -(k : Int) := ⟨(-p.exponent).toNat, by omega⟩
    have hpow : (0 : ℚ) < 2 ^ k := by positivity
    have hscaled : |((p.signed - n * 2 ^ k : Int) : ℚ)| < 1 := by
      rw [value, hk, zpow_neg, zpow_natCast] at h
      have hfactor : (p.signed : ℚ) * (2 ^ k)⁻¹ - n = ((p.signed - n * 2 ^ k : Int) : ℚ) * (2 ^ k)⁻¹ := by
        push_cast
        field_simp
      rw [hfactor, abs_mul, abs_of_pos (inv_pos.2 hpow)] at h
      exact (mul_lt_iff_lt_one_left (inv_pos.2 hpow)).1 h
    have hzero : p.signed - n * 2 ^ k = 0 := Int.abs_lt_one_iff.1 (by exact_mod_cast hscaled)
    have hdvd : (2 ^ k : Int) ∣ p.signed := ⟨n, by linarith⟩
    rw [fraction_eq_zero_iff, hk, Int.neg_neg, Int.toNat_natCast]
    unfold signed at hdvd
    split at hdvd
    · exact_mod_cast (Int.dvd_neg.1 hdvd)
    · exact_mod_cast hdvd

theorem isIntegral_pow (h : PowerStandard) (hx : IsIntegral x) (hy : IsIntegral y) (hsign : 0 ≤ y) :
    IsIntegral (x.pow y) := by
  cases hfinite : isFinite x && isFinite y with
  | false =>
    rcases h.special hfinite with hpow | hpow
    · exact isIntegral_of_not_isFinite hpow
    · have hall : ∀ z ∈ [(0 : Float), -0.0, 1], IsIntegral z := by decide +kernel
      exact hall _ hpow
  | true =>
    obtain ⟨hfx, hfy⟩ := Bool.and_eq_true_iff.1 hfinite
    obtain ⟨p, hp⟩ := Option.isSome_iff_exists.1 (isFinite_iff.1 hfx)
    obtain ⟨q, hq⟩ := Option.isSome_iff_exists.1 (isFinite_iff.1 hfy)
    intro r hr
    have haccurate := h.accurate hp hq (hx p hp) (hy q hq) hsign hr
    exact Parts.fraction_eq_zero_of_near (n := p.toInt ^ q.toInt.toNat) (by exact_mod_cast haccurate)

end Rowwise.Double
