import Mathlib.Data.Nat.Cast.Field
import Mathlib.Data.Rat.Floor
import Rowwise.Proofs.Numbers.Accuracy

/-!
# Rowwise.Proofs.Numbers.Arithmetic — sums, products and quotients are rounded once

The sum, the product and the quotient of two doubles are the doubles nearest to the exact ones, unless these are too large
(`Double.nearest_add`, `Double.nearest_mul`, `Double.nearest_div`), and so is the double of a natural number
(`Double.nearest_ofScientific`).  Rounding to whole numbers is exact (`Double.isValue_floor`, `Double.Near.isValue_nearest`).
-/

namespace Rowwise

open Float.Model Float.Model.UnpackedFloat

namespace Unpacked

/-! ### Packing -/

/-- The fields of a number with few digits are its sign and its mantissa. -/
theorem parts?_packComponents_zero {s : Sign} {m : Nat} (hm : m < 2 ^ 52) :
    parts? (.unpack .binary64 (packComponents .binary64 s 0#11 (BitVec.ofNat _ m))) = some ⟨s == .negative, m, -1074⟩ := by
  rw [parts?_unpack, ← toNat_unpackExponent, ← toNat_unpackMantissa, ← isNegative_unpackSign, unpackExponent_packComponents,
    unpackMantissa_packComponents, unpackSign_packComponents]
  simp only [BitVec.toNat_ofNat]
  rw [Nat.mod_eq_of_lt hm]
  rfl

/-- A number with the parts of a double is put into bits as it is. -/
theorem parts?_pack {u : UnpackedFloat} {p : Double.Parts} (h : parts? u = some p) (hp : p.IsCanonical) :
    parts? (.unpack .binary64 (u.pack .binary64)) = some p := by
  cases u with
  | finite s m e hm =>
    cases h
    have hleast : -1074 ≤ e := hp.least
    have hgreatest : e ≤ 971 := hp.greatest
    rcases hp.digits with hlog | ⟨he, hfew⟩
    · rw [unpack_pack hm hlog hleast hgreatest]
      rfl
    · obtain rfl : e = -1074 := he
      have hlog : m.log2 ≠ 52 := ((Nat.log2_lt hm.ne').2 hfew).ne
      have hmantissa : m.log2 + 1 ≠ Format.binary64.mantissaBits := fun heq => hlog (Nat.succ.inj heq)
      unfold UnpackedFloat.pack
      simp only [biased_eq]
      rw [if_neg (by omega), if_neg hmantissa]
      exact parts?_packComponents_zero hfew
  | zero s =>
    cases h
    cases s <;> rfl
  | infinity s => cases h
  | notANumber => cases h

/-! ### Operations -/

section Operations

variable {u v : UnpackedFloat} {p q : Double.Parts}

theorem isRounded_zero (s : Sign) : IsRounded (.zero s) 0 := by
  have hself := isRounded_self (u := .zero s) rfl (isFull_zero _)
  rwa [value_zero] at hself

theorem withSign_mul_apply (s : Sign) (n : Nat) (q : ℚ) : withSign s (n * q) = (s.apply n : Int) * q := by
  cases s with
  | negative =>
    rw [withSign_negative, show Sign.negative.apply (n : Int) = -n from rfl]
    push_cast
    ring
  | positive => rfl

theorem decreaseExponent_value {m : Nat} {e f : Int} (h : f ≤ e) :
    ((decreaseExponent m e f).1 : ℚ) * 2 ^ f = m * 2 ^ e := by
  unfold decreaseExponent
  simp only [Nat.shiftLeft_eq]
  rw [Double.two_zpow_eq_mul h]
  push_cast
  ring

theorem isRounded_add (hu : parts? u = some p) (hv : parts? v = some q) (hp : p.IsFull) (hq : q.IsFull) :
    IsRounded (UnpackedFloat.add .binary64 u v) (p.value + q.value) := by
  cases u with
  | finite s m e hm =>
    cases v with
    | finite t n f hn =>
      cases hu
      cases hv
      rw [value_mk, value_mk, ← decreaseExponent_value (Int.min_le_left e f), ← decreaseExponent_value (Int.min_le_right e f),
        withSign_mul_apply, withSign_mul_apply, ← add_mul, ← Int.cast_add]
      exact isRounded_normalize _ _ _
    | zero t =>
      cases hv
      rw [value_zero, add_zero]
      exact isRounded_self hu hp
    | infinity t => cases hv
    | notANumber => cases hv
  | zero s =>
    cases hu
    rw [value_zero, zero_add]
    cases v with
    | finite t n f hn => exact isRounded_self hv hq
    | zero t =>
      cases hv
      rw [value_zero]
      show IsRounded (if _ then _ else _) 0
      split <;> exact isRounded_zero _
    | infinity t => cases hv
    | notANumber => cases hv
  | infinity s => cases hu
  | notANumber => cases hu

theorem withSign_mul (s t : Sign) (a b : ℚ) : withSign (s * t) (a * b) = withSign s a * withSign t b := by
  cases s <;> cases t
  · exact (neg_mul_neg a b).symm
  · exact (neg_mul a b).symm
  · exact (mul_neg a b).symm
  · rfl

theorem withSign_div (s t : Sign) (a b : ℚ) : withSign (s / t) (a / b) = withSign s a / withSign t b := by
  cases s <;> cases t
  · exact (neg_div_neg_eq a b).symm
  · exact (neg_div b a).symm
  · exact (div_neg a).symm
  · rfl

theorem log2_le_log2_mul {a b : Nat} (ha : 0 < a) (hb : 0 < b) : a.log2 ≤ (a * b).log2 := by
  rw [Nat.le_log2 (Nat.mul_pos ha hb).ne']
  exact (Nat.log2_self_le ha.ne').trans (Nat.le_mul_of_pos_right a hb)

/-- One of two mantissas has all digits, or the exponent of the product is below the least one. -/
theorem isRounded_mul (hu : parts? u = some p) (hv : parts? v = some q) (hp : p.IsFull) (hq : q.IsFull) :
    IsRounded (UnpackedFloat.mul .binary64 u v) (p.value * q.value) := by
  cases u with
  | finite s m e hm =>
    cases v with
    | finite t n f hn =>
      cases hu
      cases hv
      have hvalue : ((m : ℚ) * 2 ^ e) * (n * 2 ^ f) = (m * n : Nat) * 2 ^ (e + f) := by
        rw [zpow_add₀ two_ne_zero]
        push_cast
        ring
      rw [value_mk, value_mk, ← withSign_mul, hvalue, mul_finite hm hn]
      refine isRounded_accuracy _ (Describes.exact _) ?_
      rcases hp.digits with hlog | ⟨he, -⟩
      · have hproduct : 52 ≤ (m * n).log2 := hlog ▸ log2_le_log2_mul hm hn
        omega
      · rcases hq.digits with hlog | ⟨hf, -⟩
        · have hproduct : 52 ≤ (m * n).log2 := hlog ▸ Nat.mul_comm n m ▸ log2_le_log2_mul hn hm
          omega
        · simp only at he hf
          omega
    | zero t =>
      cases hv
      rw [value_zero, mul_zero]
      exact isRounded_zero _
    | infinity t => cases hv
    | notANumber => cases hv
  | zero s =>
    cases hu
    rw [value_zero, zero_mul]
    cases v with
    | finite t n f hn => exact isRounded_zero _
    | zero t => exact isRounded_zero _
    | infinity t => cases hv
    | notANumber => cases hv
  | infinity s => cases hu
  | notANumber => cases hu

/-- What the remainder of a division says of the quotient. -/
theorem describes_quotient {a b : Nat} (hb : 0 < b) :
    Describes (.ofMantissaAndAccuracy (a / b) (accuracyOfFraction (a % b) b)) (a / b : ℚ) := by
  have hpos : (0 : ℚ) < b := by exact_mod_cast hb
  have hsplit : (a : ℚ) = b * (a / b : Nat) + (a % b : Nat) := by exact_mod_cast (Nat.div_add_mod a b).symm
  have hrest : (a % b : Nat) < (b : ℚ) := by exact_mod_cast Nat.mod_lt a hb
  have hquotient : (a : ℚ) / b = (a / b : Nat) + (a % b : Nat) / b := by
    conv_lhs => rw [hsplit]
    rw [add_div, mul_div_cancel_left₀ _ hpos.ne']
  rw [hquotient]
  unfold accuracyOfFraction
  split
  · rename_i hzero
    rw [hzero, Nat.cast_zero, zero_div, add_zero]
    exact Describes.exact _
  · rename_i hne
    have hfraction : (0 : ℚ) < (a % b : Nat) / b := div_pos (by exact_mod_cast Nat.pos_of_ne_zero hne) hpos
    cases hcompare : compare (2 * (a % b)) b with
    | lt =>
      have hhalf : 2 * ((a % b : Nat) : ℚ) < b := by exact_mod_cast Nat.compare_eq_lt.1 hcompare
      refine ⟨lt_add_of_pos_right _ hfraction, ?_⟩
      have hbelow : ((a % b : Nat) : ℚ) / b < 1 / 2 := by rw [div_lt_iff₀ hpos]; linarith
      exact add_lt_add_right hbelow _
    | eq =>
      have hhalf : 2 * ((a % b : Nat) : ℚ) = b := by exact_mod_cast Nat.compare_eq_eq.1 hcompare
      have htie : ((a % b : Nat) : ℚ) / b = 1 / 2 := by rw [div_eq_iff hpos.ne']; linarith
      rw [htie]
      rfl
    | gt =>
      have hhalf : (b : ℚ) < 2 * ((a % b : Nat) : ℚ) := by exact_mod_cast Nat.compare_eq_gt.1 hcompare
      have habove : 1 / 2 < ((a % b : Nat) : ℚ) / b := by rw [lt_div_iff₀ hpos]; linarith
      have hbelow : ((a % b : Nat) : ℚ) / b < 1 := by rw [div_lt_one hpos]; exact hrest
      exact ⟨add_lt_add_right habove _, add_lt_add_right hbelow _⟩

/-- With so many zeros behind the dividend the quotient has digits enough. -/
theorem le_log2_quotient {m n k : Nat} (hm : 0 < m) (hn : 0 < n) (hshift : n.log2 + 53 ≤ m.log2 + k) :
    52 ≤ (m * 2 ^ k / n).log2 := by
  have hquotient : 2 ^ 52 ≤ m * 2 ^ k / n := by
    rw [Nat.le_div_iff_mul_le hn]
    calc 2 ^ 52 * n ≤ 2 ^ 52 * 2 ^ (n.log2 + 1) := Nat.mul_le_mul_left _ Nat.lt_log2_self.le
      _ = 2 ^ (n.log2 + 53) := by rw [← Nat.pow_add]; congr 1; omega
      _ ≤ 2 ^ (m.log2 + k) := Nat.pow_le_pow_right Nat.zero_lt_two hshift
      _ ≤ m * 2 ^ k := by rw [Nat.pow_add]; exact Nat.mul_le_mul_right _ (Nat.log2_self_le hm.ne')
  exact (Nat.le_log2 (by omega)).2 hquotient

theorem divCore_eq {m n : Nat} {e f target : Int}
    (h : target = min (e - f) (Format.binary64.targetExponent (totalExponent m e - totalExponent n f))) :
    divCore .binary64 m e n f = (m * 2 ^ (e - f - target).toNat / n, target,
      accuracyOfFraction (m * 2 ^ (e - f - target).toNat % n) n) := by
  rw [h]
  unfold divCore
  simp only [Nat.shiftLeft_eq]

theorem isRounded_div (hu : parts? u = some p) (hv : parts? v = some q) (hq : q.mantissa ≠ 0) :
    IsRounded (UnpackedFloat.div .binary64 u v) (p.value / q.value) := by
  cases v with
  | finite t n f hn =>
    cases hv
    cases u with
    | finite s m e hm =>
      cases hu
      set target := min (e - f) (Format.binary64.targetExponent (totalExponent m e - totalExponent n f)) with htarget
      set k := (e - f - target).toNat with hk
      have hvalue : ((m : ℚ) * 2 ^ e) / (n * 2 ^ f) = ((m * 2 ^ k : Nat) : ℚ) / n * 2 ^ target := by
        have hexp : e = f + k + target := by omega
        have hne : (n : ℚ) ≠ 0 := by exact_mod_cast hn.ne'
        push_cast
        rw [hexp, zpow_add₀ two_ne_zero, zpow_add₀ two_ne_zero, zpow_natCast]
        field_simp
      rw [value_mk, value_mk, ← withSign_div, hvalue]
      show IsRounded (roundWithAccuracy .binary64 (s / t) (divCore .binary64 m e n f).1 (divCore .binary64 m e n f).2.1
        (divCore .binary64 m e n f).2.2) _
      rw [divCore_eq htarget, ← hk]
      refine isRounded_accuracy _ (describes_quotient hn) ?_
      by_cases hleast : target ≤ -1074
      · exact hleast.trans (Int.le_max_right _ _)
      · have hbits : Format.binary64.mantissaBits = 53 := rfl
        have hmin : Format.binary64.minExponent = -1074 := rfl
        have hshift : n.log2 + 53 ≤ m.log2 + k := by
          simp only [Format.targetExponent, totalExponent, hbits, hmin] at htarget
          omega
        have hlog := le_log2_quotient hm hn hshift
        exact le_max_of_le_left (by simp only; omega)
    | zero s =>
      cases hu
      rw [value_zero, zero_div]
      exact isRounded_zero _
    | infinity s => cases hu
    | notANumber => cases hu
  | zero t =>
    cases hv
    exact absurd rfl hq
  | infinity t => cases hv
  | notANumber => cases hv

end Operations

end Unpacked

namespace Double

/-! ### Values -/

/-- The double is finite and this number. -/
def IsValue (x : Float) (q : ℚ) : Prop := ∃ p, parts? x = some p ∧ p.value = q

variable {x y : Float} {a b : ℚ} {n : Int}

theorem IsValue.unique (h : IsValue x a) (h' : IsValue x b) : a = b := by
  obtain ⟨p, hp, rfl⟩ := h
  obtain ⟨q, hq, rfl⟩ := h'
  rw [hp] at hq
  cases hq
  rfl

/-- The bits of a finite double are read off its parts. -/
theorem toBits_of_parts? {p : Parts} (h : parts? x = some p) :
    x.toBits.toNat = (if p.negative then 2 ^ 63 else 0) +
      if p.mantissa < 2 ^ 52 then p.mantissa else (p.exponent + 1075).toNat * 2 ^ 52 + (p.mantissa - 2 ^ 52) := by
  have hlt := x.toBits.toNat_lt
  have hsign : (if isNegative x then 2 ^ 63 else 0) = x.toBits.toNat / 2 ^ 63 * 2 ^ 63 := by
    unfold isNegative
    rw [twoTo_eq]
    split <;> rename_i hsign <;> simp only [decide_eq_true_eq] at hsign <;> omega
  have hfield : exponentField x = x.toBits.toNat / 2 ^ 52 % 2048 := by rw [exponentField, twoTo_eq]
  have hfraction : fractionField x = x.toBits.toNat % 2 ^ 52 := by rw [fractionField, twoTo_eq]
  unfold parts? at h
  dsimp only at h
  rw [twoTo_eq] at h
  split at h
  · cases h
  · split at h
    · cases h
      dsimp only
      rw [hsign, if_pos (by omega)]
      omega
    · cases h
      dsimp only
      rw [hsign, if_neg (by omega)]
      omega

theorem eq_of_parts? {p : Parts} (hx : parts? x = some p) (hy : parts? y = some p) : x = y := by
  have hbits : x.toBits = y.toBits := UInt64.toNat_inj.1 ((toBits_of_parts? hx).trans (toBits_of_parts? hy).symm)
  obtain ⟨⟨b, hb⟩⟩ := x
  obtain ⟨⟨c, hc⟩⟩ := y
  obtain rfl : b = c := hbits
  rfl

/-- A double that is not zero is determined by its value. -/
theorem IsValue.eq (hx : IsValue x a) (hy : IsValue y a) (ha : a ≠ 0) : x = y := by
  obtain ⟨p, hp, rfl⟩ := hx
  obtain ⟨q, hq, hvalue⟩ := hy
  obtain rfl := (canonical_of_parts? hp).full.eq_of_value (canonical_of_parts? hq).full hvalue.symm ha
  exact eq_of_parts? hp hq
theorem IsValue.fits (h : IsValue x a) : Fits a := by
  obtain ⟨p, hp, rfl⟩ := h
  exact (canonical_of_parts? hp).full.fits

theorem IsValue.isFinite (h : IsValue x a) : Double.isFinite x = true := by
  obtain ⟨p, hp, -⟩ := h
  rw [isFinite_iff, hp]
  rfl

theorem isInfinite_of_parts? {p : Parts} (h : parts? x = some p) : isInfinite x = false := by
  have hfield : exponentField x ≠ 2047 := by
    intro hfield
    rw [parts?, if_pos hfield] at h
    cases h
  rw [isInfinite, beq_false_of_ne hfield, Bool.false_and]

/-- What is put into bits is the nearest double if it is below the bound. -/
theorem exists_nearest {u : UnpackedFloat} (h : Unpacked.IsRounded u a) (ha : |a| < Parts.bound) :
    ∃ d, IsValue (.ofModel (.pack u)) d ∧ IsNearest a d := by
  obtain ⟨p, hp, hfull, hnearest⟩ := h
  have hcanonical := hfull.canonical (hfull.exponent_le hnearest ha)
  exact ⟨p.value, ⟨p, (parts?_eq _).trans (Unpacked.parts?_pack hp hcanonical), rfl⟩, hnearest⟩

theorem IsValue.unpack (h : IsValue x a) :
    ∃ p, Unpacked.parts? x.toModel.unpack = some p ∧ p.IsCanonical ∧ p.value = a := by
  obtain ⟨p, hp, rfl⟩ := h
  exact ⟨p, (parts?_eq x).symm.trans hp, canonical_of_parts? hp, rfl⟩

theorem nearest_add (hx : IsValue x a) (hy : IsValue y b) (hsum : |a + b| < Parts.bound) :
    ∃ d, IsValue (x + y) d ∧ IsNearest (a + b) d := by
  obtain ⟨p, hp, hpc, rfl⟩ := hx.unpack
  obtain ⟨q, hq, hqc, rfl⟩ := hy.unpack
  exact exists_nearest (Unpacked.isRounded_add hp hq hpc.full hqc.full) hsum

theorem nearest_mul (hx : IsValue x a) (hy : IsValue y b) (hproduct : |a * b| < Parts.bound) :
    ∃ d, IsValue (x * y) d ∧ IsNearest (a * b) d := by
  obtain ⟨p, hp, hpc, rfl⟩ := hx.unpack
  obtain ⟨q, hq, hqc, rfl⟩ := hy.unpack
  exact exists_nearest (Unpacked.isRounded_mul hp hq hpc.full hqc.full) hproduct

theorem nearest_div (hx : IsValue x a) (hy : IsValue y b) (hb : b ≠ 0) (hquotient : |a / b| < Parts.bound) :
    ∃ d, IsValue (x / y) d ∧ IsNearest (a / b) d := by
  obtain ⟨p, hp, hpc, rfl⟩ := hx.unpack
  obtain ⟨q, hq, hqc, rfl⟩ := hy.unpack
  exact exists_nearest (Unpacked.isRounded_div hp hq (Parts.mantissa_pos hb).ne') hquotient

theorem isValue_neg (hx : IsValue x a) : IsValue (-x) (-a) := by
  obtain ⟨p, hp, hpc, rfl⟩ := hx.unpack
  have hneg : Unpacked.parts? x.toModel.unpack.neg = some ⟨!p.negative, p.mantissa, p.exponent⟩ := by
    generalize x.toModel.unpack = u at hp
    cases u with
    | finite s m e hm =>
      cases hp
      cases s <;> rfl
    | zero s =>
      cases hp
      cases s <;> rfl
    | infinity s => cases hp
    | notANumber => cases hp
  refine ⟨_, (parts?_eq _).trans (Unpacked.parts?_pack hneg ⟨hpc.mantissa_lt, hpc.least, hpc.greatest, hpc.digits⟩), ?_⟩
  unfold Parts.value Parts.signed
  cases p.negative <;> simp

/-- The greatest double is half a unit in its last place below the bound. -/
theorem IsValue.abs_le (h : IsValue x a) : |a| ≤ (2 ^ 53 - 1) * 2 ^ (971 : ℤ) := by
  obtain ⟨p, hp, rfl⟩ := h
  have hcanonical := canonical_of_parts? hp
  have hmantissa : (p.mantissa : ℚ) ≤ 2 ^ 53 - 1 := by
    rw [le_sub_iff_add_le]
    exact_mod_cast hcanonical.mantissa_lt
  rw [Parts.abs_value]
  exact mul_le_mul hmantissa (zpow_le_zpow_right₀ one_le_two hcanonical.greatest) (two_zpow_pos _).le (by norm_num)

theorem abs_lt_bound_of_le (h : |a| ≤ (2 ^ 53 - 1) * 2 ^ (971 : ℤ) + b) (hb : b < 2 ^ (970 : ℤ)) : |a| < Parts.bound := by
  have hhalf : (2 : ℚ) ^ (971 : ℤ) = 2 * 2 ^ (970 : ℤ) := two_zpow_succ 970
  unfold Parts.bound
  rw [hhalf] at h ⊢
  linarith

theorem natCast_abs_lt_bound {n : Nat} (h : n ≤ 2 ^ 53 * 2 ^ 53) : |(n : ℚ)| < Parts.bound := by
  have hle : (n : ℚ) ≤ 2 ^ 53 * 2 ^ 53 := by exact_mod_cast h
  have hunit : (2 : ℚ) ^ (54 : ℤ) ≤ 2 ^ (971 : ℤ) := zpow_le_zpow_right₀ one_le_two (by omega)
  rw [zpow_ofNat] at hunit
  unfold Parts.bound
  rw [Nat.abs_cast]
  generalize (2 : ℚ) ^ (971 : ℤ) = u at hunit ⊢
  linarith

theorem IsValue.abs_lt_bound (h : IsValue x a) : |a| < Parts.bound :=
  abs_lt_bound_of_le (b := 0) (by rw [add_zero]; exact h.abs_le) (two_zpow_pos _)

/-- Operations whose exact result is a double give it. -/
theorem IsValue.of_nearest (h : ∃ d, IsValue x d ∧ IsNearest a d) (ha : Fits a) : IsValue x a := by
  obtain ⟨d, hd, hnearest⟩ := h
  rwa [hnearest.eq_self ha] at hd

/-! ### Whole numbers -/

theorem Parts.magnitude_eq_whole {p : Parts} (h : p.fraction = 0) : (p.mantissa : ℚ) * 2 ^ p.exponent = p.whole := by
  rw [fraction_eq_zero_iff] at h
  unfold whole
  split
  · rename_i he
    conv_lhs => rw [← Int.toNat_of_nonneg he, zpow_natCast]
    rw [twoTo_eq]
    push_cast
    rfl
  · rename_i he
    have hexp : p.exponent = -((-p.exponent).toNat : ℤ) := by omega
    have hne : ((2 ^ (-p.exponent).toNat : ℕ) : ℚ) ≠ 0 := by positivity
    rw [twoTo_eq, Nat.cast_div h hne]
    conv_lhs => rw [hexp, zpow_neg, zpow_natCast]
    rw [Nat.cast_pow, Nat.cast_ofNat, div_eq_mul_inv]

theorem Parts.value_eq_toInt {p : Parts} (h : p.fraction = 0) : p.value = p.toInt := by
  have hwhole := magnitude_eq_whole h
  unfold value signed toInt
  split
  · push_cast
    rw [neg_mul, hwhole]
  · push_cast
    exact hwhole

theorem isInt_iff_isValue : IsInt x n ↔ IsValue x n := by
  rw [isInt_iff]
  refine exists_congr fun p => and_congr_right fun _ => ?_
  constructor
  · rintro ⟨hfraction, rfl⟩
    exact Parts.value_eq_toInt hfraction
  · intro hvalue
    have hfraction : p.fraction = 0 := by
      refine Parts.fraction_eq_zero_of_near (n := n) ?_
      rw [hvalue, sub_self, abs_zero]
      exact two_zpow_pos _
    rw [Parts.value_eq_toInt hfraction] at hvalue
    exact ⟨hfraction, by exact_mod_cast hvalue⟩

theorem isValue_ofInt (hn : n.natAbs ≤ 2 ^ 53) : IsValue (ofInt n) n := isInt_iff_isValue.1 (isInt_ofInt hn)

theorem isValue_one : IsValue 1 1 := ⟨⟨false, 2 ^ 52, -52⟩, by decide +kernel, by norm_num [Parts.value, Parts.signed]⟩

/-- A natural number is rounded to the nearest double. -/
theorem nearest_ofScientific {n : Nat} (hn : (n : ℚ) < Parts.bound) :
    ∃ d, IsValue (Float.ofScientific n false 0) d ∧ IsNearest n d := by
  rcases Nat.lt_or_ge n (2 ^ 53) with hsmall | hlarge
  · have hvalue : IsValue (Float.ofScientific n false 0) n := isValue_ofInt (n := n) (by rw [Int.natAbs_natCast]; omega)
    obtain ⟨p, hp, hpn⟩ := hvalue
    exact ⟨n, ⟨p, hp, hpn⟩, hpn ▸ (canonical_of_parts? hp).full.nearest⟩
  · have hrounded : Unpacked.IsRounded (UnpackedFloat.ofScientific .binary64 n 0) n := by
      have hne : n ≠ 0 := by omega
      have hlimit : (0 : Int) < 2 ^ Format.binary64.exponentBits := by decide
      have hmantissa : n <<< Format.binary64.mantissaBits * 10 ^ (0 : Int).toNat = n * 2 ^ 53 := by
        rw [Nat.shiftLeft_eq]
        exact Nat.mul_one _
      have hexponent : -(Format.binary64.mantissaBits : Int) + 0 = -53 := rfl
      have hvalue : (n : ℚ) = ((n * 2 ^ 53 : Nat) : ℚ) * 2 ^ (-53 : ℤ) := by
        push_cast
        rw [mul_assoc]
        norm_num
      unfold UnpackedFloat.ofScientific
      rw [dif_neg hne, if_neg (by omega), if_neg (by omega), if_pos (Int.le_refl 0), Unpacked.mul_finite, hmantissa, hexponent]
      conv_rhs => rw [hvalue]
      refine Unpacked.isRounded_accuracy .positive (Unpacked.Describes.exact _) ?_
      rw [Unpacked.log2_mul_two_pow hne]
      omega
    have hscientific : Float.ofScientific n false 0 = .ofModel (.pack (UnpackedFloat.ofScientific .binary64 n 0)) := by
      unfold Float.ofScientific
      rw [dif_neg fun h => Nat.not_lt.2 hlarge h.1]
      rfl
    rw [hscientific]
    exact exists_nearest hrounded (by rwa [Nat.abs_cast])

/-! ### Numbers from their parts -/

theorem parts?_ofFields (negative : Bool) {field fraction : Nat} (hfield : field < 2047) (hfraction : fraction < 2 ^ 52) :
    parts? (ofFields negative field fraction) =
      some (if field = 0 then ⟨negative, fraction, -1074⟩ else ⟨negative, 2 ^ 52 + fraction, (field : Int) - 1075⟩) := by
  set bits := (if negative then twoTo 63 else 0) + field * twoTo 52 + fraction with hbits
  have hsum : bits = (if negative then 2 ^ 63 else 0) + field * 2 ^ 52 + fraction := rfl
  have hsign : decide (2 ^ 63 ≤ bits) = negative := by
    cases negative with
    | true => exact decide_eq_true (by rw [if_pos rfl] at hsum; omega)
    | false => exact decide_eq_false (by rw [if_neg Bool.false_ne_true] at hsum; omega)
  have hlt : bits < 2 ^ 64 := by split at hsum <;> omega
  have hnat : (UInt64.ofNat bits).toBitVec.toNat = bits := by
    rw [UInt64.toBitVec_ofNat', BitVec.toNat_ofNat, Nat.mod_eq_of_lt hlt]
  have hexp : bits / 2 ^ 52 % 2048 = field := by split at hsum <;> omega
  have hmantissa : bits % 2 ^ 52 = fraction := by split at hsum <;> omega
  have hunpack : Unpacked.parts? (.unpack .binary64 (UInt64.ofNat bits).toBitVec) =
      some (if field = 0 then ⟨negative, fraction, -1074⟩ else ⟨negative, 2 ^ 52 + fraction, (field : Int) - 1075⟩) := by
    rw [Unpacked.parts?_unpack, hnat, hexp, hmantissa, hsign, if_neg hfield.ne]
    split <;> rfl
  exact (parts?_eq _).trans (Unpacked.parts?_pack hunpack (Unpacked.canonical_unpack hunpack))

/-- A natural number of 53 digits is put together from its digits. -/
theorem isValue_ofParts (negative : Bool) {n : Nat} (hn : n < 2 ^ 53) :
    IsValue (ofParts ⟨negative, n, 0⟩) (if negative then -n else n) := by
  unfold ofParts
  by_cases hzero : n = 0
  · rw [if_pos hzero]
    exact ⟨_, parts?_ofFields negative (by omega) (Nat.two_pow_pos 52), by cases negative <;> simp [Parts.value, Parts.signed, hzero]⟩
  · have hlog : n.log2 ≤ 52 := by
      have := (Nat.log2_lt hzero).2 hn
      omega
    have hscaled : (n * 2 ^ (52 - n.log2)).log2 = 52 := by
      rw [Unpacked.log2_mul_two_pow hzero]
      omega
    obtain ⟨hlo, hhi⟩ := (Nat.log2_eq_iff (Nat.mul_ne_zero hzero (Nat.two_pow_pos _).ne')).1 hscaled
    have hfield : ((n.log2 : Int) + 0 + 1023).toNat = n.log2 + 1023 := by omega
    rw [if_neg hzero]
    simp only [twoTo_eq]
    rw [if_neg (by omega), hfield]
    refine ⟨_, parts?_ofFields negative (by omega) (by omega), ?_⟩
    rw [if_neg (by omega), Nat.add_sub_cancel' hlo]
    have hvalue : ((n * 2 ^ (52 - n.log2) : Nat) : ℚ) * 2 ^ (((n.log2 + 1023 : Nat) : Int) - 1075) = n := by
      have hexp : ((n.log2 + 1023 : Nat) : Int) - 1075 = -((52 - n.log2 : Nat) : Int) := by omega
      rw [hexp, zpow_neg, zpow_natCast]
      push_cast
      field_simp
    unfold Parts.value Parts.signed
    cases negative with
    | true =>
      rw [if_pos rfl, if_pos rfl, Int.cast_neg, Int.cast_natCast, neg_mul, hvalue]
    | false =>
      rw [if_neg Bool.false_ne_true, if_neg Bool.false_ne_true, Int.cast_natCast, hvalue]

/-! ### Rounding to whole numbers -/

/-- A quotient that goes up if its remainder is half of the divisor or more is the nearest integer. -/
theorem quotient_add_eq {b w f : Nat} {n : Int} (hf : f < b) (h : |(b * w + f : Int) - n * b| * 2 < b) :
    ((w + if 2 * f < b then 0 else 1 : Nat) : Int) = n := by
  have hpos : (0 : Int) ≤ b := Int.natCast_nonneg b
  have hrest : (f : Int) < b := by exact_mod_cast hf
  obtain ⟨hlo, hhi⟩ := abs_lt.1 (show |((b * w + f : Int) - n * b) * 2| < b by rwa [abs_mul, abs_two])
  split <;> rename_i hhalf
  · have hbelow : 2 * (f : Int) < b := by exact_mod_cast hhalf
    have hle : 2 * ((w : Int) - n) < 1 := lt_of_mul_lt_mul_left (a := (b : Int)) (by linarith) hpos
    have hge : -2 < 2 * ((w : Int) - n) := lt_of_mul_lt_mul_left (a := (b : Int)) (by linarith) hpos
    omega
  · have habove : (b : Int) ≤ 2 * f := by exact_mod_cast Nat.le_of_not_lt hhalf
    have hle : 2 * ((w : Int) - n) < 0 := lt_of_mul_lt_mul_left (a := (b : Int)) (by linarith) hpos
    have hge : -3 < 2 * ((w : Int) - n) := lt_of_mul_lt_mul_left (a := (b : Int)) (by linarith) hpos
    omega

namespace Parts

/-- The whole number with the sign of the parts and the magnitude that `r` picks. -/
def picked (r : Rounding) (p : Parts) : Int :=
  if p.negative then -((p.whole + if r.grows p then 1 else 0 : Nat) : Int) else (p.whole + if r.grows p then 1 else 0 : Nat)

theorem picked_of_fraction_eq_zero {p : Parts} (h : p.fraction = 0) (r : Rounding) : p.picked r = p.toInt := by
  have hgrows : r.grows p = false := by cases r <;> simp [Rounding.grows, h]
  unfold picked toInt
  rw [hgrows, if_neg Bool.false_ne_true, Nat.add_zero]

variable {p : Parts} {k : Nat} (hk : p.exponent = -(k + 1 : Nat))

include hk

theorem whole_eq_div : p.whole = p.mantissa / 2 ^ (k + 1) := by
  rw [whole, if_neg (by omega), hk, Int.neg_neg, Int.toNat_natCast, twoTo_eq]

theorem fraction_eq_mod : p.fraction = p.mantissa % 2 ^ (k + 1) := by
  rw [fraction, if_neg (by omega), hk, Int.neg_neg, Int.toNat_natCast, twoTo_eq]

theorem whole_lt (hp : p.IsCanonical) : p.whole < 2 ^ 52 := by
  rw [whole_eq_div hk, Nat.div_lt_iff_lt_mul (Nat.two_pow_pos _)]
  calc p.mantissa < 2 ^ 52 * 2 ^ 1 := hp.mantissa_lt
    _ ≤ 2 ^ 52 * 2 ^ (k + 1) := Nat.mul_le_mul_left _ (Nat.pow_le_pow_right Nat.zero_lt_two (by omega))

theorem floor_value : ⌊p.value⌋ = p.signed / ((2 ^ (k + 1) : Nat) : Int) := by
  rw [← Rat.floor_intCast_div_natCast, value, hk, zpow_neg, zpow_natCast, ← div_eq_mul_inv]
  push_cast
  rfl

/-- Digits behind the point make a negative number one less, and no other. -/
theorem picked_down : p.picked .down = ⌊p.value⌋ := by
  rw [floor_value hk, picked, whole_eq_div hk]
  unfold Rounding.grows signed
  cases p.negative with
  | false =>
    simp only [Bool.false_and, Bool.false_eq_true, if_false, Nat.add_zero]
    exact_mod_cast rfl
  | true =>
    simp only [Bool.true_and, if_true]
    have hdvd : ((2 ^ (k + 1) : Nat) : Int) ∣ (p.mantissa : Int) ↔ p.mantissa % 2 ^ (k + 1) = 0 := by
      rw [Int.natCast_dvd_natCast, Nat.dvd_iff_mod_eq_zero]
    rw [fraction_eq_mod hk, Int.neg_ediv, Int.sign_natCast_of_ne_zero (Nat.two_pow_pos _).ne']
    by_cases hexact : p.mantissa % 2 ^ (k + 1) = 0
    · rw [if_pos (hdvd.2 hexact), hexact]
      simp
    · rw [if_neg (mt hdvd.1 hexact), if_pos (by simpa using hexact)]
      push_cast
      ring

theorem grows_nearestAway :
    (if Rounding.nearestAway.grows p then 1 else 0) = if 2 * p.fraction < 2 ^ (k + 1) then 0 else 1 := by
  have hone : twoTo (-p.exponent).toNat = 2 ^ (k + 1) := by rw [hk, Int.neg_neg, Int.toNat_natCast, twoTo_eq]
  have hpos := Nat.two_pow_pos (k + 1)
  unfold Rounding.grows half
  rw [hone]
  by_cases hhalf : 2 * p.fraction < 2 ^ (k + 1)
  · simp [hhalf, Nat.compare_eq_lt.2 hhalf]
  · have hne : compare (2 * p.fraction) (2 ^ (k + 1)) ≠ .lt := fun h => hhalf (Nat.compare_eq_lt.1 h)
    have hfraction : p.fraction ≠ 0 := by omega
    simp [hhalf, hne, hfraction]

theorem picked_nearestAway {n : Int} (hn : |p.value - n| < 1 / 2) : p.picked .nearestAway = n := by
  have hunit : (0 : ℚ) < 2 ^ (k + 1) := by positivity
  have hscaled : |((p.signed - n * 2 ^ (k + 1) : Int) : ℚ)| * 2 < 2 ^ (k + 1) := by
    rw [value, hk, zpow_neg, zpow_natCast, ← div_eq_mul_inv] at hn
    have hfactor : (p.signed : ℚ) / 2 ^ (k + 1) - n = ((p.signed - n * 2 ^ (k + 1) : Int) : ℚ) / 2 ^ (k + 1) := by
      push_cast
      field_simp
    rw [hfactor, abs_div, abs_of_pos hunit, div_lt_iff₀ hunit] at hn
    linarith
  have hint : |p.signed - n * (2 ^ (k + 1) : Nat)| * 2 < (2 ^ (k + 1) : Nat) := by
    push_cast
    exact_mod_cast hscaled
  have hrest : p.fraction < 2 ^ (k + 1) := by
    rw [fraction_eq_mod hk]
    exact Nat.mod_lt _ (Nat.two_pow_pos _)
  have hsplit : ((2 ^ (k + 1) : Nat) * p.whole + p.fraction : Int) = p.mantissa := by
    rw [whole_eq_div hk, fraction_eq_mod hk]
    exact_mod_cast Nat.div_add_mod p.mantissa (2 ^ (k + 1))
  rw [picked, grows_nearestAway hk]
  unfold signed at hint
  split <;> rename_i hneg
  · rw [if_pos hneg, ← abs_neg] at hint
    rw [quotient_add_eq (n := -n) hrest (by rw [hsplit]; convert hint using 3; ring), neg_neg]
  · rw [if_neg hneg] at hint
    exact quotient_add_eq hrest (by rwa [hsplit])

end Parts

/-- A double without digits behind the point is not changed, and any other is put together from the whole number that is
picked. -/
theorem round_cases {p : Parts} (r : Rounding) (hp : parts? x = some p) :
    (p.fraction = 0 ∧ round r x = x) ∨ ((∃ k : Nat, p.exponent = -(k + 1 : Nat)) ∧ IsValue (round r x) (p.picked r)) := by
  unfold round
  rw [hp]
  dsimp only
  split
  · rename_i he
    exact .inl ⟨if_pos he, rfl⟩
  · obtain ⟨k, hk⟩ : ∃ k : Nat, p.exponent = -(k + 1 : Nat) := ⟨(-p.exponent).toNat - 1, by omega⟩
    have hsmall := Parts.whole_lt hk (canonical_of_parts? hp)
    have hparts := isValue_ofParts p.negative (n := p.whole + if r.grows p then 1 else 0) (by split <;> omega)
    refine .inr ⟨⟨k, hk⟩, ?_⟩
    unfold Parts.picked
    split <;> rename_i hneg
    · rw [if_pos hneg] at hparts
      exact_mod_cast hparts
    · rw [if_neg hneg] at hparts
      exact_mod_cast hparts

/-- A whole number is not changed. -/
theorem isValue_round (r : Rounding) (h : IsValue x n) : IsValue (round r x) n := by
  obtain ⟨p, hp, hfraction, rfl⟩ := isInt_iff.1 (isInt_iff_isValue.2 h)
  obtain ⟨-, hsame⟩ | ⟨-, hround⟩ := round_cases r hp
  · rwa [hsame]
  · rwa [Parts.picked_of_fraction_eq_zero hfraction] at hround

/-- Rounding down. -/
theorem isValue_floor (h : IsValue x a) : IsValue (floor x) (⌊a⌋ : Int) := by
  obtain ⟨p, hp, rfl⟩ := h
  unfold floor
  obtain ⟨hfraction, hsame⟩ | ⟨⟨k, hk⟩, hround⟩ := round_cases .down hp
  · have hwhole := Parts.value_eq_toInt hfraction
    rw [hsame, hwhole, Int.floor_intCast]
    exact ⟨p, hp, hwhole⟩
  · rwa [Parts.picked_down hk] at hround

/-- The double is finite and less than one half away. -/
def Near (x : Float) (n : Int) : Prop := ∃ a, IsValue x a ∧ |a - n| < 1 / 2

theorem Near.of_isValue (h : IsValue x n) : Near x n := ⟨n, h, by norm_num⟩

theorem Near.isInfinite (h : Near x n) : isInfinite x = false := by
  obtain ⟨-, ⟨p, hp, -⟩, -⟩ := h
  exact isInfinite_of_parts? hp

/-- Rounding to the nearest whole number. -/
theorem Near.isValue_nearest (h : Near x n) : IsValue (nearest x) n := by
  obtain ⟨-, ⟨p, hp, rfl⟩, hn⟩ := h
  unfold nearest
  obtain ⟨hfraction, hsame⟩ | ⟨⟨k, hk⟩, hround⟩ := round_cases .nearestAway hp
  · have hwhole := Parts.value_eq_toInt hfraction
    have hclose : |p.toInt - n| < 1 := by
      have hcast : |((p.toInt - n : Int) : ℚ)| < 1 := by
        push_cast
        rw [← hwhole]
        linarith
      exact_mod_cast hcast
    rw [hsame, ← sub_eq_zero.1 (Int.abs_lt_one_iff.1 hclose)]
    exact ⟨p, hp, hwhole⟩
  · rwa [Parts.picked_nearestAway hk hn] at hround

end Double

end Rowwise
