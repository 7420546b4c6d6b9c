import Rowwise.Proofs.Numbers.Rounding

/-!
# Rowwise.Proofs.Numbers.Packing — the parts of a double

A double is kept in 64 bits: a sign, an exponent and the mantissa without its first digit.  The parts of a double are those of
its bits taken apart (`Unpacked.parts?_unpack`), and a whole number stays whole when it is put into bits.
-/

namespace Rowwise

open Float.Model Float.Model.UnpackedFloat

theorem twoTo_eq (n : Nat) : twoTo n = 2 ^ n := rfl

/-- The fraction is zero if the digits behind the point are. -/
theorem Double.Parts.fraction_eq_zero_iff {p : Double.Parts} : p.fraction = 0 ↔ 2 ^ (-p.exponent).toNat ∣ p.mantissa := by
  unfold fraction
  split
  · rw [show (-p.exponent).toNat = 0 by omega]
    simp
  · exact (Nat.dvd_iff_mod_eq_zero ..).symm

/-- The parts are those of a double: all 53 digits are there unless the exponent is the least one. -/
structure Double.Parts.IsCanonical (p : Double.Parts) : Prop where
  mantissa_lt : p.mantissa < 2 ^ 53
  least : -1074 ≤ p.exponent
  greatest : p.exponent ≤ 971
  digits : p.mantissa.log2 = 52 ∨ p.exponent = -1074 ∧ p.mantissa < 2 ^ 52

namespace Unpacked

/-- The parts of an unpacked number. -/
def parts? : UnpackedFloat → Option Double.Parts
  | .finite s m e _ => some ⟨s == .negative, m, e⟩
  | .zero s => some ⟨s == .negative, 0, -1074⟩
  | _ => none

/-! ### Fields -/

theorem toNat_unpackExponent (b : BitVec 64) :
    (@unpackExponent .binary64 b).toNat = b.toNat / 2 ^ 52 % 2048 := by
  simp [unpackExponent, Nat.shiftRight_eq_div_pow]

theorem toNat_unpackMantissa (b : BitVec 64) :
    (@unpackMantissa .binary64 b).toNat = b.toNat % 2 ^ 52 := by
  simp [unpackMantissa]

theorem isNegative_unpackSign (b : BitVec 64) :
    (Sign.ofBitVec (@unpackSign .binary64 b) == .negative) = decide (2 ^ 63 ≤ b.toNat) := by
  have hsign : (@unpackSign .binary64 b).toNat = b.toNat / 2 ^ 63 := by
    show (b.extractLsb 63 63).toNat = _
    simp [Nat.shiftRight_eq_div_pow]
    have := b.isLt
    omega
  unfold Sign.ofBitVec
  by_cases h : 2 ^ 63 ≤ b.toNat
  · rw [if_neg, decide_eq_true h]
    · rfl
    · intro hzero
      rw [hzero] at hsign
      simp at hsign
      omega
  · rw [if_pos, decide_eq_false h]
    · rfl
    · apply BitVec.eq_of_toNat_eq
      rw [hsign]
      simp
      omega

theorem eq_neg_one_iff (v : BitVec 11) : v = -1#11 ↔ v.toNat = 2047 := by
  rw [← BitVec.toNat_inj]
  rfl

theorem eq_zero_iff {n : Nat} (v : BitVec n) : v = 0#n ↔ v.toNat = 0 := by
  rw [← BitVec.toNat_inj]
  simp

theorem toNat_one_append {n : Nat} (v : BitVec n) : (1#1 ++ v).toNat = 2 ^ n + v.toNat := by
  rw [BitVec.toNat_append, ← Nat.shiftLeft_add_eq_or_of_lt v.isLt]
  simp [Nat.shiftLeft_eq]

theorem parts?_unpack (b : BitVec 64) : parts? (UnpackedFloat.unpack .binary64 b) =
    if b.toNat / 2 ^ 52 % 2048 = 2047 then none
    else if b.toNat / 2 ^ 52 % 2048 = 0 then some ⟨decide (2 ^ 63 ≤ b.toNat), b.toNat % 2 ^ 52, -1074⟩
    else some ⟨decide (2 ^ 63 ≤ b.toNat), 2 ^ 52 + b.toNat % 2 ^ 52, ((b.toNat / 2 ^ 52 % 2048 : Nat) : Int) - 1075⟩ := by
  rw [← toNat_unpackExponent, ← toNat_unpackMantissa, ← isNegative_unpackSign]
  unfold UnpackedFloat.unpack
  dsimp only
  by_cases hexp : @unpackExponent .binary64 b = -1#11
  · rw [if_pos hexp, if_pos ((eq_neg_one_iff _).1 hexp)]
    by_cases hmantissa : @unpackMantissa .binary64 b = 0#52
    · rw [if_pos hmantissa]
      rfl
    · rw [if_neg hmantissa]
      rfl
  · rw [if_neg hexp, if_neg (mt (eq_neg_one_iff _).2 hexp)]
    by_cases hzero : @unpackExponent .binary64 b = 0#11
    · rw [if_pos hzero, if_pos ((eq_zero_iff _).1 hzero), hzero]
      by_cases hmantissa : @unpackMantissa .binary64 b = 0#52
      · rw [dif_pos hmantissa, hmantissa]
        rfl
      · rw [dif_neg hmantissa]
        rfl
    · rw [if_neg hzero, if_neg (mt (eq_zero_iff _).2 hzero)]
      exact congrArg (fun m => some (⟨_, m, _⟩ : Double.Parts)) (toNat_one_append _)

theorem canonical_unpack {b : BitVec 64} {p : Double.Parts} (h : parts? (.unpack .binary64 b) = some p) : p.IsCanonical := by
  have hlt : b.toNat % 2 ^ 52 < 2 ^ 52 := Nat.mod_lt _ (Nat.two_pow_pos 52)
  have hexp : b.toNat / 2 ^ 52 % 2048 < 2048 := Nat.mod_lt _ (by omega)
  rw [parts?_unpack] at h
  split at h
  · cases h
  · split at h
    · cases h
      exact ⟨hlt.trans (Nat.pow_lt_pow_right Nat.one_lt_two (by omega)), by simp, by simp, Or.inr ⟨rfl, hlt⟩⟩
    · cases h
      have hfull : 2 ^ 52 + b.toNat % 2 ^ 52 < 2 ^ 53 := Nat.add_lt_add_left hlt (2 ^ 52)
      refine ⟨hfull, by simp; omega, by simp; omega, Or.inl ?_⟩
      exact (Nat.log2_eq_iff (Nat.add_pos_left (Nat.two_pow_pos 52) _).ne').2 ⟨Nat.le_add_right _ _, hfull⟩

/-- A double is whole if it has no fraction. -/
theorem isWhole_unpack_iff {b : BitVec 64} :
    IsWhole (.unpack .binary64 b) ↔ ∀ p, parts? (.unpack .binary64 b) = some p → p.fraction = 0 := by
  have hcanonical : ∀ p, parts? (.unpack .binary64 b) = some p → p.IsCanonical := fun _ => canonical_unpack
  generalize UnpackedFloat.unpack .binary64 b = u at hcanonical
  cases u with
  | finite s m e hm =>
    have hall : (∀ p, parts? (.finite s m e hm) = some p → p.fraction = 0) ↔ 2 ^ (-e).toNat ∣ m := by
      rw [← Double.Parts.fraction_eq_zero_iff (p := ⟨s == .negative, m, e⟩)]
      exact ⟨fun h => h _ rfl, fun h p hp => by cases hp; exact h⟩
    rw [hall]
    refine ⟨fun h => h.2, fun h => ⟨?_, h⟩⟩
    rcases (hcanonical _ rfl).digits with hlog | ⟨he, hlt⟩
    · exact hlog
    · -- a number below all normal ones is no multiple of one
      have he : e = -1074 := he
      have hpow : 2 ^ 52 ≤ 2 ^ (-e).toNat := Nat.pow_le_pow_right Nat.zero_lt_two (by omega)
      exact absurd (hpow.trans (Nat.le_of_dvd hm h)) (Nat.not_le.2 hlt)
  | zero s =>
    refine ⟨fun _ p hp => ?_, fun _ => trivial⟩
    cases hp
    rfl
  | infinity s => exact ⟨fun _ _ hp => (nomatch hp), fun _ => trivial⟩
  | notANumber => exact ⟨fun _ _ hp => (nomatch hp), fun _ => trivial⟩

/-! ### Packing -/

/-- What is packed with the greatest exponent is no finite number. -/
theorem isWhole_of_exponent {b : BitVec 64} (h : @unpackExponent .binary64 b = -1#11) :
    IsWhole (.unpack .binary64 b) := by
  have hexp : b.toNat / 2 ^ 52 % 2048 = 2047 := by rw [← toNat_unpackExponent, h]; rfl
  rw [isWhole_unpack_iff, parts?_unpack, if_pos hexp]
  exact nofun

/-- What is packed with a smaller exponent is a finite number. -/
theorem isSome_parts?_packComponents {s : Sign} {exponent : BitVec 11} {mantissa : BitVec 52} (h : exponent.toNat ≠ 2047) :
    (parts? (.unpack .binary64 (packComponents .binary64 s exponent mantissa))).isSome = true := by
  rw [parts?_unpack, ← toNat_unpackExponent, unpackExponent_packComponents, if_neg h]
  split <;> rfl

theorem unpackSign_packComponents {s : Sign} {exponent : BitVec 11} {mantissa : BitVec 52} :
    Sign.ofBitVec (@unpackSign .binary64 (packComponents .binary64 s exponent mantissa)) = s := by
  have hbit : @unpackSign .binary64 (packComponents .binary64 s exponent mantissa) = s.toBitVec := by
    unfold unpackSign packComponents BitVec.extractLsb
    rw [BitVec.extractLsb'_append_eq_of_le (by decide), BitVec.extractLsb'_append_eq_of_le (by decide)]
    cases s <;> rfl
  rw [hbit]
  cases s <;> rfl

/-- The fields of a number with all its digits are its sign, its exponent and its mantissa without the first digit. -/
theorem parts?_packComponents {s : Sign} {k m : Nat} (hpos : 0 < k) (hexp : k < 2047)
    (hlo : 2 ^ 52 ≤ m) (hhi : m < 2 ^ 53) :
    parts? (.unpack .binary64 (packComponents .binary64 s (BitVec.ofNat _ k) (BitVec.ofNat _ m))) =
      some ⟨s == .negative, m, k - 1075⟩ := by
  rw [parts?_unpack, ← toNat_unpackExponent, ← toNat_unpackMantissa, ← isNegative_unpackSign, unpackExponent_packComponents,
    unpackMantissa_packComponents, unpackSign_packComponents]
  simp only [BitVec.toNat_ofNat]
  rw [Nat.mod_eq_of_lt (by omega : k < 2 ^ 11), if_neg (by omega), if_neg (by omega)]
  congr 2
  omega

/-- The exponent as it is packed. -/
theorem biased_eq (e : Int) : (e + Format.binary64.exponentBias + (52 : Nat)).toNat = (e + 1075).toNat := by
  simp [Format.exponentBias]
  omega

theorem isWhole_pack {u : UnpackedFloat} (h : IsWhole u) : IsWhole (.unpack .binary64 (u.pack .binary64)) := by
  cases u with
  | finite s m e hm =>
    obtain ⟨hlog, hwhole⟩ := h
    obtain ⟨hlo, hhi⟩ := (Nat.log2_eq_iff hm.ne').1 hlog
    have hexp : (-e).toNat ≤ 52 := by
      rw [← hlog, Nat.le_log2 hm.ne']
      exact Nat.le_of_dvd hm hwhole
    have hmantissa : 52 + 1 = Format.binary64.mantissaBits := rfl
    unfold UnpackedFloat.pack
    simp only [hlog, biased_eq, if_pos hmantissa]
    split
    · exact isWhole_of_exponent unpackExponent_packComponents
    · rename_i hrange
      have hparts := parts?_packComponents (s := s) (k := (e + 1075).toNat) (by omega) (by omega) hlo hhi
      rw [isWhole_unpack_iff]
      intro p hp
      rw [hparts] at hp
      cases hp
      rw [Double.Parts.fraction_eq_zero_iff]
      rwa [show (((e + 1075).toNat : Nat) : Int) - 1075 = e by omega]
  | zero s => cases s <;> trivial
  | infinity s => exact isWhole_of_exponent unpackExponent_packComponents
  | notANumber => exact isWhole_of_exponent unpackExponent_packComponents

/-- What is packed with an exponent of a double is a finite number. -/
theorem isSome_parts?_pack {s : Sign} {m : Nat} {e : Int} {hm : 0 < m} (he : e ≤ 971) :
    (parts? (.unpack .binary64 ((UnpackedFloat.finite s m e hm).pack .binary64))).isSome = true := by
  unfold UnpackedFloat.pack
  simp only [biased_eq]
  rw [if_neg (by omega)]
  split
  · refine isSome_parts?_packComponents ?_
    rw [BitVec.toNat_ofNat, Nat.mod_eq_of_lt (by omega)]
    omega
  · exact isSome_parts?_packComponents (by simp)

end Unpacked

end Rowwise
