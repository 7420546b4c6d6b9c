import Rowwise.Calendar.Unit
import Rowwise.Function.Number
import Rowwise.Proofs.Numbers.Whole

/-!
# Rowwise.Proofs.Numbers.Integers — integers as doubles

A double has 53 binary digits, so every integer of no more of them is a double.  Its digits are moved to the front
(`Unpacked.ofInt_exact`) and come out of the bits as they were put in (`Unpacked.unpack_pack`); so the double of such an integer
has no fraction and is this integer again (`Double.parts?_ofInt`).  A field takes the doubles that are integers of its range
(`fieldValue_eq_ok_iff`), and a whole number is read from those that are integers up to 2 ^ 63 (`wholeNumber_eq_ok_iff`).
-/

namespace Rowwise

open Float.Model Float.Model.UnpackedFloat

namespace Unpacked

/-! ### Digits -/

theorem eq_finite_of_parts? {u : UnpackedFloat} {s : Sign} {m : Nat} {e : Int} (hm : 0 < m)
    (h : parts? u = some ⟨s == .negative, m, e⟩) : u = .finite s m e hm := by
  cases u with
  | finite s' m' e' hm' =>
    obtain ⟨hs, rfl, rfl⟩ := Double.Parts.mk.inj (Option.some_inj.1 h)
    cases s <;> cases s' <;> first | rfl | cases hs
  | zero s' =>
    obtain ⟨-, rfl, -⟩ := Double.Parts.mk.inj (Option.some_inj.1 h)
    exact absurd hm (Nat.lt_irrefl 0)
  | infinity s' => cases h
  | notANumber => cases h

/-- A number with all its digits is put into bits as it is. -/
theorem unpack_pack {s : Sign} {m : Nat} {e : Int} (hm : 0 < m) (hlog : m.log2 = 52) (he : -1074 ≤ e) (he' : e ≤ 971) :
    UnpackedFloat.unpack .binary64 ((UnpackedFloat.finite s m e hm).pack .binary64) = .finite s m e hm := by
  obtain ⟨hlo, hhi⟩ := (Nat.log2_eq_iff hm.ne').1 hlog
  have hmantissa : 52 + 1 = Format.binary64.mantissaBits := rfl
  have hparts := parts?_packComponents (s := s) (k := (e + 1075).toNat) (by omega) (by omega) hlo hhi
  rw [show (((e + 1075).toNat : Nat) : Int) - 1075 = e by omega] at hparts
  refine eq_finite_of_parts? hm ?_
  unfold UnpackedFloat.pack
  simp only [hlog, biased_eq, if_pos hmantissa]
  rw [if_neg (by omega)]
  exact hparts

/-- The places by which the digits of a number are moved to the front. -/
def lead (n : Nat) : Nat := 52 - n.log2

section Small

variable {n : Nat} (hpos : 0 < n) (hn : n < 2 ^ 53)

include hpos hn

theorem log2_lead : (n * 2 ^ lead n).log2 = 52 := by
  have := (Nat.log2_lt hpos.ne').2 hn
  rw [log2_mul_two_pow hpos.ne']
  unfold lead
  omega

theorem unpack_pack_lead (s : Sign) : UnpackedFloat.unpack .binary64
    ((UnpackedFloat.finite s (n * 2 ^ lead n) (-(lead n : Int)) (Nat.mul_pos hpos (Nat.two_pow_pos _))).pack .binary64) =
      .finite s (n * 2 ^ lead n) (-(lead n : Int)) (Nat.mul_pos hpos (Nat.two_pow_pos _)) :=
  unpack_pack _ (log2_lead hpos hn) (by unfold lead; omega) (by unfold lead; omega)

/-- A natural number of no more digits than a double has is not rounded. -/
theorem ofInt_exact : UnpackedFloat.ofInt .binary64 n =
    .finite .positive (n * 2 ^ lead n) (-(lead n : Int)) (Nat.mul_pos hpos (Nat.two_pow_pos _)) := by
  have hlog := log2_lead hpos hn
  have htarget : (-max ((n.log2 : Int) + 0 - 52) (-1074)).toNat = lead n := by
    unfold lead
    omega
  have hround : roundWithAccuracy .binary64 .positive (n * 2 ^ lead n * 2 ^ 0) (-(lead n : Int) - (0 : Nat)) .exact =
      .finite .positive (n * 2 ^ lead n) (-(lead n : Int)) (Nat.mul_pos hpos (Nat.two_pow_pos _)) :=
    round_canonical _ ((Nat.log2_lt (Nat.mul_pos hpos (Nat.two_pow_pos _)).ne').1 (by omega)) (by unfold lead; omega)
      (Or.inl hlog)
  rw [Nat.pow_zero, Nat.mul_one, Int.natCast_zero, Int.sub_zero] at hround
  have hcompare : compare (n : Int) 0 = .gt := Int.compare_eq_gt.2 (by omega)
  have hmoved : decreaseExponent n 0 (Format.binary64.targetExponent (totalExponent n 0)) =
      (n * 2 ^ lead n, -(lead n : Int)) := by
    unfold decreaseExponent
    rw [target_eq]
    simp only [Nat.shiftLeft_eq, Int.zero_sub, htarget]
  have hsteps : UnpackedFloat.round .binary64 .positive n 0 =
      let moved := decreaseExponent n 0 (Format.binary64.targetExponent (totalExponent n 0))
      roundWithAccuracy .binary64 .positive moved.1 moved.2 .exact := rfl
  unfold UnpackedFloat.ofInt UnpackedFloat.normalize
  rw [hcompare]
  show UnpackedFloat.round .binary64 .positive n 0 = _
  rw [hsteps, hmoved]
  exact hround

end Small

end Unpacked

namespace Double

/-! ### Integers of 53 digits -/

theorem unpack_ofScientific {n : Nat} (hpos : 0 < n) (hn : n < 2 ^ 53) :
    (Float.ofScientific n false 0).toModel.unpack =
      .finite .positive (n * 2 ^ Unpacked.lead n) (-(Unpacked.lead n : Int)) (Nat.mul_pos hpos (Nat.two_pow_pos _)) := by
  have hkeep := Unpacked.unpack_pack_lead hpos hn .positive
  have hone : (Float.ofBits 0x3FF0000000000000).toModel.unpack = .finite .positive (2 ^ 52) (-52) (by decide) := rfl
  have hword : n.toUInt64.toFloat.toModel.unpack =
      UnpackedFloat.unpack .binary64 ((UnpackedFloat.ofInt .binary64 (n.toUInt64.toNat : Int)).pack .binary64) := rfl
  have hnat : n.toUInt64.toNat = n := Nat.mod_eq_of_lt (by omega)
  rw [hnat, Unpacked.ofInt_exact hpos hn, hkeep] at hword
  have hmul : (n.toUInt64.toFloat * Float.ofBits 0x3FF0000000000000).toModel.unpack =
      UnpackedFloat.unpack .binary64 ((UnpackedFloat.mul .binary64 n.toUInt64.toFloat.toModel.unpack
        (Float.ofBits 0x3FF0000000000000).toModel.unpack).pack .binary64) := rfl
  have hbelow : n * 2 ^ Unpacked.lead n < 2 ^ 53 :=
    (Nat.log2_lt (Nat.mul_pos hpos (Nat.two_pow_pos _)).ne').1 (by rw [Unpacked.log2_lead hpos hn]; decide)
  have hround := Unpacked.round_canonical (s := .positive) (k := 52) (Nat.mul_pos hpos (Nat.two_pow_pos _)) hbelow
    (by unfold Unpacked.lead; omega : -1074 ≤ -(Unpacked.lead n : Int)) (Or.inl (Unpacked.log2_lead hpos hn))
  rw [hword, hone, Unpacked.mul_finite] at hmul
  unfold Float.ofScientific
  rw [dif_pos ⟨hn, by decide⟩]
  refine hmul.trans (Eq.trans ?_ hkeep)
  exact congrArg (fun u => UnpackedFloat.unpack .binary64 (UnpackedFloat.pack .binary64 u)) hround

theorem Parts.toInt_lead (negative : Bool) (n : Nat) :
    (⟨negative, n * 2 ^ Unpacked.lead n, -(Unpacked.lead n : Int)⟩ : Parts).toInt = if negative then -(n : Int) else n := by
  have hwhole : (⟨negative, n * 2 ^ Unpacked.lead n, -(Unpacked.lead n : Int)⟩ : Parts).whole = n := by
    unfold Parts.whole
    simp only [twoTo_eq, Int.neg_neg, Int.toNat_natCast]
    split
    · rename_i hzero
      rw [show Unpacked.lead n = 0 by omega]
      simp
    · exact Nat.mul_div_cancel _ (Nat.two_pow_pos _)
  rw [Parts.toInt, hwhole]

/-- Integers of up to 53 binary digits are doubles. -/
theorem parts?_ofInt {n : Int} (hn : n.natAbs < 2 ^ 53) : ∃ p, parts? (ofInt n) = some p ∧ p.fraction = 0 ∧ p.toInt = n := by
  have hfraction : ∀ p, parts? (ofInt n) = some p → p.fraction = 0 := isIntegral_ofInt n
  suffices h : ∃ p, parts? (ofInt n) = some p ∧ p.toInt = n by
    obtain ⟨p, hp, hvalue⟩ := h
    exact ⟨p, hp, hfraction p hp, hvalue⟩
  cases n with
  | ofNat n =>
    cases n with
    | zero => exact ⟨⟨false, 0, -1074⟩, by decide +kernel, by decide +kernel⟩
    | succ n =>
      refine ⟨_, ?_, Parts.toInt_lead false (n + 1)⟩
      show parts? (Float.ofScientific (n + 1) false 0) = _
      rw [parts?_eq, unpack_ofScientific (Nat.succ_pos n) hn]
      rfl
  | negSucc n =>
    refine ⟨_, ?_, Parts.toInt_lead true (n + 1)⟩
    have hneg : (-Float.ofScientific (n + 1) false 0).toModel.unpack = UnpackedFloat.unpack .binary64
        ((Float.ofScientific (n + 1) false 0).toModel.unpack.neg.pack .binary64) := rfl
    show parts? (-Float.ofScientific (n + 1) false 0) = _
    rw [unpack_ofScientific (Nat.succ_pos n) hn] at hneg
    rw [parts?_eq, hneg.trans (Unpacked.unpack_pack_lead (Nat.succ_pos n) hn .negative)]
    rfl

/-- The double is this integer. -/
def IsInt (x : Float) (n : Int) : Prop := isWhole x = true ∧ toInt? x = some n

instance (x : Float) (n : Int) : Decidable (IsInt x n) := inferInstanceAs (Decidable (_ ∧ _))

variable {x : Float} {n : Int}

theorem isInt_iff : IsInt x n ↔ ∃ p, parts? x = some p ∧ p.fraction = 0 ∧ p.toInt = n := by
  unfold IsInt isWhole toInt?
  cases parts? x with
  | none => simp
  | some p => simp

/-- Next to the integers of 53 binary digits there is one more double, which ends in zeros. -/
theorem isInt_ofInt (hn : n.natAbs ≤ 2 ^ 53) : IsInt (ofInt n) n := by
  rcases Nat.lt_or_eq_of_le hn with hless | hlast
  · exact isInt_iff.2 (parts?_ofInt hless)
  · rcases Int.natAbs_eq n with hpositive | hnegative
    · rw [hpositive, hlast]
      decide +kernel
    · rw [hnegative, hlast]
      decide +kernel

theorem isMissing_of_toInt? (h : toInt? x = some n) : isMissing x = false := by
  obtain ⟨p, hp, -⟩ := Option.map_eq_some_iff.1 h
  have hfield : exponentField x ≠ 2047 := by
    intro hfield
    rw [parts?, if_pos hfield] at hp
    cases hp
  rw [isMissing, beq_false_of_ne hfield, Bool.false_and]

theorem IsInt.isMissing (h : IsInt x n) : Double.isMissing x = false := isMissing_of_toInt? h.2

end Double

variable {unit : DateUnit} {lo hi n : Int} {v : Float}

/-- A field takes the integers of its range. -/
theorem fieldValue_eq_ok_iff : fieldValue unit lo hi v = .ok n ↔ Double.IsInt v n ∧ lo ≤ n ∧ n ≤ hi := by
  rw [Double.isInt_iff]
  unfold fieldValue
  cases Double.parts? v with
  | none => simp
  | some p =>
    simp only [Option.some_inj, exists_eq_left']
    split
    · rename_i h
      rw [Except.ok.injEq]
      constructor
      · rintro rfl
        exact ⟨⟨h.1, rfl⟩, h.2⟩
      · exact fun hn => hn.1.2
    · rename_i h
      refine iff_of_false nofun ?_
      rintro ⟨⟨hfraction, rfl⟩, hrange⟩
      exact h ⟨hfraction, hrange⟩

/-- The double of an integer is a number that a field takes if it is in the field's range. -/
theorem fieldValue_ofInt (unit : DateUnit) (hn : n.natAbs < 2 ^ 53) (hlo : lo ≤ n) (hhi : n ≤ hi) :
    fieldValue unit lo hi (Double.ofInt n) = .ok n :=
  fieldValue_eq_ok_iff.2 ⟨Double.isInt_ofInt (Nat.le_of_lt hn), hlo, hhi⟩

/-- The integers up to 2 ^ 63 are read as whole numbers, the last of them as the one before it. -/
theorem wholeNumber_eq_ok_iff {what : String} :
    wholeNumber what v = .ok n ↔ ∃ k : Int, Double.IsInt v k ∧ k.natAbs ≤ 2 ^ 63 ∧ min k (2 ^ 63 - 1) = n := by
  have hclamp : ∀ k : Int, k.natAbs ≤ 2 ^ 63 →
      Double.clamp Double.minInt64 Double.maxInt64 k = min k (2 ^ 63 - 1) := by
    intro k hk
    unfold Double.clamp Double.minInt64 Double.maxInt64
    rw [twoTo_eq]
    omega
  simp only [Double.isInt_iff]
  unfold wholeNumber
  cases Double.parts? v with
  | none => simp
  | some p =>
    simp only [Option.some_inj, exists_eq_left']
    split
    · rename_i h
      rw [Except.ok.injEq, hclamp p.toInt h.2]
      constructor
      · exact fun hn => ⟨p.toInt, ⟨h.1, rfl⟩, h.2, hn⟩
      · rintro ⟨k, ⟨-, rfl⟩, -, hn⟩
        exact hn
    · rename_i h
      refine iff_of_false nofun ?_
      rintro ⟨k, ⟨hfraction, rfl⟩, hrange, -⟩
      exact h ⟨hfraction, hrange⟩

end Rowwise
