import Rowwise.Function.Strict
import Rowwise.Proofs.Numbers.Packing

/-!
# Rowwise.Proofs.Numbers.Comparison — the order of doubles

The three ways to compare two doubles, by `<`, by `==` and by `compareNumbers`, all read one order of unpacked numbers.  It
leaves out NaN alone (`Unpacked.compare_eq_none_iff`), and turns around when its sides are exchanged
(`Unpacked.compare_swap`).  Zeros with different signs are equal in it.
-/

namespace Rowwise

open Float.Model Float.Model.UnpackedFloat

namespace Unpacked

/-- The order of finite numbers of one sign turns around with its sides. -/
theorem then_compare_swap (e e' : Int) (m m' : Nat) :
    ((compare e e').then (compare m m')).swap = (compare e' e).then (compare m' m) := by
  rw [Ordering.swap_then, Int.compare_swap, Nat.compare_swap]

theorem compare_swap (u v : UnpackedFloat) : v.compare u = (u.compare v).map Ordering.swap := by
  cases u with
  | notANumber => cases v <;> rfl
  | infinity s =>
    cases v with
    | notANumber => cases s <;> rfl
    | infinity s' | zero s' => cases s <;> cases s' <;> rfl
    | finite s' m' e' hm' => cases s <;> cases s' <;> rfl
  | zero s =>
    cases v with
    | notANumber => rfl
    | infinity s' => cases s' <;> rfl
    | zero s' => rfl
    | finite s' m' e' hm' => cases s' <;> rfl
  | finite s m e hm =>
    cases v with
    | notANumber => cases s <;> rfl
    | infinity s' => cases s <;> cases s' <;> rfl
    | zero s' => cases s <;> rfl
    | finite s' m' e' hm' =>
      cases s <;> cases s'
      · exact congrArg (fun o => some (Ordering.swap o)) (then_compare_swap e e' m m').symm
      · rfl
      · rfl
      · exact congrArg some (then_compare_swap e e' m m').symm

theorem compare_self {u : UnpackedFloat} (h : u ≠ .notANumber) : u.compare u = some .eq := by
  cases u with
  | notANumber => exact absurd rfl h
  | infinity s => cases s <;> rfl
  | zero s => rfl
  | finite s m e hm =>
    have hself : (compare e e).then (compare m m) = .eq := by
      rw [Std.ReflOrd.compare_self, Std.ReflOrd.compare_self]
      rfl
    cases s
    · exact congrArg (fun o => some (Ordering.swap o)) hself
    · exact congrArg some hself

/-- Only NaN has no place in the order. -/
theorem compare_eq_none_iff {u v : UnpackedFloat} : u.compare v = none ↔ u = .notANumber ∨ v = .notANumber := by
  cases u with
  | notANumber => exact iff_of_true rfl (Or.inl rfl)
  | infinity s | finite s m e hm =>
    cases v with
    | notANumber => cases s <;> exact iff_of_true rfl (Or.inr rfl)
    | infinity s' | zero s' | finite s' m' e' hm' =>
      cases s <;> cases s' <;> exact iff_of_false nofun (by rintro (h | h) <;> cases h)
  | zero s =>
    cases v with
    | notANumber => exact iff_of_true rfl (Or.inr rfl)
    | infinity s' | zero s' | finite s' m' e' hm' =>
      cases s' <;> exact iff_of_false nofun (by rintro (h | h) <;> cases h)

theorem unpack_eq_notANumber_iff {b : BitVec 64} :
    UnpackedFloat.unpack .binary64 b = .notANumber ↔ b.toNat / 2 ^ 52 % 2048 = 2047 ∧ b.toNat % 2 ^ 52 ≠ 0 := by
  by_cases hexp : b.toNat / 2 ^ 52 % 2048 = 2047
  · have hfull : @unpackExponent .binary64 b = -1#11 := (eq_neg_one_iff _).2 ((toNat_unpackExponent b).trans hexp)
    rw [← toNat_unpackMantissa, Ne, ← eq_zero_iff]
    unfold UnpackedFloat.unpack
    dsimp only
    rw [if_pos hfull]
    by_cases hmantissa : @unpackMantissa .binary64 b = 0#52
    · rw [if_pos hmantissa]
      exact iff_of_false (fun h => by cases h) fun h => h.2 hmantissa
    · rw [if_neg hmantissa]
      exact iff_of_true rfl ⟨hexp, hmantissa⟩
  -- with any other exponent there are parts
  · refine iff_of_false (fun h => ?_) fun h => hexp h.1
    have hparts := parts?_unpack b
    rw [h, if_neg hexp] at hparts
    by_cases hzero : b.toNat / 2 ^ 52 % 2048 = 0
    · rw [if_pos hzero] at hparts
      cases hparts
    · rw [if_neg hzero] at hparts
      cases hparts

end Unpacked

namespace Double

variable {x y : Float}

theorem isMissing_iff : isMissing x = true ↔ x.toModel.unpack = .notANumber := by
  show _ ↔ UnpackedFloat.unpack .binary64 x.toBits.toBitVec = _
  rw [Unpacked.unpack_eq_notANumber_iff, isMissing, Bool.and_eq_true, beq_iff_eq, bne_iff_ne]
  rfl

theorem lt_iff : x < y ↔ x.toModel.unpack.compare y.toModel.unpack = some .lt := by
  show decide (x.toModel < y.toModel) = true ↔ _
  rw [decide_eq_true_iff]
  exact beq_iff_eq

theorem beq_eq : (x == y) = (x.toModel.unpack.compare y.toModel.unpack == some .eq) := rfl

theorem beq_comm (x y : Float) : (x == y) = (y == x) := by
  rw [beq_eq, beq_eq, Unpacked.compare_swap x.toModel.unpack]
  cases x.toModel.unpack.compare y.toModel.unpack with
  | none => rfl
  | some o => cases o <;> rfl

/-- Numbers that are not missing have one place in the order. -/
theorem compare_unpack (hx : isMissing x = false) (hy : isMissing y = false) :
    x.toModel.unpack.compare y.toModel.unpack = some (compareNumbers x y) := by
  cases hcompare : x.toModel.unpack.compare y.toModel.unpack with
  | none =>
    rcases Unpacked.compare_eq_none_iff.1 hcompare with h | h
    · rw [isMissing_iff.2 h] at hx
      cases hx
    · rw [isMissing_iff.2 h] at hy
      cases hy
  | some o =>
    have hswap : y.toModel.unpack.compare x.toModel.unpack = some o.swap := by
      rw [Unpacked.compare_swap, hcompare]
      rfl
    unfold compareNumbers
    simp only [lt_iff, hcompare, hswap]
    cases o <;> rfl

theorem compareNumbers_swap (hx : isMissing x = false) (hy : isMissing y = false) :
    compareNumbers y x = (compareNumbers x y).swap := by
  have hswap := Unpacked.compare_swap x.toModel.unpack y.toModel.unpack
  rw [compare_unpack hx hy, compare_unpack hy hx] at hswap
  exact Option.some.inj hswap

theorem beq_eq_compareNumbers (hx : isMissing x = false) (hy : isMissing y = false) :
    (x == y) = (compareNumbers x y == .eq) := by
  rw [beq_eq, compare_unpack hx hy]
  rfl

theorem beq_self (hx : isMissing x = false) : (x == x) = true := by
  have hnumber : x.toModel.unpack ≠ .notANumber := by
    intro h
    rw [isMissing_iff.2 h] at hx
    cases hx
  rw [beq_eq, Unpacked.compare_self hnumber]
  rfl

end Double

end Rowwise
