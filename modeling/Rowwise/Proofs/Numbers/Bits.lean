import Mathlib.Data.Int.Bitwise
import Rowwise.Proofs.Numbers.Arithmetic

/-!
# Rowwise.Proofs.Numbers.Bits — functions of bits on whole numbers

A double that is an integer of 64 bits is read as this integer, and other doubles are refused, with 2 ^ 63 as the one exception
(`wholeNumber_eq_ok_iff_isInt64`).  On integers `Int.land` and its siblings act on the places of two's complement, which have no
end; the functions of bits do the same in 64 places and round the result to a double (`NumberFunction.bits_of_integers`).
-/

namespace Rowwise

open Double (IsValue IsNearest Fits)

/-! ### Reading integers -/

/-- The double is this integer, which has no more than 64 bits. -/
structure IsInt64 (x : Float) (n : ℤ) : Prop where
  value : IsValue x n
  lower : -2 ^ 63 ≤ n
  upper : n < 2 ^ 63

variable {x y : Float} {m n : ℤ} {w : Nat}

theorem IsInt64.wholeNumber (h : IsInt64 x n) (what : String) : wholeNumber what x = .ok n := by
  have hlower := h.lower
  have hupper := h.upper
  exact wholeNumber_eq_ok_iff.2 ⟨n, Double.isInt_iff_isValue.2 h.value, by omega, by omega⟩

/-- Only 2 ^ 63 is accepted without being an integer of 64 bits. -/
theorem wholeNumber_eq_ok_iff_isInt64 (what : String) (hx : ¬IsValue x (2 ^ 63)) :
    wholeNumber what x = .ok n ↔ IsInt64 x n := by
  refine ⟨fun h => ?_, fun h => h.wholeNumber what⟩
  obtain ⟨k, hk, hrange, hread⟩ := wholeNumber_eq_ok_iff.1 h
  have hvalue := Double.isInt_iff_isValue.1 hk
  have hne : k ≠ 2 ^ 63 := fun heq => hx (by rw [heq] at hvalue; exact_mod_cast hvalue)
  obtain rfl : k = n := by omega
  exact ⟨hvalue, by omega, by omega⟩

/-! ### Two's complement -/

/-- Integers are determined by their bits. -/
theorem eq_of_testBit_eq (h : ∀ i, m.testBit i = n.testBit i) : m = n := by
  have hhigh : ∀ a b : Nat, (Int.ofNat a).testBit (a + b) ≠ (Int.negSucc b).testBit (a + b) := by
    intro a b
    have ha : a.testBit (a + b) = false :=
      Nat.testBit_lt_two_pow (Nat.lt_of_lt_of_le Nat.lt_two_pow_self (Nat.pow_le_pow_right (by decide) (by omega)))
    have hb : b.testBit (a + b) = false :=
      Nat.testBit_lt_two_pow (Nat.lt_of_lt_of_le Nat.lt_two_pow_self (Nat.pow_le_pow_right (by decide) (by omega)))
    simp [Int.testBit, ha, hb]
  cases m with
  | ofNat a =>
    cases n with
    | ofNat b => exact congrArg Int.ofNat (Nat.eq_of_testBit_eq h)
    | negSucc b => exact absurd (h (a + b)) (hhigh a b)
  | negSucc a =>
    cases n with
    | ofNat b => exact absurd (h (b + a)).symm (hhigh b a)
    | negSucc b => exact congrArg Int.negSucc (Nat.eq_of_testBit_eq fun i => Bool.not_inj (h i))

/-- The sign bit goes on without end. -/
theorem testBit_toInt (b : BitVec w) (i : Nat) : b.toInt.testBit i = if i < w then b.getLsbD i else b.msb := by
  rw [BitVec.toInt_eq_msb_cond]
  cases hsign : b.msb with
  | false =>
    rw [if_neg Bool.false_ne_true]
    show b.toNat.testBit i = _
    rw [BitVec.testBit_toNat]
    split
    · rfl
    · exact BitVec.getLsbD_of_ge b i (by omega)
  | true =>
    have hlt := b.isLt
    have hneg : (b.toNat : ℤ) - (2 ^ w : Nat) = Int.negSucc (2 ^ w - (b.toNat + 1)) := by
      rw [Int.negSucc_eq]
      omega
    rw [if_pos rfl, hneg]
    show (!(2 ^ w - (b.toNat + 1)).testBit i) = _
    rw [Nat.testBit_two_pow_sub_succ hlt, BitVec.testBit_toNat]
    split <;> simp [*]

theorem land_comm (m n : ℤ) : Int.land m n = Int.land n m :=
  eq_of_testBit_eq fun i => by rw [Int.testBit_land, Int.testBit_land, Bool.and_comm]

/-- Of a power of two, another number keeps all or nothing. -/
theorem land_two_pow (w : Nat) (n : ℤ) : Int.land (2 ^ w) n = if n.testBit w then 2 ^ w else 0 := by
  have hpower : ∀ i, (2 ^ w : ℤ).testBit i = decide (w = i) := fun i => Nat.testBit_two_pow
  have hzero : ∀ i, (0 : ℤ).testBit i = false := Nat.zero_testBit
  refine eq_of_testBit_eq fun i => ?_
  rw [Int.testBit_land, hpower]
  by_cases hi : w = i
  · subst hi
    cases hbit : n.testBit w <;> simp [hpower, hzero]
  · cases hbit : n.testBit w <;> simp [hpower, hzero, hi]

section Places

variable {f : BitVec w → BitVec w → BitVec w} {g : ℤ → ℤ → ℤ} {a b : BitVec w}

/-- What acts on each place alone does the same to words and to integers. -/
theorem toInt_bitwise (op : Bool → Bool → Bool) (hword : ∀ i, (f a b).getLsbD i = op (a.getLsbD i) (b.getLsbD i))
    (hsign : (f a b).msb = op a.msb b.msb) (hint : ∀ m n i, (g m n).testBit i = op (m.testBit i) (n.testBit i)) :
    (f a b).toInt = g a.toInt b.toInt := by
  refine eq_of_testBit_eq fun i => ?_
  rw [hint, testBit_toInt, testBit_toInt, testBit_toInt]
  split
  · exact hword i
  · exact hsign

theorem toInt_not_eq (hw : 0 < w) (a : BitVec w) : (~~~a).toInt = Int.lnot a.toInt := by
  refine eq_of_testBit_eq fun i => ?_
  rw [Int.testBit_lnot, testBit_toInt, testBit_toInt]
  split
  · rename_i hi
    simp [hi]
  · simp [hw]

end Places

/-- An integer of 64 bits is the one that its word stands for. -/
theorem toInt_bitsOf (h : IsInt64 x n) : (bitsOf n).toInt = n :=
  BitVec.toInt_ofInt_eq_self (by decide) h.lower h.upper

/-! ### Rounding the result -/

/-- The double is the nearest one to the integer, and the integer itself if that is a double. -/
def Represents (x : Float) (n : ℤ) : Prop := (∃ d, IsValue x d ∧ IsNearest n d) ∧ (Fits n → IsValue x n)

theorem nearest_ofInt (hn : |(n : ℚ)| < Double.Parts.bound) : ∃ d, IsValue (Double.ofInt n) d ∧ IsNearest n d := by
  cases n with
  | ofNat a =>
    have ha : (a : ℚ) < Double.Parts.bound := by simpa using hn
    exact Double.nearest_ofScientific ha
  | negSucc a =>
    have ha : ((a + 1 : Nat) : ℚ) < Double.Parts.bound := by
      rw [Int.cast_negSucc, abs_neg, Nat.abs_cast] at hn
      exact hn
    obtain ⟨d, hd, hnear⟩ := Double.nearest_ofScientific ha
    refine ⟨-d, Double.isValue_neg hd, ?_⟩
    rw [Int.cast_negSucc]
    exact hnear.neg

theorem represents_toInt (b : BitVec 64) : Represents (Double.ofInt b.toInt) b.toInt := by
  have hupper : b.toInt < 2 ^ 63 := BitVec.toInt_lt
  have hlower : -2 ^ 63 ≤ b.toInt := b.le_toInt
  have hbound : |(b.toInt : ℚ)| < Double.Parts.bound := by
    rw [← Int.cast_abs, Int.abs_eq_natAbs, Int.cast_natCast, ← Nat.abs_cast]
    exact Double.natCast_abs_lt_bound (by omega)
  have hnear := nearest_ofInt hbound
  exact ⟨hnear, fun hfits => .of_nearest hnear hfits⟩

/-! ### The functions -/

namespace NumberFunction

/-- What the functions of the bits of two numbers are on integers. -/
def onIntegers? : NumberFunction → Option (ℤ → ℤ → ℤ)
  | bitOr => some Int.lor
  | bitAnd => some Int.land
  | bitXor => some Int.xor
  | _ => none

variable {f : NumberFunction} {g : ℤ → ℤ → ℤ}

/-- Each function of bits acts on words of any width as on integers. -/
theorem exists_onWords (h : f.onIntegers? = some g) : ∃ k : ∀ w, BitVec w → BitVec w → BitVec w,
    (∀ x y, f.run [x, y] = onBits (k 64) x y) ∧ ∀ w a b, (k w a b).toInt = g a.toInt b.toInt := by
  cases f with
  | bitOr =>
    obtain rfl := Option.some.inj h
    exact ⟨fun _ a b => a ||| b, fun _ _ => rfl,
      fun _ _ _ => toInt_bitwise or (fun _ => BitVec.getLsbD_or) BitVec.msb_or Int.testBit_lor⟩
  | bitAnd =>
    obtain rfl := Option.some.inj h
    exact ⟨fun _ a b => a &&& b, fun _ _ => rfl,
      fun _ _ _ => toInt_bitwise and (fun _ => BitVec.getLsbD_and) BitVec.msb_and Int.testBit_land⟩
  | bitXor =>
    obtain rfl := Option.some.inj h
    exact ⟨fun _ a b => a ^^^ b, fun _ _ => rfl,
      fun _ _ _ => toInt_bitwise xor (fun _ => BitVec.getLsbD_xor) BitVec.msb_xor Int.testBit_lxor⟩
  | _ => cases h

theorem run_onIntegers (h : f.onIntegers? = some g) (hx : IsInt64 x m) (hy : IsInt64 y n) :
    ∃ z, f.run [x, y] = .ok z ∧ Represents z (g m n) := by
  obtain ⟨k, hrun, hk⟩ := exists_onWords h
  have hmissing : (Double.isMissing x || Double.isMissing y) = false := by
    rw [(Double.isInt_iff_isValue.2 hx.value).isMissing, (Double.isInt_iff_isValue.2 hy.value).isMissing, Bool.or_self]
  have hresult := represents_toInt (k 64 (bitsOf m) (bitsOf n))
  refine ⟨Double.ofInt (k 64 (bitsOf m) (bitsOf n)).toInt, ?_, ?_⟩
  · rw [hrun, onBits, hmissing, hx.wholeNumber, hy.wholeNumber]
    rfl
  · rwa [hk, toInt_bitsOf hx, toInt_bitsOf hy] at hresult ⊢

theorem run_bitNot (hx : IsInt64 x m) : ∃ z, bitNot.run [x] = .ok z ∧ Represents z (Int.lnot m) := by
  have hresult := represents_toInt (~~~bitsOf m)
  refine ⟨Double.ofInt (~~~bitsOf m).toInt, ?_, ?_⟩
  · rw [run, (Double.isInt_iff_isValue.2 hx.value).isMissing, hx.wholeNumber]
    rfl
  · rwa [toInt_not_eq (by decide), toInt_bitsOf hx] at hresult ⊢

/-- Integers of 54 bits are doubles. -/
theorem fits_onIntegers (h : f.onIntegers? = some g) (hm : -2 ^ 53 ≤ m) (hm' : m < 2 ^ 53) (hn : -2 ^ 53 ≤ n)
    (hn' : n < 2 ^ 53) : Fits (g m n) := by
  obtain ⟨k, -, hk⟩ := exists_onWords h
  have hleft : (BitVec.ofInt 54 m).toInt = m := BitVec.toInt_ofInt_eq_self (by decide) hm hm'
  have hright : (BitVec.ofInt 54 n).toInt = n := BitVec.toInt_ofInt_eq_self (by decide) hn hn'
  have hvalue := hk 54 (.ofInt 54 m) (.ofInt 54 n)
  rw [hleft, hright] at hvalue
  have hupper : g m n < 2 ^ 53 := hvalue ▸ BitVec.toInt_lt
  have hlower : -2 ^ 53 ≤ g m n := hvalue ▸ BitVec.le_toInt _
  exact Double.fits_intCast (abs_le.2 ⟨hlower, hupper.le⟩)

theorem fits_land (hm : |m| ≤ 2 ^ 53) (hn : |n| ≤ 2 ^ 53) : Fits (Int.land m n) := by
  have hpower : ∀ k, Fits (Int.land (2 ^ 53) k) := by
    intro k
    rw [land_two_pow]
    split
    · exact Double.fits_intCast (n := 2 ^ 53) (by decide)
    · exact Double.fits_intCast (n := 0) (by decide)
  rw [abs_le] at hm hn
  by_cases hmlast : m = 2 ^ 53
  · exact hmlast ▸ hpower n
  · by_cases hnlast : n = 2 ^ 53
    · exact land_comm n m ▸ hnlast ▸ hpower m
    · exact fits_onIntegers (f := bitAnd) rfl hm.1 (by omega) hn.1 (by omega)

theorem fits_lnot (hm : |m| ≤ 2 ^ 53) (hne : m ≠ 2 ^ 53) : Fits (Int.lnot m) := by
  rw [abs_le] at hm
  have hnot : Int.lnot m = -m - 1 := by
    cases m with
    | ofNat a =>
      show Int.negSucc a = -(a : ℤ) - 1
      omega
    | negSucc a =>
      show (a : ℤ) = -Int.negSucc a - 1
      omega
  exact Double.fits_intCast (abs_le.2 (by omega))

/-- Every double but 2 ^ 63 is read as the integer of 64 bits that it is, or refused.  The functions of bits do to the bits of
such integers in two's complement what their siblings do to all integers, and yield the double nearest to the result.  Within
2 ^ 53 the result is exact; for 2 ^ 53 itself only the common bits are sure to be a double. -/
theorem bits_of_integers (what : String) (x y : Float) :
    (¬IsValue x (2 ^ 63) → ∀ n, wholeNumber what x = .ok n ↔ IsInt64 x n) ∧
    (∀ f g m n, onIntegers? f = some g → IsInt64 x m → IsInt64 y n → ∃ z, f.run [x, y] = .ok z ∧ Represents z (g m n) ∧
      (|m| ≤ 2 ^ 53 → |n| ≤ 2 ^ 53 → f = bitAnd ∨ m ≠ 2 ^ 53 ∧ n ≠ 2 ^ 53 → IsValue z (g m n))) ∧
    (∀ m, IsInt64 x m → ∃ z, bitNot.run [x] = .ok z ∧ Represents z (Int.lnot m) ∧
      (|m| ≤ 2 ^ 53 → m ≠ 2 ^ 53 → IsValue z (Int.lnot m))) := by
  refine ⟨fun hx n => wholeNumber_eq_ok_iff_isInt64 what hx, fun f g m n h hx hy => ?_, fun m hx => ?_⟩
  · obtain ⟨z, hrun, hresult⟩ := run_onIntegers h hx hy
    refine ⟨z, hrun, hresult, fun hm hn hlast => hresult.2 ?_⟩
    rcases hlast with rfl | ⟨hmlast, hnlast⟩
    · obtain rfl := Option.some.inj h
      exact fits_land hm hn
    · rw [abs_le] at hm hn
      exact fits_onIntegers h hm.1 (by omega) hn.1 (by omega)
  · obtain ⟨z, hrun, hresult⟩ := run_bitNot hx
    exact ⟨z, hrun, hresult, fun hm hne => hresult.2 (fits_lnot hm hne)⟩

/-- The greatest number of 53 bits and a negative one. -/
theorem bits_of_integers_negative : ¬IsValue 9007199254740991 (2 ^ 63) ∧
    IsInt64 9007199254740991 (2 ^ 53 - 1) ∧ IsInt64 (-3) (-3) ∧
    wholeNumber "argument 1" 9007199254740991 = .ok (2 ^ 53 - 1) ∧
    ∃ z, bitXor.run [9007199254740991, -3] = .ok z ∧ IsValue z (-9007199254740990) := by
  have hx : IsInt64 9007199254740991 (2 ^ 53 - 1) :=
    ⟨Double.isInt_iff_isValue.1 (by decide +kernel), by decide, by decide⟩
  have hy : IsInt64 (-3) (-3) := ⟨Double.isInt_iff_isValue.1 (by decide +kernel), by decide, by decide⟩
  have hne : ¬IsValue 9007199254740991 (2 ^ 63) := by
    intro h
    have heq := h.unique hx.value
    norm_num at heq
  obtain ⟨hread, hbits, -⟩ := bits_of_integers "argument 1" 9007199254740991 (-3)
  obtain ⟨z, hrun, -, hexact⟩ := hbits bitXor Int.xor _ _ rfl hx hy
  have hvalue := hexact (by decide) (by decide) (.inr (by decide))
  have hxor : Int.xor (2 ^ 53 - 1) (-3) = -9007199254740990 := by decide +kernel
  exact ⟨hne, hx, hy, (hread hne _).2 hx, z, hrun, by rw [hxor] at hvalue; exact_mod_cast hvalue⟩

/-- The double 2 ^ 63 passes the test of the range, which is made in doubles, and is read as the integer before it.  The bits of
2 ^ 53 and 1 together are no double. -/
theorem bits_changed :
    (IsValue 9223372036854775808 (2 ^ 63) ∧ wholeNumber "argument 1" 9223372036854775808 = .ok (2 ^ 63 - 1) ∧
      bitAnd.run [9223372036854775808, 1] = .ok 1) ∧
    (IsValue 9007199254740992 (2 ^ 53) ∧ Int.lor (2 ^ 53) 1 = 2 ^ 53 + 1 ∧
      ∃ z, bitOr.run [9007199254740992, 1] = .ok z ∧ IsValue z (2 ^ 53)) := by
  have hlast : Double.IsInt 9223372036854775808 (2 ^ 63) := by decide +kernel
  have hwide : Double.IsInt 9007199254740992 (2 ^ 53) := by decide +kernel
  have hvalue := Double.isInt_iff_isValue.1 hwide
  refine ⟨⟨?_, by decide +kernel, by decide +kernel⟩, ?_, by decide +kernel, 9007199254740992, by decide +kernel, ?_⟩
  · exact_mod_cast Double.isInt_iff_isValue.1 hlast
  · exact_mod_cast hvalue
  · exact_mod_cast hvalue

end NumberFunction

end Rowwise
