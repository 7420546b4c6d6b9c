import Rowwise.Function.Text
import Rowwise.Proofs.Calendar.ReadingBack
import Rowwise.Proofs.Numbers.Comparison
import Rowwise.Proofs.Numbers.HalfUp
import Rowwise.Proofs.Numbers.Literals
import Rowwise.Proofs.Numbers.Missing
import Rowwise.Proofs.Numbers.Shortest

/-!
# Rowwise.Proofs.Numbers.WholeText — texts of whole numbers are read back

The canonical text of a whole number is its shortest digits, and zeros up to the point.  Digits are read as the double nearest
to the number that they are (`Double.isValue_ofDecimal`), and that is the one they were written for.  The sign of infinity
is read as no number (`Value.integer_read_back`).
-/

namespace Rowwise

open Spelling (Digits)

namespace Double

/-! ### Digits -/

theorem Decimal.value_eq {d : Decimal} (h : 0 ≤ d.exponent) : d.value = (d.digits * 10 ^ d.exponent.toNat : Nat) := by
  unfold Decimal.value
  conv_lhs => rw [← Int.toNat_of_nonneg h, zpow_natCast]
  push_cast
  rfl

/-- A decimal without digits behind the point is written with digits alone. -/
theorem Decimal.digits_positional {d : Decimal} (h : 0 ≤ d.exponent) (hd : d.digits ≠ 0) :
    Digits d.positional ∧ ofDigits d.positional = d.digits * 10 ^ d.exponent.toNat := by
  have hnonempty : digitsOf d.digits ≠ [] := List.ne_nil_of_length_pos Nat.length_toDigits_pos
  unfold Decimal.positional
  rw [if_pos h, if_neg hd]
  refine ⟨⟨by simp [hnonempty], ?_⟩, ?_⟩
  · intro c hc
    rcases List.mem_append.1 hc with hdigit | hzero
    · exact Nat.isDigit_of_mem_toDigits (by decide) (by decide) hdigit
    · rw [List.eq_of_mem_replicate hzero]
      rfl
  · rw [ofDigits_eq, Nat.ofDigitChars_append, Nat.ofDigitChars_replicate_zero, ← ofDigits_eq, ofDigits_digitsOf, Nat.mul_comm]

/-- Numbers below the bound have few digits. -/
theorem length_digitsOf_le_of_lt_bound {n : Nat} (hn : (n : ℚ) < Parts.bound) : (digitsOf n).length ≤ 400 := by
  have hbound : Parts.bound ≤ (2 ^ 256) ^ 4 := by
    have hpower : ((2 : ℚ) ^ 256) ^ 4 = 2 ^ 53 * 2 ^ (971 : ℤ) := by
      rw [← pow_mul, show (971 : ℤ) = (971 : ℕ) from rfl, zpow_natCast, ← pow_add]
    rw [hpower]
    exact mul_le_mul_of_nonneg_right (by norm_num) (two_zpow_pos 971).le
  have hlt : n < (2 ^ 256) ^ 4 := by exact_mod_cast hn.trans_le hbound
  have hten : n < 10 ^ (100 * 4) := by
    rw [Nat.pow_mul]
    exact hlt.trans_le (Nat.pow_le_pow_left (by norm_num) 4)
  exact (length_digitsOf_le (k := 100 * 4) (by decide) hten).trans_eq rfl

namespace Parts

variable {p : Parts}

/-- A whole number has its last digit well above the least place. -/
theorem least_lt_exponent (hfraction : p.fraction = 0) (hpos : 0 < p.mantissa) (hp : p.IsCanonical) : -1074 < p.exponent := by
  have hlead := log2_add_exponent_nonneg hfraction hpos
  have hlog := (Nat.log2_lt hpos.ne').2 hp.mantissa_lt
  omega

/-- Only zero is nearest to zero. -/
theorem digits_ne_zero {d : Decimal} (hpos : 0 < p.mantissa) (h : IsNearest d.value (p.mantissa * 2 ^ p.exponent)) :
    d.digits ≠ 0 := by
  intro hzero
  have hnone : d.value = 0 := by rw [Decimal.value, hzero, Nat.cast_zero, zero_mul]
  have hrounded := (hnone ▸ h).eq_self (fits_intCast (n := 0) (by norm_num))
  exact (mul_pos (by exact_mod_cast hpos) (two_zpow_pos _)).ne' hrounded

end Parts

/-- Digits are read as the nearest double. -/
theorem isValue_ofDecimal {n : Nat} {q : ℚ} (hn : (n : ℚ) < Parts.bound) (h : IsNearest n q) (negative : Bool) :
    IsValue (ofDecimal negative ⟨n, 0⟩) (if negative then -q else q) := by
  have hmagnitude : IsValue (ofDecimal false ⟨n, 0⟩) q := by
    have hlength := length_digitsOf_le_of_lt_bound hn
    obtain ⟨d, hd, hnearest⟩ := nearest_ofScientific hn
    rw [hnearest.unique h] at hd
    unfold ofDecimal
    simp only [Int.add_zero]
    rw [if_neg Bool.false_ne_true]
    split
    · rename_i hzero
      have hzero : n = 0 := by
        simp only [Bool.or_eq_true, decide_eq_true_eq] at hzero
        exact hzero.resolve_right (by omega)
      subst hzero
      exact hd
    · rw [if_neg (by omega)]
      exact hd
  cases negative with
  | false => exact hmagnitude
  | true => exact isValue_neg hmagnitude

/-- Comparing with zero. -/
theorem IsValue.beq_zero_iff {x : Float} {q : ℚ} (h : IsValue x q) : (x == 0) = true ↔ q = 0 := by
  obtain ⟨p, hp, -, rfl⟩ := h.unpack
  have hcompare : (x == 0) = (x.toModel.unpack.compare (.zero .positive) == some .eq) := rfl
  rw [hcompare]
  generalize x.toModel.unpack = u at hp
  cases u with
  | finite s m e hm =>
    cases hp
    refine iff_of_false (fun hequal => by cases s <;> cases hequal) fun hzero => ?_
    have habs := Parts.abs_value ⟨s == .negative, m, e⟩
    rw [hzero, abs_zero] at habs
    exact (mul_pos (by exact_mod_cast hm : (0 : ℚ) < m) (two_zpow_pos e)).ne habs
  | zero s =>
    cases hp
    exact iff_of_true rfl (Unpacked.value_zero _)
  | infinity s => cases hp
  | notANumber => cases hp

end Double

namespace Value

open Double (IsValue IsNearest)

/-! ### Texts -/

variable {x : Float} {n : ℤ}

/-- A text of digits with a sign in front is read as the number of the digits. -/
theorem numberOfText_signed {negative : Bool} {cs : List Char} (hcs : Digits cs) :
    numberOfText (.ofList (if negative then '-' :: cs else cs)) = Double.ofDecimal negative ⟨Double.ofDigits cs, 0⟩ := by
  have hstandard : ∀ c ∈ (if negative then '-' :: cs else cs), Reading.isStandard c = true := by
    have hdigit : ∀ c ∈ cs, Reading.isStandard c = true := fun c hc => by
      rw [Reading.isStandard, hcs.digits c hc, Bool.true_or]
    split
    · exact List.forall_mem_cons.2 ⟨rfl, hdigit⟩
    · exact hdigit
  unfold numberOfText
  rw [String.toList_ofList, Reading.trim_of_isStandard hstandard, Double.read?_digits hcs]
  rfl

/-- The shortest text of a whole number is read as this number. -/
theorem isValue_numberOfText_shortest (h : IsValue x n) (hne : n ≠ 0) : IsValue (numberOfText (Double.shortest x)) n := by
  obtain ⟨p, hp, hfraction, htoInt⟩ := Double.isInt_iff.1 (Double.isInt_iff_isValue.2 h)
  have hvalue : p.value = n := by rw [Double.Parts.value_eq_toInt hfraction, htoInt]
  have hcanonical := Double.canonical_of_parts? hp
  have hpos : 0 < p.mantissa := Double.Parts.mantissa_pos (by rw [hvalue]; exact_mod_cast hne)
  have hexponent := Double.Parts.least_lt_exponent hfraction hpos hcanonical
  obtain ⟨hback, hexp⟩ := Double.Parts.shortest_whole hfraction hpos hcanonical
  have hnearest := Double.Parts.isNearest_of_readsBack hcanonical hexponent hback
  have hbound := Double.Parts.value_lt_bound hcanonical hpos hback
  have hdigits := Double.Parts.digits_ne_zero hpos hnearest
  rw [Double.Decimal.value_eq hexp] at hnearest hbound
  obtain ⟨hspelled, hofDigits⟩ := Double.Decimal.digits_positional hexp hdigits
  have hread : numberOfText (Double.shortest x) = Double.ofDecimal p.negative ⟨Double.ofDigits p.shortest.positional, 0⟩ := by
    unfold Double.shortest Double.signed
    rw [hp]
    exact numberOfText_signed hspelled
  have hresult := Double.isValue_ofDecimal hbound hnearest p.negative
  rw [hread, hofDigits, ← hvalue]
  unfold Double.Parts.value Double.Parts.signed
  cases hnegative : p.negative with
  | true =>
    rw [hnegative, if_pos rfl] at hresult
    rw [if_pos rfl, Int.cast_neg, neg_mul]
    exact hresult
  | false =>
    rw [hnegative, if_neg Bool.false_ne_true] at hresult
    rw [if_neg Bool.false_ne_true]
    exact hresult

/-- The canonical text of a whole number is read as this number. -/
theorem integerText_read_back (h : IsValue x n) : ∃ s, integerText? x = some s ∧ IsValue (numberOfText s) n := by
  obtain ⟨p, hp, -⟩ := id h
  have hmissing := (Double.isInt_iff_isValue.2 h).isMissing
  have hinfinite := Double.isInfinite_of_parts? hp
  unfold integerText?
  rw [hmissing, hinfinite]
  by_cases hzero : (x == 0) = true
  · have hn : n = 0 := by exact_mod_cast h.beq_zero_iff.1 hzero
    refine ⟨"0", by rw [hzero]; rfl, ?_⟩
    rw [hn]
    exact ⟨⟨false, 0, -1074⟩, by decide +kernel, by norm_num [Double.Parts.value, Double.Parts.signed]⟩
  · have hne : n ≠ 0 := fun hn => hzero (h.beq_zero_iff.2 (by exact_mod_cast hn))
    have htrunc := Double.isValue_round .towardZero h
    exact ⟨Double.shortest (Double.trunc x), by rw [Bool.eq_false_iff.2 hzero]; rfl,
      isValue_numberOfText_shortest htrunc hne⟩

/-- The text of an infinite number is its sign, which is read as no number. -/
theorem infinityText_unread (hpresent : Double.isMissing x = false) (h : Double.isFinite x = false) :
    integerText? x = some (infinityText x) ∧ Double.isMissing (numberOfText (infinityText x)) = true := by
  have hinfinite : Double.isInfinite x = true := by
    unfold Double.isFinite at h
    unfold Double.isMissing at hpresent
    unfold Double.isInfinite
    simp_all
  refine ⟨by rw [integerText?, hpresent, hinfinite]; rfl, ?_⟩
  unfold infinityText
  split <;> decide +kernel

/-- Whole numbers are read back from their canonical text, and converted to a text and back as far as rounding leaves them; the
text of an infinite number is read as the missing number. -/
theorem integer_read_back (zone : Zone) (hpresent : Double.isMissing x = false) (hwhole : Double.IsIntegral x) :
    ∃ s y z, TextFunction.text.run [.integer x] = .ok (.text (some s)) ∧
      (integer x).cast zone .text = .ok (.text (some s)) ∧
      TextFunction.parse.run [.text (some s)] = .ok (.double y) ∧
      (text (some s)).cast zone .integer = .ok (.integer z) ∧
      (Double.isFinite x = true → ∃ n : ℤ, IsValue x n ∧ IsValue y n ∧ (¬Double.Skewed n → IsValue z n)) ∧
      (Double.isFinite x = false → s = infinityText x ∧ Double.isMissing y = true ∧ Double.isMissing z = true) := by
  suffices h : ∃ s, integerText? x = some s ∧
      (Double.isFinite x = true → ∃ n : ℤ, IsValue x n ∧ IsValue (numberOfText s) n) ∧
      (Double.isFinite x = false → s = infinityText x ∧ Double.isMissing (numberOfText s) = true) by
    obtain ⟨s, hs, hfinite, hinfinite⟩ := h
    refine ⟨s, numberOfText s, Double.halfUp (numberOfText s), congrArg (Except.ok ∘ Value.text) hs,
      congrArg (Except.ok ∘ Value.text) hs, rfl, rfl, fun h => ?_, fun h => ?_⟩
    · obtain ⟨n, hx, hy⟩ := hfinite h
      refine ⟨n, hx, hy, fun hskewed => ?_⟩
      have hrounded := (Double.isValue_halfUp hy).1 hskewed
      rwa [nearestInteger_intCast] at hrounded
    · obtain ⟨hs, hy⟩ := hinfinite h
      exact ⟨hs, hy, Double.isMissing_halfUp hy⟩
  cases hfinite : Double.isFinite x with
  | true =>
    obtain ⟨p, hp⟩ := Option.isSome_iff_exists.1 (Double.isFinite_iff.1 hfinite)
    have hx : IsValue x p.toInt := ⟨p, hp, Double.Parts.value_eq_toInt (hwhole p hp)⟩
    obtain ⟨s, hs, hread⟩ := integerText_read_back hx
    exact ⟨s, hs, fun _ => ⟨p.toInt, hx, hread⟩, nofun⟩
  | false =>
    obtain ⟨hs, hread⟩ := infinityText_unread hpresent hfinite
    exact ⟨_, hs, nofun, fun _ => ⟨rfl, hread⟩⟩

theorem integer_read_back_hundred : Double.isMissing 100 = false ∧ Double.IsIntegral 100 ∧
    ∃ s y z, TextFunction.text.run [.integer 100] = .ok (.text (some s)) ∧
      (integer 100).cast .utc .text = .ok (.text (some s)) ∧
      TextFunction.parse.run [.text (some s)] = .ok (.double y) ∧
      (text (some s)).cast .utc .integer = .ok (.integer z) ∧
      (Double.isFinite 100 = true → ∃ n : ℤ, IsValue 100 n ∧ IsValue y n ∧ (¬Double.Skewed n → IsValue z n)) ∧
      (Double.isFinite 100 = false → s = infinityText 100 ∧ Double.isMissing y = true ∧ Double.isMissing z = true) :=
  ⟨(Double.isInt_ofInt (n := 100) (by decide)).isMissing, Double.isIntegral_ofInt 100,
    integer_read_back .utc (Double.isInt_ofInt (n := 100) (by decide)).isMissing (Double.isIntegral_ofInt 100)⟩

/-- Infinity is not read back, and an odd number with all its digits is converted to the next number. -/
theorem integer_not_read_back :
    (TextFunction.text.run [.integer (Double.infinity false)] = .ok (.text (some "∞")) ∧
      (TextFunction.parse.run [.text (some "∞")]).toOption.any isMissing = true) ∧
    IsValue 4503599627370497 4503599627370497 ∧
      (integer 4503599627370497).cast .utc .text = .ok (.text (some "4503599627370497")) ∧
      ∃ z, (text (some "4503599627370497")).cast .utc .integer = .ok (.integer z) ∧ IsValue z 4503599627370498 := by
  refine ⟨⟨?_, ?_⟩, ?_, ?_, ?_⟩
  · exact congrArg (Except.ok ∘ Value.text) (by decide +kernel : integerText? (Double.infinity false) = some "∞")
  · decide +kernel
  · exact ⟨⟨false, 2 ^ 52 + 1, 0⟩, by decide +kernel, by norm_num [Double.Parts.value, Double.Parts.signed]⟩
  · exact congrArg (Except.ok ∘ Value.text) (by decide +kernel : integerText? 4503599627370497 = some "4503599627370497")
  · exact ⟨_, rfl, ⟨false, 2 ^ 52 + 2, 0⟩, by decide +kernel, by norm_num [Double.Parts.value, Double.Parts.signed]⟩

end Value

end Rowwise
