import Rowwise.Double.Nearby
import Rowwise.Proofs.Numbers.Arithmetic

/-!
# Rowwise.Proofs.Numbers.HalfUp — the nearest whole number, a half going up

A number is rounded to a whole one by adding one half and rounding down.  The sum is a double itself, or it is rounded without
reaching the next whole number, for all but few numbers (`Double.floor_nearest_half`): an odd whole number with all its digits
and one half lies in the middle of two doubles, of which the greater is even, and the number right below one half lies in the middle
of two others, of which the greater is one (`Double.Skewed`).  These are rounded to the whole number after the nearest one
(`Double.isValue_halfUp`).
-/

namespace Rowwise

/-- The integer nearest to a number, the greater one of two. -/
def nearestInteger (q : ℚ) : ℤ := round q

theorem nearestInteger_eq (q : ℚ) : nearestInteger q = ⌊q + 1 / 2⌋ := round_eq q

theorem nearestInteger_intCast (n : ℤ) : nearestInteger n = n := round_intCast n

namespace Double

/-- The sum with one half is rounded up to a whole number. -/
def Skewed (q : ℚ) : Prop := q = 1 / 2 - 1 / 2 ^ 54 ∨ ∃ n : ℤ, Odd n ∧ 2 ^ 52 < |n| ∧ |n| < 2 ^ 53 ∧ q = n

variable {q d : ℚ} {n : ℤ}

/-! ### Whole numbers -/

/-- Below `2 ^ 52` there is a digit left for one half. -/
theorem fits_add_half (hlo : -2 ^ 52 ≤ n) (hhi : n < 2 ^ 52) : Fits (n + 1 / 2) := by
  refine ⟨2 * n + 1, -1, abs_le.2 ⟨by omega, by omega⟩, by omega, ?_⟩
  push_cast
  rw [zpow_neg_one]
  ring

/-- From `2 ^ 52` on there is none: the sum with one half is rounded to the even one of its two neighbours. -/
theorem even_of_isNearest (h : IsNearest (n + 1 / 2) d) (hn : Fits n) (hlarge : (2 : ℚ) ^ 52 ≤ |(n : ℚ) + 1 / 2|) :
    ∃ k : ℤ, Even k ∧ d = k ∧ (k = n ∨ k = n + 1) := by
  have hhalf : |(n : ℚ) - (n + 1 / 2)| = 1 / 2 := by
    rw [sub_add_cancel_left, abs_neg]
    norm_num
  have hle : (n : ℚ) ≤ d := h.le_of_le hn (by linarith)
  have hge : d ≤ n + 1 := by
    have hnear := (abs_le.1 (hhalf ▸ h.abs_sub_le hn)).2
    linarith
  obtain ⟨m, e, hround, rfl⟩ := h
  have hexp : 0 ≤ e := by
    by_contra hneg
    have hcoarse := hround.coarse
    have hunit : (2 : ℚ) * 2 ^ e ≤ 2 ^ (0 : ℤ) := two_zpow_lt (not_le.1 hneg)
    rw [zpow_zero] at hunit
    linarith
  have hwhole : (m : ℚ) * 2 ^ e = ((m * 2 ^ e.toNat : ℤ) : ℚ) := mul_two_zpow_of_nonneg hexp
  rw [hwhole] at hle hge ⊢
  have hlo : n ≤ m * 2 ^ e.toNat := by exact_mod_cast hle
  have hhi : m * 2 ^ e.toNat ≤ n + 1 := by exact_mod_cast hge
  refine ⟨_, ?_, rfl, by omega⟩
  rcases hexp.eq_or_lt with rfl | hpos
  · -- both neighbours are half a unit away
    have htie : |(m : ℚ) * 2 ^ (0 : ℤ) - (n + 1 / 2)| = 2 ^ (0 : ℤ) / 2 := by
      rw [hwhole]
      have hends : m * 2 ^ (0 : ℤ).toNat = n ∨ m * 2 ^ (0 : ℤ).toNat = n + 1 := by omega
      rcases hends with hend | hend <;> rw [hend] <;> push_cast
      · rw [hhalf]
      · rw [show (n : ℚ) + 1 - (n + 1 / 2) = 1 / 2 by ring]
        norm_num
    simpa using hround.even htie
  · exact (Int.even_pow.2 ⟨even_two, by omega⟩).mul_left m

theorem skewed_intCast_iff : Skewed n ↔ Odd n ∧ 2 ^ 52 < |n| ∧ |n| < 2 ^ 53 := by
  refine ⟨?_, fun h => Or.inr ⟨n, h.1, h.2.1, h.2.2, rfl⟩⟩
  rintro (hhalf | ⟨m, hodd, hlo, hhi, hm⟩)
  · -- the number right below one half is none
    have hscaled : ((n * 2 ^ 54 : ℤ) : ℚ) = ((2 ^ 53 - 1 : ℤ) : ℚ) := by
      push_cast
      rw [hhalf]
      norm_num
    have hint : n * 2 ^ 54 = 2 ^ 53 - 1 := by exact_mod_cast hscaled
    omega
  · obtain rfl : n = m := by exact_mod_cast hm
    exact ⟨hodd, hlo, hhi⟩

theorem floor_of_whole (hn : Fits n) (hd : IsNearest (n + 1 / 2) d) :
    (¬Skewed n → ⌊d⌋ = n) ∧ (Skewed n → ⌊d⌋ = n + 1) := by
  rw [skewed_intCast_iff]
  by_cases hsmall : -2 ^ 52 ≤ n ∧ n < 2 ^ 52
  · have hmiddle : ⌊(n : ℚ) + 1 / 2⌋ = n := by
      rw [Int.floor_intCast_add]
      norm_num
    rw [hd.eq_self (fits_add_half hsmall.1 hsmall.2), hmiddle]
    refine ⟨fun _ => rfl, fun h => ?_⟩
    have hlarge := h.2.1
    rcases abs_cases n with ⟨habs, hsign⟩ | ⟨habs, hsign⟩ <;> omega
  · have hlarge : (2 : ℚ) ^ 52 ≤ |(n : ℚ) + 1 / 2| := by
      rw [not_and_or, not_le, not_lt] at hsmall
      rcases hsmall with hneg | hpos
      · have hle : (n : ℚ) ≤ -2 ^ 52 - 1 := by exact_mod_cast (by omega : n ≤ -2 ^ 52 - 1)
        rw [le_abs]
        exact Or.inr (by linarith)
      · have hle : (2 : ℚ) ^ 52 ≤ n := by exact_mod_cast hpos
        rw [le_abs]
        exact Or.inl (by linarith)
    obtain ⟨k, heven, rfl, hk⟩ := even_of_isNearest hd hn hlarge
    rw [Int.floor_intCast]
    rw [Int.even_iff] at heven
    refine ⟨fun hskew => ?_, fun hskew => ?_⟩
    · by_contra hne
      have hodd : Odd n := by
        rw [Int.odd_iff]
        omega
      refine hskew ⟨hodd, ?_, hn.abs_lt_of_odd hodd⟩
      rw [Int.odd_iff] at hodd
      rcases abs_cases n with ⟨habs, hsign⟩ | ⟨habs, hsign⟩ <;> omega
    · have hodd := Int.odd_iff.1 hskew.1
      omega

/-! ### Fractions -/

/-- Rounding does not come below the whole number below. -/
theorem floor_of_lt (hd : IsNearest (q + 1 / 2) d) (hfloor : Fits ⌊q + 1 / 2⌋) (hlt : d < ⌊q + 1 / 2⌋ + 1) :
    ⌊d⌋ = ⌊q + 1 / 2⌋ :=
  Int.floor_eq_iff.2 ⟨hd.le_of_le hfloor (Int.floor_le _), hlt⟩

/-- The nearest whole number is above: it is nearer to the sum than the next one. -/
theorem floor_of_below (hd : IsNearest (q + 1 / 2) d) (hfloor : Fits ⌊q + 1 / 2⌋) (hlt : q < ⌊q + 1 / 2⌋) :
    ⌊d⌋ = ⌊q + 1 / 2⌋ := by
  refine floor_of_lt hd hfloor ?_
  have hnear := hd.abs_sub_le hfloor
  have hle := Int.floor_le (q + 1 / 2)
  rw [abs_of_nonpos (by linarith : ((⌊q + 1 / 2⌋ : ℤ) : ℚ) - (q + 1 / 2) ≤ 0)] at hnear
  have hup := (abs_le.1 hnear).2
  linarith

/-- The number right below one half goes up to one. -/
theorem isNearest_one : IsNearest (1 / 2 - 1 / 2 ^ 54 + 1 / 2) 1 := by
  have hunit : (2 : ℚ) ^ (-53 : ℤ) = 1 / 2 ^ 53 := by
    rw [zpow_neg, one_div]
    rfl
  have hhalf : |((2 ^ 53 : ℤ) : ℚ) * 2 ^ (-53 : ℤ) - (1 / 2 - 1 / 2 ^ 54 + 1 / 2)| = 2 ^ (-53 : ℤ) / 2 := by
    rw [hunit]
    norm_num
  refine ⟨2 ^ 53, -53, ⟨hhalf.le, fun _ => by decide, by omega, Or.inr ?_, ?_⟩, ?_⟩ <;> rw [hunit] <;> norm_num

/-- Above one quarter the numbers are multiples of `2 ^ -54`, so the one after that is a unit further below one half. -/
theorem le_of_lt_half (hq : Fits q) (hlarge : 1 / 4 < q) (hhalf : q < 1 / 2) (hskew : q ≠ 1 / 2 - 1 / 2 ^ 54) :
    q ≤ 1 / 2 - 1 / 2 ^ 53 := by
  obtain ⟨m, e, hm, -, rfl⟩ := hq
  have hexp : -54 ≤ e := by
    by_contra hlow
    have hunit : (2 : ℚ) ^ e ≤ 2 ^ (-55 : ℤ) := zpow_le_zpow_right₀ one_le_two (by omega)
    have hm' : (m : ℚ) ≤ 2 ^ 53 := by exact_mod_cast (abs_le.1 hm).2
    have hmul : (m : ℚ) * 2 ^ e ≤ 2 ^ 53 * 2 ^ (-55 : ℤ) :=
      mul_le_mul hm' hunit (two_zpow_pos e).le (by norm_num)
    norm_num at hmul
    linarith
  have hcount : (m : ℚ) * 2 ^ e = ((m * 2 ^ (e - -54).toNat : ℤ) : ℚ) * (1 / 2 ^ 54) := by
    rw [two_zpow_eq_mul hexp]
    push_cast
    norm_num
    ring
  rw [hcount] at hhalf hskew ⊢
  generalize m * 2 ^ (e - -54).toNat = j at hhalf hskew ⊢
  have hlt : j < 2 ^ 53 := by
    have hscaled : (j : ℚ) < 2 ^ 53 := by linarith
    exact_mod_cast hscaled
  have hne : j ≠ 2 ^ 53 - 1 := by
    rintro rfl
    exact hskew (by norm_num)
  have hle : (j : ℚ) ≤ 2 ^ 53 - 2 := by exact_mod_cast (by omega : j ≤ 2 ^ 53 - 2)
  linarith

/-- Below it, the sum with one half stays below one. -/
theorem lt_one_of_isNearest (hd : IsNearest (q + 1 / 2) d) (hq : Fits q) (hhalf : q < 1 / 2) (hskew : q ≠ 1 / 2 - 1 / 2 ^ 54) :
    d < 1 := by
  rcases le_or_gt q (1 / 4) with hsmall | hlarge
  · have hfits : Fits (3 / 4) := ⟨3, -2, by norm_num, by omega, by norm_num⟩
    have hle := hd.ge_of_ge hfits (by linarith)
    linarith
  · have hfits : Fits (1 - 1 / 2 ^ 53) := ⟨2 ^ 53 - 1, -53, by norm_num, by omega, by norm_num⟩
    have hbelow := le_of_lt_half hq hlarge hhalf hskew
    have hle := hd.ge_of_ge hfits (by linarith)
    linarith [show (0 : ℚ) < 1 / 2 ^ 53 by norm_num]

/-- A mantissa between a whole number and half a unit below the next one gets no more digits by half a unit. -/
theorem add_half_le {m n : ℤ} {k : ℕ} (hm : m ≤ 2 ^ 53) (hlo : n * 2 ^ (k + 1) < m) (hhi : m + 2 ^ k < (n + 1) * 2 ^ (k + 1))
    (hne : n ≠ 0) : m + 2 ^ k ≤ 2 ^ 53 := by
  by_contra hcarry
  rw [not_le] at hcarry
  rcases lt_or_gt_of_ne hne with hbelow | habove
  · have hzero : (n + 1) * 2 ^ (k + 1) ≤ 0 := mul_nonpos_of_nonpos_of_nonneg (by omega) (by positivity)
    omega
  · have hone : 1 * 2 ^ (k + 1) ≤ n * 2 ^ (k + 1) := mul_le_mul_of_nonneg_right (by omega) (by positivity)
    have hfew : k + 1 < 53 := by
      have hlt : (2 : ℤ) ^ (k + 1) < 2 ^ 53 := by omega
      exact (pow_lt_pow_iff_right₀ one_lt_two).1 hlt
    obtain ⟨j, hj⟩ : ∃ j, 53 = k + 1 + j := Nat.exists_eq_add_of_le hfew.le
    have hpower : (2 : ℤ) ^ 53 = 2 ^ j * 2 ^ (k + 1) := by rw [hj, pow_add, mul_comm]
    rw [hpower] at hcarry hm
    have hbefore : (2 : ℤ) ^ j < n + 1 := lt_of_mul_lt_mul_right (hcarry.trans hhi) (by positivity)
    have hmul : (2 : ℤ) ^ j * 2 ^ (k + 1) ≤ n * 2 ^ (k + 1) := mul_le_mul_of_nonneg_right (by omega) (by positivity)
    omega

/-- From one on the sum with one half has no more digits, unless it passes a power of two, and this is a whole number. -/
theorem fits_add_half_of_lt (hq : Fits q) (hfloor : (⌊q + 1 / 2⌋ : ℚ) < q) (hne : ⌊q + 1 / 2⌋ ≠ 0) : Fits (q + 1 / 2) := by
  obtain ⟨m, e, hm, he, rfl⟩ := hq
  set n := ⌊(m : ℚ) * 2 ^ e + 1 / 2⌋ with hn
  have hneg : e < 0 := by
    by_contra hpos
    rw [hn, mul_two_zpow_of_nonneg (not_lt.1 hpos), Int.floor_intCast_add] at hfloor
    norm_num at hfloor
  obtain ⟨k, rfl⟩ : ∃ k : ℕ, e = -((k + 1 : ℕ) : ℤ) := ⟨(-e).toNat - 1, by omega⟩
  have hpow : (0 : ℚ) < 2 ^ (k + 1) := by positivity
  have hunit : (2 : ℚ) ^ (-((k + 1 : ℕ) : ℤ)) = (2 ^ (k + 1))⁻¹ := by rw [zpow_neg, zpow_natCast]
  have hsum : (m : ℚ) * 2 ^ (-((k + 1 : ℕ) : ℤ)) + 1 / 2 = ((m + 2 ^ k : ℤ) : ℚ) * 2 ^ (-((k + 1 : ℕ) : ℤ)) := by
    rw [hunit]
    push_cast
    field_simp
    ring
  have hlo : n * 2 ^ (k + 1) < m := by
    rw [hunit, ← div_eq_mul_inv, lt_div_iff₀ hpow] at hfloor
    exact_mod_cast hfloor
  have hhi : m + 2 ^ k < (n + 1) * 2 ^ (k + 1) := by
    have hlt := Int.lt_floor_add_one ((m : ℚ) * 2 ^ (-((k + 1 : ℕ) : ℤ)) + 1 / 2)
    rw [← hn, hsum, hunit, ← div_eq_mul_inv, div_lt_iff₀ hpow] at hlt
    exact_mod_cast hlt
  have hdigits := abs_le.1 hm
  have hstep : (0 : ℤ) < 2 ^ k := by positivity
  exact ⟨m + 2 ^ k, _, abs_le.2 ⟨by omega, add_half_le hdigits.2 hlo hhi hne⟩, he, hsum⟩

/-! ### The nearest whole number -/

/-- What the sum with one half is rounded down to. -/
theorem floor_nearest_half (hq : Fits q) (hd : IsNearest (q + 1 / 2) d) :
    (¬Skewed q → ⌊d⌋ = nearestInteger q) ∧ (Skewed q → ⌊d⌋ = nearestInteger q + 1) := by
  by_cases hwhole : ∃ n : ℤ, q = n
  · obtain ⟨n, rfl⟩ := hwhole
    rw [nearestInteger_intCast]
    exact floor_of_whole hq hd
  · have hskewed : Skewed q ↔ q = 1 / 2 - 1 / 2 ^ 54 :=
      ⟨fun h => h.resolve_right fun ⟨n, _, _, _, hn⟩ => hwhole ⟨n, hn⟩, Or.inl⟩
    rw [hskewed, nearestInteger_eq]
    refine ⟨fun hne => ?_, fun heq => ?_⟩
    · have hfits : Fits ⌊q + 1 / 2⌋ := by
        have hsmall := abs_le.1 (hq.abs_le_of_not_whole hwhole)
        have hlo : -2 ^ 52 ≤ ⌊q + 1 / 2⌋ := Int.le_floor.2 (by push_cast; linarith)
        have hhi : ⌊q + 1 / 2⌋ < 2 ^ 52 + 1 := Int.floor_lt.2 (by push_cast; linarith)
        exact fits_intCast (abs_le.2 ⟨by omega, by omega⟩)
      rcases lt_trichotomy q ⌊q + 1 / 2⌋ with hbelow | heq | habove
      · exact floor_of_below hd hfits hbelow
      · exact absurd ⟨_, heq⟩ hwhole
      · by_cases hzero : ⌊q + 1 / 2⌋ = 0
        · have hlt := Int.lt_floor_add_one (q + 1 / 2)
          rw [hzero] at habove hlt
          refine floor_of_lt hd hfits ?_
          rw [hzero, Int.cast_zero, zero_add]
          exact lt_one_of_isNearest hd hq (by linarith) hne
        · rw [hd.eq_self (fits_add_half_of_lt hq habove hzero)]
    · subst heq
      rw [hd.unique isNearest_one]
      norm_num

variable {x : Float}

/-- One half is added with one rounding. -/
theorem nearest_add_half (h : IsValue x q) : ∃ d, IsValue (x + 0.5) d ∧ IsNearest (q + 1 / 2) d := by
  have hhalf : IsValue 0.5 (1 / 2) := by
    refine ⟨⟨false, 2 ^ 52, -53⟩, by decide +kernel, ?_⟩
    norm_num [Parts.value, Parts.signed]
  refine nearest_add h hhalf (abs_lt_bound_of_le (b := 1 / 2) ?_ ?_)
  · exact (abs_add_le _ _).trans (add_le_add h.abs_le (by norm_num))
  · exact lt_of_lt_of_le (by norm_num : (1 / 2 : ℚ) < 2 ^ (0 : ℤ)) (zpow_le_zpow_right₀ one_le_two (by omega))

/-- Adding one half and rounding down yields the nearest integer, or for skewed numbers the one after it. -/
theorem isValue_halfUp (h : IsValue x q) :
    (¬Skewed q → IsValue (halfUp x) (nearestInteger q)) ∧ (Skewed q → IsValue (halfUp x) ((nearestInteger q + 1 : ℤ) : ℚ)) := by
  obtain ⟨d, hd, hnearest⟩ := nearest_add_half h
  have hfloor := isValue_floor hd
  obtain ⟨hplain, hskewed⟩ := floor_nearest_half h.fits hnearest
  exact ⟨fun hq => hplain hq ▸ hfloor, fun hq => hskewed hq ▸ hfloor⟩

theorem isValue_mul_one (h : IsValue x q) : IsValue (x * 1) q := by
  have hproduct := nearest_mul h isValue_one (by rw [mul_one]; exact h.abs_lt_bound)
  rw [mul_one] at hproduct
  exact .of_nearest hproduct h.fits

theorem isValue_div_one (h : IsValue x q) : IsValue (x / 1) q := by
  have hquotient := nearest_div h isValue_one one_ne_zero (by rw [div_one]; exact h.abs_lt_bound)
  rw [div_one] at hquotient
  exact .of_nearest hquotient h.fits

/-- To no digits behind the point a number is rounded like that. -/
theorem roundTo_zero_eq (h : IsValue x q) : roundTo x 0 = halfUp (x * 1) / 1 := by
  have hfactor : powInt 10 (clamp (-maxDigits) maxDigits 0) = 1 := rfl
  have hone : ((1 : Float) == 0) = false ∧ isFinite 1 = true := by decide +kernel
  unfold roundTo
  simp only [hfactor, h.isFinite, hone.1, hone.2, (isValue_mul_one h).isFinite, Bool.not_true, Bool.false_or, Bool.false_eq_true,
    if_false]

/-- Both ways of rounding to whole numbers yield the nearest integer, the greater one of two, and only for skewed numbers the one
after it. -/
theorem halfUp_and_roundTo_nearest (h : IsValue x q) :
    (¬Skewed q → IsValue (halfUp x) (nearestInteger q) ∧ IsValue (roundTo x 0) (nearestInteger q)) ∧
      (Skewed q → IsValue (halfUp x) ((nearestInteger q + 1 : ℤ) : ℚ) ∧
        IsValue (roundTo x 0) ((nearestInteger q + 1 : ℤ) : ℚ)) := by
  obtain ⟨hplain, hskewed⟩ := isValue_halfUp h
  obtain ⟨hplain', hskewed'⟩ := isValue_halfUp (isValue_mul_one h)
  rw [roundTo_zero_eq h]
  exact ⟨fun hq => ⟨hplain hq, isValue_div_one (hplain' hq)⟩, fun hq => ⟨hskewed hq, isValue_div_one (hskewed' hq)⟩⟩

/-- Minus one half lies in the middle and goes up to zero. -/
theorem halfUp_minus_half : IsValue (-0.5) (-1 / 2) ∧ ¬Skewed (-1 / 2) ∧ nearestInteger (-1 / 2) = 0 ∧
    IsValue (halfUp (-0.5)) (nearestInteger (-1 / 2)) ∧ IsValue (roundTo (-0.5) 0) (nearestInteger (-1 / 2)) := by
  have hvalue : IsValue (-0.5) (-1 / 2) :=
    ⟨⟨true, 2 ^ 52, -53⟩, by decide +kernel, by norm_num [Parts.value, Parts.signed]⟩
  have hskewed : ¬Skewed (-1 / 2) := by
    rintro (hhalf | ⟨n, -, hlarge, -, hn⟩)
    · norm_num at hhalf
    · have habs : |(n : ℚ)| < 2 ^ 52 := by
        rw [← hn]
        norm_num [abs_div]
      exact absurd hlarge (by exact_mod_cast habs.le.not_gt)
  exact ⟨hvalue, hskewed, by norm_num [nearestInteger_eq], (halfUp_and_roundTo_nearest hvalue).1 hskewed⟩

/-- Zero is nearest to the number right below one half, and an odd whole number with all its digits to itself. -/
theorem halfUp_passes_nearest :
    (IsValue 0.49999999999999994 (1 / 2 - 1 / 2 ^ 54) ∧ nearestInteger (1 / 2 - 1 / 2 ^ 54) = 0 ∧
      IsValue (halfUp 0.49999999999999994) 1 ∧ IsValue (roundTo 0.49999999999999994 0) 1) ∧
    (IsValue 4503599627370497 4503599627370497 ∧ nearestInteger 4503599627370497 = 4503599627370497 ∧
      IsValue (halfUp 4503599627370497) 4503599627370498 ∧ IsValue (roundTo 4503599627370497 0) 4503599627370498) := by
  refine ⟨⟨⟨⟨false, 2 ^ 53 - 1, -54⟩, by decide +kernel, ?_⟩, ?_, ⟨⟨false, 2 ^ 52, -52⟩, by decide +kernel, ?_⟩,
    ⟨⟨false, 2 ^ 52, -52⟩, by decide +kernel, ?_⟩⟩, ⟨⟨false, 2 ^ 52 + 1, 0⟩, by decide +kernel, ?_⟩, ?_,
    ⟨⟨false, 2 ^ 52 + 2, 0⟩, by decide +kernel, ?_⟩, ⟨⟨false, 2 ^ 52 + 2, 0⟩, by decide +kernel, ?_⟩⟩ <;>
    norm_num [Parts.value, Parts.signed, nearestInteger_eq]

end Double

end Rowwise
