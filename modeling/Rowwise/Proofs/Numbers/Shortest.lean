import Mathlib.Tactic.FieldSimp
import Rowwise.Double.Decimal
import Rowwise.Proofs.Numbers.Arithmetic

/-!
# Rowwise.Proofs.Numbers.Shortest — the shortest decimal of a whole number

A decimal reads back as a double if it lies among the numbers that are rounded to this double
(`Double.isNearest_of_readsBack`).  The decimal of the fewest digits is looked for from coarse to fine; a whole number is found at
the latest where its own digits are, so its decimal has no digits behind the point (`Double.shortest_whole`).
-/

namespace Rowwise.Double

/-- The number that a decimal is. -/
def Decimal.value (d : Decimal) : ℚ := d.digits * 10 ^ d.exponent

/-! ### Comparing -/

section Compare

variable (a : Nat) (i : Int) (n : Nat) (j : Int)

/-- The sides of the comparison are scaled by the same number. -/
theorem scaled_left : ((a * tenTo i.toNat * twoTo (-j).toNat : Nat) : ℚ) =
    a * 10 ^ i * (10 ^ (-i).toNat * 2 ^ (-j).toNat) := by
  have hten : (10 : ℚ) ^ i * 10 ^ (-i).toNat = 10 ^ i.toNat := by
    rw [← zpow_natCast, ← zpow_natCast, ← zpow_add₀ (by norm_num)]
    congr 1
    omega
  have hpowers : tenTo i.toNat = 10 ^ i.toNat := rfl
  rw [hpowers, twoTo_eq]
  push_cast
  rw [← hten]
  ring

theorem scaled_right : ((n * twoTo j.toNat * tenTo (-i).toNat : Nat) : ℚ) =
    n * 2 ^ j * (10 ^ (-i).toNat * 2 ^ (-j).toNat) := by
  have htwo : (2 : ℚ) ^ j * 2 ^ (-j).toNat = 2 ^ j.toNat := by
    rw [← zpow_natCast, ← zpow_natCast, ← zpow_add₀ two_ne_zero]
    congr 1
    omega
  have hpowers : tenTo (-i).toNat = 10 ^ (-i).toNat := rfl
  rw [hpowers, twoTo_eq]
  push_cast
  rw [← htwo]
  ring

theorem scale_pos : (0 : ℚ) < 10 ^ (-i).toNat * 2 ^ (-j).toNat := by positivity

theorem compareScaled_eq_gt_iff : compareScaled a i n j = .gt ↔ (n : ℚ) * 2 ^ j < a * 10 ^ i := by
  unfold compareScaled
  rw [Nat.compare_eq_gt, ← Nat.cast_lt (α := ℚ), scaled_left, scaled_right, mul_lt_mul_iff_left₀ (scale_pos i j)]

theorem compareScaled_eq_lt_iff : compareScaled a i n j = .lt ↔ (a : ℚ) * 10 ^ i < n * 2 ^ j := by
  unfold compareScaled
  rw [Nat.compare_eq_lt, ← Nat.cast_lt (α := ℚ), scaled_left, scaled_right, mul_lt_mul_iff_left₀ (scale_pos i j)]

theorem compareScaled_eq_eq_iff : compareScaled a i n j = .eq ↔ (a : ℚ) * 10 ^ i = n * 2 ^ j := by
  unfold compareScaled
  rw [Nat.compare_eq_eq, ← Nat.cast_inj (R := ℚ), scaled_left, scaled_right, mul_left_inj' (scale_pos i j).ne']

end Compare

namespace Parts

variable {p : Parts} {d : Decimal}

/-! ### Reading back -/

/-- The distance to the number in the middle of the double and the one below, in units of the last place. -/
def roomBelow (p : Parts) : ℚ := if p.narrowBelow then 1 / 4 else 1 / 2

theorem readsBack_iff (hpos : 0 < p.mantissa) : p.readsBack d = true ↔
    ((p.mantissa - p.roomBelow) * 2 ^ p.exponent < d.value ∨
      Even p.mantissa ∧ (p.mantissa - p.roomBelow) * 2 ^ p.exponent = d.value) ∧
    (d.value < (p.mantissa + 1 / 2) * 2 ^ p.exponent ∨
      Even p.mantissa ∧ d.value = (p.mantissa + 1 / 2) * 2 ^ p.exponent) := by
  have hunit : (2 : ℚ) ^ (p.exponent - 2) = 2 ^ p.exponent / 4 := by
    rw [zpow_sub₀ two_ne_zero]
    norm_num
  have hlo : ((4 * p.mantissa - (if p.narrowBelow then 1 else 2) : Nat) : ℚ) * 2 ^ (p.exponent - 2) =
      (p.mantissa - p.roomBelow) * 2 ^ p.exponent := by
    rw [hunit, Nat.cast_sub (by split <;> omega)]
    unfold roomBelow
    split <;> push_cast <;> ring
  have hhi : ((4 * p.mantissa + 2 : Nat) : ℚ) * 2 ^ (p.exponent - 2) = (p.mantissa + 1 / 2) * 2 ^ p.exponent := by
    rw [hunit]
    push_cast
    ring
  unfold readsBack
  simp only [Bool.and_eq_true, Bool.or_eq_true, beq_iff_eq, compareScaled_eq_gt_iff, compareScaled_eq_lt_iff,
    compareScaled_eq_eq_iff, ← Nat.even_iff]
  rw [hlo, hhi, eq_comm (a := (d.digits : ℚ) * 10 ^ d.exponent)]
  rfl

theorem roomBelow_pos (p : Parts) : 0 < p.roomBelow := by
  unfold roomBelow
  split <;> norm_num

theorem roomBelow_le (p : Parts) : p.roomBelow ≤ 1 / 2 := by
  unfold roomBelow
  split <;> norm_num

theorem roomBelow_of_lead (hm : p.mantissa = 2 ^ 52) (he : -1074 < p.exponent) : p.roomBelow = 1 / 4 := by
  have hnarrow : p.narrowBelow = true := by
    unfold narrowBelow
    rw [hm, decide_eq_true he]
    rfl
  rw [roomBelow, if_pos hnarrow]

/-- Decimals with the same value read back. -/
theorem readsBack_of_value (hpos : 0 < p.mantissa) (h : d.value = p.mantissa * 2 ^ p.exponent) : p.readsBack d = true := by
  have hunit := two_zpow_pos p.exponent
  rw [readsBack_iff hpos, h]
  refine ⟨Or.inl (mul_lt_mul_of_pos_right ?_ hunit), Or.inl (mul_lt_mul_of_pos_right ?_ hunit)⟩
  · linarith [p.roomBelow_pos]
  · linarith

theorem le_value_of_readsBack (hpos : 0 < p.mantissa) (h : p.readsBack d = true) :
    (p.mantissa - p.roomBelow) * 2 ^ p.exponent ≤ d.value :=
  ((readsBack_iff hpos).1 h).1.elim le_of_lt fun h => h.2.le

theorem value_le_of_readsBack (hpos : 0 < p.mantissa) (h : p.readsBack d = true) :
    d.value ≤ (p.mantissa + 1 / 2) * 2 ^ p.exponent :=
  ((readsBack_iff hpos).1 h).2.elim le_of_lt fun h => h.2.le

section ReadsBack

variable (hp : p.IsCanonical) (he : -1074 < p.exponent) (h : p.readsBack d = true)

include hp he h

/-- Only what is read back as the least mantissa with all digits may lie below it. -/
theorem lead_of_value_lt (hbelow : d.value < 2 ^ 52 * 2 ^ p.exponent) : p.mantissa = 2 ^ 52 := by
  have hlead : 2 ^ 52 ≤ p.mantissa := hp.full.le_mantissa he.ne'
  have hlt := (le_value_of_readsBack (by omega) h).trans_lt hbelow
  have hless : (p.mantissa : ℚ) < 2 ^ 52 + 1 := by
    have hless := lt_of_mul_lt_mul_right hlt (two_zpow_pos p.exponent).le
    linarith [p.roomBelow_le]
  have hnat : p.mantissa < 2 ^ 52 + 1 := by exact_mod_cast hless
  omega

/-- Below the least mantissa with all digits the unit is half as great. -/
theorem isNearest_of_lt_lead (hbelow : d.value < 2 ^ 52 * 2 ^ p.exponent) :
    IsNearest d.value (p.mantissa * 2 ^ p.exponent) := by
  have heq := lead_of_value_lt hp he h hbelow
  have hhalf : (2 : ℚ) ^ p.exponent = 2 * 2 ^ (p.exponent - 1) := by rw [← two_zpow_succ, sub_add_cancel]
  have hle := le_value_of_readsBack (by omega) h
  rw [roomBelow_of_lead heq he, heq] at hle
  rw [heq]
  push_cast at hle ⊢
  rw [hhalf] at hle hbelow ⊢
  have hpos := two_zpow_pos (p.exponent - 1)
  have hnonneg : 0 ≤ d.value := by linarith
  refine ⟨2 ^ 53, p.exponent - 1, ⟨?_, fun _ => by decide, by omega, Or.inr ?_, ?_⟩, by push_cast; ring⟩
  · push_cast
    rw [abs_le]
    constructor <;> linarith
  · rw [abs_of_nonneg hnonneg]
    linarith
  · rw [abs_of_nonneg hnonneg]
    linarith

theorem isNearest_of_lead_le (habove : 2 ^ 52 * 2 ^ p.exponent ≤ d.value) :
    IsNearest d.value (p.mantissa * 2 ^ p.exponent) := by
  have hunit := two_zpow_pos p.exponent
  have hlead : 2 ^ 52 ≤ p.mantissa := hp.full.le_mantissa he.ne'
  have hlast : (p.mantissa : ℚ) ≤ 2 ^ 53 - 1 := by
    rw [le_sub_iff_add_le]
    exact_mod_cast hp.mantissa_lt
  have hmul := mul_le_mul_of_nonneg_right hlast hunit.le
  have hle := le_value_of_readsBack (by omega) h
  have hge := value_le_of_readsBack (by omega) h
  have hnonneg : 0 ≤ d.value := le_trans (by positivity) habove
  have hroom : (p.mantissa - 1 / 2) * 2 ^ p.exponent ≤ (p.mantissa - p.roomBelow) * 2 ^ p.exponent := by
    refine mul_le_mul_of_nonneg_right ?_ hunit.le
    linarith [p.roomBelow_le]
  refine ⟨p.mantissa, p.exponent, ⟨?_, fun htie => ?_, he.le, Or.inr ?_, ?_⟩, by push_cast; rfl⟩
  · push_cast
    rw [abs_le]
    constructor <;> linarith
  · have heven : Even p.mantissa := by
      obtain ⟨hlo, hhi⟩ := (readsBack_iff (by omega)).1 h
      push_cast at htie
      rcases abs_cases ((p.mantissa : ℚ) * 2 ^ p.exponent - d.value) with ⟨habs, -⟩ | ⟨habs, -⟩
      · refine (hlo.resolve_left fun hlt => ?_).1
        linarith
      · refine (hhi.resolve_left fun hlt => ?_).1
        linarith
    exact_mod_cast heven
  · rwa [abs_of_nonneg hnonneg]
  · rw [abs_of_nonneg hnonneg]
    linarith

/-- What reads back is rounded to the number. -/
theorem isNearest_of_readsBack : IsNearest d.value (p.mantissa * 2 ^ p.exponent) :=
  (lt_or_ge d.value (2 ^ 52 * 2 ^ p.exponent)).elim (isNearest_of_lt_lead hp he h) (isNearest_of_lead_le hp he h)

end ReadsBack

/-- What reads back as a double lies below the bound: a tie goes to an even mantissa, and the last one is odd. -/
theorem value_lt_bound (hp : p.IsCanonical) (hpos : 0 < p.mantissa) (h : p.readsBack d = true) : d.value < bound := by
  have hunit := two_zpow_pos p.exponent
  have hexp : (2 : ℚ) ^ p.exponent ≤ 2 ^ (971 : ℤ) := zpow_le_zpow_right₀ one_le_two hp.greatest
  have hscaled : (2 ^ 53 - 1 / 2) * (2 : ℚ) ^ p.exponent ≤ bound := mul_le_mul_of_nonneg_left hexp (by norm_num)
  rcases ((readsBack_iff hpos).1 h).2 with hlt | ⟨heven, heq⟩
  · have hlast : (p.mantissa : ℚ) + 1 ≤ 2 ^ 53 := by exact_mod_cast hp.mantissa_lt
    have hmul := mul_le_mul_of_nonneg_right hlast hunit.le
    linarith
  · have hlast : (p.mantissa : ℚ) + 2 ≤ 2 ^ 53 := by
      have hlt := hp.mantissa_lt
      rw [Nat.even_iff] at heven
      exact_mod_cast (by omega : p.mantissa + 2 ≤ 2 ^ 53)
    have hmul := mul_le_mul_of_nonneg_right hlast hunit.le
    linarith

/-! ### Looking for digits -/

theorem gridPoint_value (n : Nat) (g : Int) : (gridPoint n g).value = n * 10 ^ g := by
  unfold gridPoint
  split
  · rename_i hlast
    have hten : (10 : ℚ) ^ (g + 1) = 10 * 10 ^ g := by rw [zpow_add₀ (by norm_num), zpow_one, mul_comm]
    have hnat : (n : ℚ) = (n / 10 : Nat) * 10 := by exact_mod_cast (Nat.div_mul_cancel (Nat.dvd_of_mod_eq_zero hlast)).symm
    show ((n / 10 : Nat) : ℚ) * 10 ^ (g + 1) = _
    rw [hten, hnat]
    ring
  · rfl

theorem le_exponent_gridPoint (n : Nat) (g : Int) : g ≤ (gridPoint n g).exponent := by
  unfold gridPoint
  split
  · exact (Int.lt_succ g).le
  · exact Int.le_refl g

/-- What is found on a grid reads back and has no digits between its lines. -/
theorem onGrid_eq_some {g : Int} (h : p.onGrid g = some d) : p.readsBack d = true ∧ g ≤ d.exponent := by
  unfold onGrid at h
  simp only at h
  split at h
  · rename_i hdown hup
    cases h
    split
    · exact ⟨hdown, le_exponent_gridPoint _ _⟩
    · exact ⟨hup, le_exponent_gridPoint _ _⟩
  · rename_i hdown _
    cases h
    exact ⟨hdown, le_exponent_gridPoint _ _⟩
  · rename_i _ hup
    cases h
    exact ⟨hup, le_exponent_gridPoint _ _⟩
  · cases h

/-- A whole number lies on the grid of the units. -/
theorem isSome_onGrid_zero (hwhole : p.fraction = 0) (hpos : 0 < p.mantissa) : (p.onGrid 0).isSome = true := by
  have hunits : (p.inUnits 0).1 / (p.inUnits 0).2 = p.whole := by
    have hten : tenTo (0 : Int).toNat = 1 ∧ tenTo (-0 : Int).toNat = 1 := ⟨rfl, rfl⟩
    unfold inUnits whole
    simp only [hten.1, hten.2, Nat.mul_one]
    split
    · rename_i he
      rw [show (-p.exponent).toNat = 0 by omega]
      exact Nat.div_one _
    · rename_i he
      rw [show p.exponent.toNat = 0 by omega]
      exact congrArg (· / _) (Nat.mul_one _)
  have hdown : p.readsBack (gridPoint p.whole 0) = true := by
    refine readsBack_of_value hpos ?_
    rw [gridPoint_value, zpow_zero, mul_one, magnitude_eq_whole hwhole]
  unfold onGrid
  simp only [hunits, hdown]
  split <;> first | rfl | simp_all

/-- The first hit in a range comes no later than any other. -/
theorem findSome?_range_eq_some {α : Type} {f : Nat → Option α} {n m : Nat} {a : α} (h : (List.range n).findSome? f = some a)
    (hm : m < n) (hsome : (f m).isSome = true) : ∃ i ≤ m, f i = some a := by
  obtain ⟨before, i, after, hrange, hi, hnone⟩ := List.findSome?_eq_some_iff.1 h
  refine ⟨i, ?_, hi⟩
  by_contra hlt
  have hsorted : (before ++ i :: after).Pairwise (· < ·) := hrange ▸ List.pairwise_lt_range
  have hmem : m ∈ before ++ i :: after := hrange ▸ List.mem_range.2 hm
  rcases List.mem_append.1 hmem with hbefore | hafter
  · rw [hnone m hbefore] at hsome
    cases hsome
  · rcases List.mem_cons.1 hafter with rfl | hafter
    · exact hlt (Nat.le_refl _)
    · have hless := List.rel_of_pairwise_cons (List.pairwise_append.1 hsorted).2.1 hafter
      omega

/-- With digits behind the point a double has at most seventeen digits in front of it. -/
theorem scale_le (hp : p.IsCanonical) (hpos : 0 < p.mantissa) (he : p.exponent < 0) : p.scale ≤ 17 := by
  have hlog : p.mantissa.log2 ≤ 52 := by
    have := (Nat.log2_lt hpos.ne').2 hp.mantissa_lt
    omega
  unfold scale
  simp only
  split
  · rename_i k hfind
    have hmem := List.mem_of_find?_eq_some hfind
    simp only [List.mem_cons, List.not_mem_nil, or_false] at hmem
    omega
  · omega

section Whole

variable (hwhole : p.fraction = 0) (hpos : 0 < p.mantissa)

include hwhole hpos

theorem one_le_whole : 1 ≤ p.whole := by
  have hmagnitude := magnitude_eq_whole hwhole
  have hpositive : (0 : ℚ) < p.whole := by
    rw [← hmagnitude]
    exact mul_pos (by exact_mod_cast hpos) (two_zpow_pos _)
  exact_mod_cast hpositive

theorem log2_add_exponent_nonneg : 0 ≤ (p.mantissa.log2 : Int) + p.exponent := by
  have hone : (1 : ℚ) ≤ p.mantissa * 2 ^ p.exponent := by
    rw [magnitude_eq_whole hwhole]
    exact_mod_cast one_le_whole hwhole hpos
  have hdigits : (p.mantissa : ℚ) < 2 ^ (p.mantissa.log2 + 1) := by exact_mod_cast Nat.lt_log2_self
  have hlt : (2 : ℚ) ^ (0 : ℤ) < 2 ^ ((p.mantissa.log2 : ℤ) + 1 + p.exponent) := by
    rw [zpow_zero, zpow_add₀ two_ne_zero]
    refine hone.trans_lt (mul_lt_mul_of_pos_right ?_ (two_zpow_pos _))
    exact_mod_cast hdigits
  have hexp := (zpow_lt_zpow_iff_right₀ one_lt_two).1 hlt
  omega

/-- A whole number has a digit in front of the point. -/
theorem one_le_scale : 1 ≤ p.scale := by
  have hlead := log2_add_exponent_nonneg hwhole hpos
  unfold scale
  simp only
  split
  · rename_i k hfind
    have hgreater := List.find?_some hfind
    rw [beq_iff_eq, compareScaled_eq_gt_iff, magnitude_eq_whole hwhole, Nat.cast_one, one_mul] at hgreater
    by_contra hsmall
    have hle : (10 : ℚ) ^ k ≤ 1 := zpow_le_one_of_nonpos₀ (by norm_num) (by omega)
    have hone : (1 : ℚ) ≤ p.whole := by exact_mod_cast one_le_whole hwhole hpos
    linarith
  · omega

/-- The shortest decimal of a whole number reads back, and it has no digits behind the point. -/
theorem shortest_whole (hp : p.IsCanonical) : p.readsBack p.shortest = true ∧ 0 ≤ p.shortest.exponent := by
  have hscale := one_le_scale hwhole hpos
  have hunits : (p.onGrid (p.scale - (p.scale.toNat - 1 + 1 : Nat))).isSome = true := by
    rw [show p.scale - ((p.scale.toNat - 1 + 1 : Nat) : Int) = 0 by omega]
    exact isSome_onGrid_zero hwhole hpos
  unfold shortest
  rw [if_neg hpos.ne']
  simp only
  cases hfound : (List.range 17).findSome? fun n => p.onGrid (p.scale - (n + 1 : Nat)) with
  | some d =>
    have hcoarse : ∃ i : Nat, p.onGrid (p.scale - (i + 1 : Nat)) = some d ∧ ((i : Int) + 1 ≤ p.scale) := by
      by_cases hle : p.scale ≤ 17
      · obtain ⟨i, hi, hgrid⟩ := findSome?_range_eq_some hfound (by omega) hunits
        exact ⟨i, hgrid, by omega⟩
      · obtain ⟨i, hi, hgrid⟩ := List.exists_of_findSome?_eq_some hfound
        rw [List.mem_range] at hi
        exact ⟨i, hgrid, by omega⟩
    obtain ⟨i, hgrid, hi⟩ := hcoarse
    obtain ⟨hback, hexp⟩ := onGrid_eq_some hgrid
    exact ⟨hback, show 0 ≤ d.exponent by omega⟩
  | none =>
    have he : 0 ≤ p.exponent := by
      by_contra hneg
      have hle := scale_le hp hpos (not_le.1 hneg)
      rw [List.findSome?_eq_none_iff.1 hfound _ (List.mem_range.2 (by omega))] at hunits
      cases hunits
    have hexact : p.exactDecimal = ⟨p.mantissa * 2 ^ p.exponent.toNat, 0⟩ := if_pos he
    rw [Option.getD_none, hexact]
    refine ⟨readsBack_of_value hpos ?_, Int.le_refl 0⟩
    unfold Decimal.value
    rw [zpow_zero, mul_one]
    conv_rhs => rw [← Int.toNat_of_nonneg he, zpow_natCast]
    push_cast
    rfl

end Whole

end Parts

end Rowwise.Double
