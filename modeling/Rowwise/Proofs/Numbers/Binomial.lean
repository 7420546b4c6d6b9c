import Mathlib.Data.Nat.Choose.Basic
import Mathlib.Tactic.NormNum.NatFactorial
import Rowwise.Proofs.Constancy.Results
import Rowwise.Proofs.Numbers.Arithmetic

/-!
# Rowwise.Proofs.Numbers.Binomial — binomial coefficients in doubles

The result is multiplied by one factor after the other and divided by as many numbers; after each division it is a binomial
coefficient again.  As long as the products are doubles, nothing is rounded on the way (`isValue_multiplied`).  A last product
that is rounded leaves a coefficient of 51 digits within one half (`near_nextCoefficient`), and there are only three such
coefficients with a rounded product before the last (`factorsFit_or_mem`).  So the nearest whole number is the coefficient
(`near_multiplied`), and the result is exact (`binomialOf_exact`).
-/

namespace Rowwise

open Double (IsValue Fits IsNearest Near)

/-! ### Coefficients -/

/-- In the first half of a row, each coefficient is at most the next. -/
theorem choose_le_choose_of_le_half {n i j : Nat} (hij : i ≤ j) (hj : j ≤ n / 2) : n.choose i ≤ n.choose j := by
  induction j, hij using Nat.le_induction with
  | base => exact Nat.le_refl _
  | succ j _ ih => exact (ih (Nat.le_of_succ_le hj)).trans (Nat.choose_le_succ_of_lt_half_left hj)

theorem choose_min {n k : Nat} (h : k ≤ n) : n.choose (min k (n - k)) = n.choose k := by
  rcases Nat.le_total k (n - k) with hle | hle
  · rw [Nat.min_eq_left hle]
  · rw [Nat.min_eq_right hle, Nat.choose_symm h]

/-! ### Products -/

variable {x y result : Float} {n k i : Nat}

/-- All products on the way to a coefficient are doubles. -/
def FactorsFit (n k : Nat) : Prop := ∀ i < k, Fits (n.choose i * (n - i) : Nat)

theorem FactorsFit.mono (h : FactorsFit n k) (hi : i ≤ k) : FactorsFit n i := fun j hj => h j (hj.trans_le hi)

theorem FactorsFit.succ (h : FactorsFit n k) (hfit : Fits (n.choose k * (n - k) : Nat)) : FactorsFit n (k + 1) := by
  intro i hi
  rcases Nat.lt_succ_iff_lt_or_eq.1 hi with hi | rfl
  · exact h i hi
  · exact hfit

/-- The products are multiples of the coefficients, so few factors of small coefficients make doubles. -/
theorem factorsFit_of_le (hk : k ≤ n / 2) (h : n.choose k * k ≤ 2 ^ 53) : FactorsFit n k := by
  intro i hi
  have hle : n.choose i * (n - i) ≤ 2 ^ 53 := by
    rw [← Nat.choose_succ_right_eq]
    exact (Nat.mul_le_mul (choose_le_choose_of_le_half hi hk) hi).trans h
  exact Double.fits_intCast (n := (n.choose i * (n - i) : Nat)) (by rw [Nat.abs_cast]; exact_mod_cast hle)

/-- The counts of factors, from `i + 1` on, of coefficients below `2 ^ 51` with a product before the last that has too many
digits.  `b` is the coefficient of `i` factors, and `fit` says that its products have not. -/
def roundedBeforeLast (n : Nat) : (rest i b : Nat) → (fit : Bool) → List Nat
  | 0, _, _, _ => []
  | rest + 1, i, b, fit =>
    let product := b * (n - i)
    let next := product / (i + 1)
    if 2 ^ 51 ≤ next then []
    else
      let others := roundedBeforeLast n rest (i + 1) next (fit && product % 2 ^ (product.log2 - 52) == 0)
      if fit then others else (i + 1) :: others

theorem mem_roundedBeforeLast (rest : Nat) (fit : Bool) (hhalf : i + rest ≤ n / 2) (hfit : fit = true → FactorsFit n i)
    (hik : i ≤ k) (hk : k < i + rest) (hsmall : n.choose (k + 1) < 2 ^ 51) :
    FactorsFit n k ∨ k + 1 ∈ roundedBeforeLast n rest i (n.choose i) fit := by
  induction rest generalizing i fit with
  | zero => omega
  | succ rest ih =>
    have hnext : n.choose i * (n - i) / (i + 1) = n.choose (i + 1) := by
      rw [← Nat.choose_succ_right_eq]
      exact Nat.mul_div_cancel _ (Nat.succ_pos i)
    have hle : n.choose (i + 1) ≤ n.choose (k + 1) := choose_le_choose_of_le_half (by omega) (by omega)
    simp only [roundedBeforeLast, hnext, if_neg (show ¬2 ^ 51 ≤ n.choose (i + 1) by omega)]
    rcases Nat.eq_or_lt_of_le hik with rfl | hless
    · cases fit with
      | true => exact .inl (hfit rfl)
      | false => exact .inr List.mem_cons_self
    · have hrest := ih (i := i + 1) (fit && (n.choose i * (n - i)) % 2 ^ ((n.choose i * (n - i)).log2 - 52) == 0) (by omega)
        (fun h => ?_) (by omega) (by omega)
      · refine hrest.imp_right fun hmem => ?_
        split
        · exact hmem
        · exact List.mem_cons_of_mem _ hmem
      · rw [Bool.and_eq_true, beq_iff_eq, ← Nat.dvd_iff_mod_eq_zero] at h
        exact (hfit h.1).succ (Double.fits_of_dvd h.2)

theorem roundedBeforeLast_eq :
    ((List.range' 52 18).flatMap fun n => (roundedBeforeLast n (n / 2) 0 1 true).map fun k => (n, k)) =
      [(55, 22), (55, 23), (61, 18)] := by
  decide +kernel

theorem choose_values : Nat.choose 51 25 * 24 ≤ 2 ^ 53 ∧ 2 ^ 51 ≤ Nat.choose 70 16 := by
  norm_num [Nat.choose_eq_descFactorial_div_factorial]

/-- A product before the last that has too many digits is large against the next coefficient, so the row is one of a few. -/
theorem row_bounds (hk : k + 1 ≤ n / 2) (hsmall : n.choose (k + 1) < 2 ^ 51) (hmany : 2 ^ 53 < n.choose k * k) :
    52 ≤ n ∧ n < 70 := by
  obtain ⟨hcentral, hsixteen⟩ := choose_values
  constructor
  · by_contra hfew
    have hrow : n.choose k ≤ Nat.choose 51 25 := (Nat.choose_le_choose k (by omega)).trans (Nat.choose_le_middle k 51)
    have hproduct : n.choose k * k ≤ Nat.choose 51 25 * 24 := Nat.mul_le_mul hrow (by omega)
    omega
  · by_contra hlarge
    rcases Nat.lt_or_ge k 15 with hless | hge
    · have hproduct : n.choose k * (4 * (n - k)) < n.choose k * (k * (k + 1)) := by
        calc n.choose k * (4 * (n - k)) = 4 * n.choose (k + 1) * (k + 1) := by
              rw [Nat.mul_left_comm, ← Nat.choose_succ_right_eq, Nat.mul_assoc]
          _ < n.choose k * k * (k + 1) := Nat.mul_lt_mul_of_pos_right (by omega) (Nat.succ_pos k)
          _ = n.choose k * (k * (k + 1)) := Nat.mul_assoc _ _ _
      have hfactors : k * (k + 1) ≤ 14 * 15 := Nat.mul_le_mul (by omega) (by omega)
      have hrest := Nat.lt_of_mul_lt_mul_left hproduct
      omega
    · have hfirst : n.choose 16 ≤ n.choose (k + 1) := choose_le_choose_of_le_half (by omega) hk
      have hrow : Nat.choose 70 16 ≤ n.choose 16 := Nat.choose_le_choose 16 (by omega)
      omega

theorem factorsFit_or_mem (hk : k + 1 ≤ n / 2) (hsmall : n.choose (k + 1) < 2 ^ 51) :
    FactorsFit n k ∨ (n, k + 1) ∈ [(55, 22), (55, 23), (61, 18)] := by
  rcases le_or_gt (n.choose k * k) (2 ^ 53) with hfew | hmany
  · exact .inl (factorsFit_of_le (by omega) hfew)
  · obtain ⟨hlo, hhi⟩ := row_bounds hk hsmall hmany
    have hmem := mem_roundedBeforeLast (i := 0) (n / 2) true (by omega)
      (fun _ i hi => absurd hi (Nat.not_lt_zero i)) (Nat.zero_le k) (by omega) hsmall
    rw [Nat.choose_zero_right] at hmem
    refine hmem.imp_right fun hlisted => ?_
    rw [← roundedBeforeLast_eq]
    exact List.mem_flatMap.2 ⟨n, List.mem_range'_1.2 ⟨hlo, hhi⟩, List.mem_map.2 ⟨k + 1, hlisted, rfl⟩⟩

/-! ### Multiplying -/

/-- The result after so many factors, if it is finite on the way. -/
def multiplied (n : Nat) : (factors : Nat) → Float
  | 0 => 1
  | i + 1 => multiplied n i * Double.ofInt ((n : Int) - i) / Double.ofInt ((i : Int) + 1)

theorem product_div (n i : Nat) : ((n.choose i * (n - i) : Nat) : ℚ) / (i + 1 : Nat) = (n.choose (i + 1) : Nat) := by
  rw [← Nat.choose_succ_right_eq, Nat.cast_mul]
  exact mul_div_cancel_right₀ _ (by exact_mod_cast Nat.succ_ne_zero i)

/-- One factor: the product is rounded, and so is the quotient. -/
theorem nearest_nextCoefficient (hresult : IsValue result (n.choose i : Nat)) (hi : i < n) (hn : n ≤ 2 ^ 53)
    (hnext : n.choose (i + 1) ≤ 2 ^ 53) :
    ∃ p v, IsNearest ((n.choose i * (n - i) : Nat) : ℚ) p ∧ IsNearest (p / (i + 1 : Nat)) v ∧
      IsValue (result * Double.ofInt ((n : Int) - i) / Double.ofInt ((i : Int) + 1)) v := by
  have hfactor : IsValue (Double.ofInt ((n : Int) - i)) ((n - i : Nat) : ℚ) := by
    have hint := Double.isValue_ofInt (n := (n : Int) - i) (by omega)
    rw [← Nat.cast_sub hi.le] at hint ⊢
    exact_mod_cast hint
  have hdivisor : IsValue (Double.ofInt ((i : Int) + 1)) ((i + 1 : Nat) : ℚ) := by
    have hint := Double.isValue_ofInt (n := (i : Int) + 1) (by omega)
    exact_mod_cast hint
  have hsmall : n.choose i * (n - i) ≤ 2 ^ 53 * 2 ^ 53 := Nat.choose_succ_right_eq n i ▸ Nat.mul_le_mul hnext (by omega)
  obtain ⟨p, hp, hproduct⟩ := Double.nearest_mul hresult hfactor (by exact_mod_cast Double.natCast_abs_lt_bound hsmall)
  rw [← Nat.cast_mul] at hproduct
  have hquotient : |p / (i + 1 : Nat)| < Double.Parts.bound := by
    refine lt_of_le_of_lt ?_ hp.abs_lt_bound
    rw [abs_div, Nat.abs_cast]
    exact div_le_self (abs_nonneg p) (by push_cast; linarith [Nat.cast_nonneg (α := ℚ) i])
  obtain ⟨v, hv, hnearest⟩ := Double.nearest_div hp hdivisor (by exact_mod_cast Nat.succ_ne_zero i) hquotient
  exact ⟨p, v, hproduct, hnearest, hv⟩

/-- If the product is a double, neither it nor the quotient is rounded. -/
theorem isValue_nextCoefficient (hresult : IsValue result (n.choose i : Nat)) (hi : i < n) (hn : n ≤ 2 ^ 53)
    (hproduct : Fits (n.choose i * (n - i) : Nat)) (hnext : n.choose (i + 1) ≤ 2 ^ 53) :
    IsValue (result * Double.ofInt ((n : Int) - i) / Double.ofInt ((i : Int) + 1)) (n.choose (i + 1) : Nat) := by
  obtain ⟨p, v, hp, hv, hvalue⟩ := nearest_nextCoefficient hresult hi hn hnext
  rw [hp.eq_self hproduct, product_div] at hv
  have hfits : Fits ((n.choose (i + 1) : Nat) : ℚ) :=
    Double.fits_intCast (n := (n.choose (i + 1) : Nat)) (by rw [Nat.abs_cast]; exact_mod_cast hnext)
  rwa [hv.eq_self hfits] at hvalue

/-- If the product is rounded, the quotient misses a coefficient below `2 ^ 51` by no more than a quarter for the product and an
eighth for itself. -/
theorem near_nextCoefficient (hresult : IsValue result (n.choose i : Nat)) (hi : i < n) (hn : n ≤ 2 ^ 53)
    (hnext : n.choose (i + 1) < 2 ^ 51) :
    Near (result * Double.ofInt ((n : Int) - i) / Double.ofInt ((i : Int) + 1)) (n.choose (i + 1) : Nat) := by
  obtain ⟨p, v, hp, hv, hvalue⟩ := nearest_nextCoefficient hresult hi hn (hnext.le.trans (by norm_num))
  refine ⟨v, hvalue, ?_⟩
  have hcoefficient : ((n.choose (i + 1) : Nat) : ℚ) + 1 ≤ 2 ^ 51 := by exact_mod_cast hnext
  have hnonneg := Nat.cast_nonneg (α := ℚ) (n.choose (i + 1))
  have hproduct : |p / (i + 1 : Nat) - (n.choose (i + 1) : Nat)| ≤ (n.choose (i + 1) : Nat) / 2 ^ 53 := by
    have hone : 1 ≤ |((n.choose i * (n - i) : Nat) : ℚ)| := by
      rw [Nat.abs_cast]
      exact_mod_cast Nat.mul_pos (Nat.choose_pos hi.le) (Nat.sub_pos_of_lt hi)
    have hmoved := hp.abs_sub_le_abs hone
    rw [Nat.abs_cast] at hmoved
    rw [← product_div, ← sub_div, abs_div, Nat.abs_cast, div_right_comm]
    exact div_le_div_of_nonneg_right hmoved (Nat.cast_nonneg _)
  have hbelow : |p / (i + 1 : Nat)| < 2 ^ (51 : ℤ) := by
    have hall := abs_le.1 hproduct
    rw [abs_lt, zpow_ofNat]
    constructor <;> linarith
  have hquotient := hv.abs_sub_le_of_lt (by norm_num) hbelow
  have heighth : (2 : ℚ) ^ ((51 : ℤ) - 54) = 1 / 8 := by norm_num
  have htriangle := abs_sub_le v (p / (i + 1 : Nat)) (n.choose (i + 1) : Nat)
  rw [heighth] at hquotient
  rw [Int.cast_natCast]
  linarith

/-- After each factor the result is a coefficient, as long as the products are doubles. -/
theorem isValue_multiplied (hk : k ≤ n / 2) (hn : n ≤ 2 ^ 53) (hlast : n.choose k ≤ 2 ^ 53) (hfit : FactorsFit n k) :
    IsValue (multiplied n k) (n.choose k : Nat) := by
  induction k with
  | zero =>
    rw [Nat.choose_zero_right]
    exact_mod_cast Double.isValue_one
  | succ k ih =>
    have hvalue := ih (by omega) ((choose_le_choose_of_le_half (Nat.le_succ k) hk).trans hlast) (hfit.mono (Nat.le_succ k))
    exact isValue_nextCoefficient hvalue (by omega) hn (hfit k (by omega)) hlast

theorem multiplied_eq {c : Nat} (hk : k ≤ n / 2) (hn : n ≤ 2 ^ 53) (hfit : FactorsFit n k) (hc : n.choose k = c) (hlast : c ≤ 2 ^ 53) :
    multiplied n k = Double.ofInt c := by
  have hvalue := isValue_multiplied hk hn (hc ▸ hlast) hfit
  rw [hc] at hvalue
  have hpos : 0 < c := hc ▸ Nat.choose_pos (by omega)
  refine hvalue.eq ?_ (by exact_mod_cast hpos.ne')
  exact_mod_cast Double.isValue_ofInt (n := c) (by omega)

/-- The coefficients with a rounded product before the last are evaluated from there on. -/
theorem near_multiplied_of_mem (h : (n, k) ∈ [(55, 22), (55, 23), (61, 18)]) : Near (multiplied n k) (n.choose k : Nat) := by
  have hcoefficients : Nat.choose 55 19 = 280576272201225 ∧ Nat.choose 55 20 = 505037289962205 ∧
      Nat.choose 55 22 = 1300853625660225 ∧ Nat.choose 55 23 = 1866442158555975 ∧ Nat.choose 61 16 = 202802465047245 ∧
      Nat.choose 61 18 = 1312251244423350 := by
    norm_num [Nat.choose_eq_descFactorial_div_factorial]
  obtain ⟨h19, h20, h22, h23, h16, h18⟩ := hcoefficients
  have hfit : FactorsFit 55 20 := by
    refine FactorsFit.succ (factorsFit_of_le (by decide) (by rw [h19]; decide)) (Double.fits_of_dvd ?_)
    rw [h19]
    decide
  have hbefore := multiplied_eq (by decide) (by decide) hfit h20 (by decide)
  have hbefore' := multiplied_eq (by decide) (by decide) (factorsFit_of_le (by decide) (by rw [h16]; decide)) h16 (by decide)
  simp only [List.mem_cons, Prod.mk.injEq, List.not_mem_nil, or_false] at h
  obtain ⟨rfl, rfl⟩ | ⟨rfl, rfl⟩ | ⟨rfl, rfl⟩ := h
  · have hparts : Double.parts? (multiplied 55 22) = some ⟨false, 5203414502640900, -2⟩ := by
      rw [multiplied, multiplied, hbefore]
      decide +kernel
    exact ⟨_, ⟨_, hparts, rfl⟩, by rw [h22]; norm_num [Double.Parts.value, Double.Parts.signed]⟩
  · have hparts : Double.parts? (multiplied 55 23) = some ⟨false, 7465768634223900, -2⟩ := by
      rw [multiplied, multiplied, multiplied, hbefore]
      decide +kernel
    exact ⟨_, ⟨_, hparts, rfl⟩, by rw [h23]; norm_num [Double.Parts.value, Double.Parts.signed]⟩
  · have hparts : Double.parts? (multiplied 61 18) = some ⟨false, 5249004977693399, -2⟩ := by
      rw [multiplied, multiplied, hbefore']
      decide +kernel
    exact ⟨_, ⟨_, hparts, rfl⟩, by rw [h18]; norm_num [Double.Parts.value, Double.Parts.signed]⟩

/-- The coefficient is below `2 ^ 51`, or a double that is reached over doubles. -/
def IsReached (n k : Nat) : Prop := n.choose k < 2 ^ 51 ∨ n.choose k ≤ 2 ^ 53 ∧ FactorsFit n k

theorem IsReached.le (h : IsReached n k) : n.choose k ≤ 2 ^ 53 := h.elim (fun hsmall => hsmall.le.trans (by norm_num)) And.left

theorem IsReached.mono (h : IsReached n k) (hi : i ≤ k) (hk : k ≤ n / 2) : IsReached n i :=
  h.imp (choose_le_choose_of_le_half hi hk).trans_lt
    (And.imp (choose_le_choose_of_le_half hi hk).trans fun hfit => hfit.mono hi)

theorem near_multiplied_zero (n : Nat) : Near (multiplied n 0) (n.choose 0 : Nat) := by
  rw [Nat.choose_zero_right]
  exact .of_isValue (by exact_mod_cast Double.isValue_one)

theorem near_multiplied (hk : k ≤ n / 2) (hn : n ≤ 2 ^ 53) (h : IsReached n k) : Near (multiplied n k) (n.choose k : Nat) := by
  rcases h with hsmall | ⟨hlast, hfit⟩
  · cases k with
    | zero => exact near_multiplied_zero n
    | succ k =>
      have hle := (choose_le_choose_of_le_half (Nat.le_succ k) hk).trans_lt hsmall
      rcases factorsFit_or_mem hk hsmall with hfit | hmem
      · have hvalue := isValue_multiplied (by omega) hn (hle.le.trans (by norm_num)) hfit
        exact near_nextCoefficient hvalue (by omega) hn hsmall
      · exact near_multiplied_of_mem hmem
  · exact .of_isValue (by exact_mod_cast isValue_multiplied hk hn hlast hfit)

/-- The loop multiplies by all factors if the result stays finite. -/
theorem Run.exec_binomialFrom {c : Context} (hc : c.Calm) (factors : Nat)
    (hfinite : ∀ j ≤ i + factors, Double.isInfinite (multiplied n j) = false) (w : World) (hw : w.cancelled = false) :
    ∃ w', (binomialFrom c n i (multiplied n i) factors).exec w = (.ok (multiplied n (i + factors)), w') := by
  induction factors generalizing i w with
  | zero => exact ⟨w, rfl⟩
  | succ factors ih =>
    have hsum : i + 1 + factors = i + (factors + 1) := by omega
    have hstep : multiplied n i * Double.ofInt ((n : Int) - i) / Double.ofInt ((i : Int) + 1) = multiplied n (i + 1) := rfl
    have hrest : ∀ v : World, v.cancelled = false → ∃ w',
        exec (if Double.isInfinite (multiplied n (i + 1)) then pure (multiplied n (i + 1))
          else binomialFrom c n (i + 1) (multiplied n (i + 1)) factors) v = (.ok (multiplied n (i + (factors + 1))), w') := by
      intro v hv
      rw [hfinite (i + 1) (by omega), ← hsum]
      exact ih (i := i + 1) (fun j hj => hfinite j (by omega)) v hv
    rw [binomialFrom]
    simp only [hstep]
    split
    · obtain ⟨polls, events, hpoll⟩ := exec_poll_calm hc hw
      rw [exec_bind, hpoll]
      exact hrest _ hw
    · exact hrest w hw

/-! ### Coefficients of doubles -/

theorem isInt_of_isValue (h : IsValue x (n : ℚ)) : Double.IsInt x (n : Int) :=
  Double.isInt_iff_isValue.2 (by exact_mod_cast h)

/-- The last integer of 64 bits is no double. -/
theorem ne_of_isValue (h : IsValue x (n : ℚ)) : n ≠ 2 ^ 63 - 1 := by
  rintro rfl
  have hsmall := Double.Fits.abs_lt_of_odd (n := (2 ^ 63 - 1 : Nat)) (by exact_mod_cast h.fits) (by decide)
  rw [Nat.abs_cast] at hsmall
  omega

/-- A natural number is read within 64 bits. -/
theorem wholeNumber_natural (what : String) (h : IsValue x (n : ℚ)) (hn : n ≤ 2 ^ 63) :
    wholeNumber what x = .ok ((min n (2 ^ 63 - 1) : Nat) : Int) :=
  wholeNumber_eq_ok_iff.2 ⟨n, isInt_of_isValue h, by omega, by omega⟩

/-- Two natural numbers are read, and the loop multiplies by the fewer factors. -/
theorem binomialOf_natural (c : Context) (hx : IsValue x (n : ℚ)) (hy : IsValue y (k : ℚ)) (hn : n ≤ 2 ^ 63) (hk : k ≤ 2 ^ 63) :
    binomialOf c x y =
      if n < k then pure 0
      else do
        return Double.nearest (← binomialFrom c ((min n (2 ^ 63 - 1) : Nat) : Int) 0 1
          (min (min k (2 ^ 63 - 1)) (min n (2 ^ 63 - 1) - min k (2 ^ 63 - 1)))) := by
  have hn63 := ne_of_isValue hx
  have hk63 := ne_of_isValue hy
  unfold binomialOf
  rw [(isInt_of_isValue hx).isMissing, (isInt_of_isValue hy).isMissing, wholeNumber_natural "n" hx hn,
    wholeNumber_natural "k" hy hk]
  simp only [Bool.or_self, Bool.false_eq_true, if_false, Run.valueOf, Except.mapError, Run.ofExcept, pure_bind]
  rw [if_neg (by omega)]
  by_cases hless : n < k
  · rw [if_pos hless, if_pos (by omega)]
  · have hcount : (min ((min k (2 ^ 63 - 1) : Nat) : Int) (((min n (2 ^ 63 - 1) : Nat) : Int) - ((min k (2 ^ 63 - 1) : Nat) : Int))).toNat =
        min (min k (2 ^ 63 - 1)) (min n (2 ^ 63 - 1) - min k (2 ^ 63 - 1)) := by omega
    rw [if_neg hless, if_neg (by omega), hcount]

/-- The result is the nearest whole number to what the loop reaches, if that is finite on the way. -/
theorem exec_binomialOf {c : Context} (hc : c.Calm) {w : World} (hw : w.cancelled = false) (hx : IsValue x (n : ℚ))
    (hy : IsValue y (k : ℚ)) (hn : n ≤ 2 ^ 63) (hkn : k ≤ n) (hread : n < 2 ^ 63 ∨ min k (n - k) = 0)
    (hfinite : ∀ j ≤ min k (n - k), Double.isInfinite (multiplied n j) = false) :
    ∃ w', (binomialOf c x y).exec w = (.ok (Double.nearest (multiplied n (min k (n - k)))), w') := by
  have hloop : ∃ w', (binomialFrom c ((min n (2 ^ 63 - 1) : Nat) : Int) 0 1
      (min (min k (2 ^ 63 - 1)) (min n (2 ^ 63 - 1) - min k (2 ^ 63 - 1)))).exec w = (.ok (multiplied n (min k (n - k))), w') := by
    have hn63 := ne_of_isValue hx
    rcases hread with hsmall | hnone
    · have hcap : min n (2 ^ 63 - 1) = n := by omega
      have hcount : min (min k (2 ^ 63 - 1)) (n - min k (2 ^ 63 - 1)) = 0 + min k (n - k) := by omega
      obtain ⟨w', hrun⟩ := Run.exec_binomialFrom hc (i := 0) (min k (n - k)) (fun j hj => hfinite j (by omega)) w hw
      rw [hcap, hcount, Nat.zero_add]
      rw [Nat.zero_add] at hrun
      exact ⟨w', hrun⟩
    · -- the last number of 64 bits stands for the next, but nothing is multiplied
      have hcount : min (min k (2 ^ 63 - 1)) (min n (2 ^ 63 - 1) - min k (2 ^ 63 - 1)) = 0 := by omega
      rw [hcount, hnone]
      exact ⟨w, rfl⟩
  obtain ⟨w', hrun⟩ := hloop
  refine ⟨w', ?_⟩
  rw [binomialOf_natural c hx hy hn (hkn.trans hn), if_neg (Nat.not_lt.2 hkn), Run.exec_bind, hrun]
  rfl

/-- The binomial coefficient of two natural numbers is exact if it is below `2 ^ 51`, or has no more than 53 digits and all
products on the way are doubles. -/
theorem binomialOf_exact {c : Context} (hc : c.Calm) {w : World} (hw : w.cancelled = false) (hx : IsValue x (n : ℚ))
    (hy : IsValue y (k : ℚ)) (hn : n ≤ 2 ^ 63) (hk : k ≤ 2 ^ 63)
    (hvalue : n.choose k < 2 ^ 51 ∨ n.choose k ≤ 2 ^ 53 ∧ FactorsFit n (min k (n - k))) :
    ∃ r w', (binomialOf c x y).exec w = (.ok r, w') ∧ IsValue r (n.choose k : Nat) := by
  rcases Nat.lt_or_ge n k with hless | hge
  · rw [binomialOf_natural c hx hy hn hk, if_pos hless, Nat.choose_eq_zero_of_lt hless]
    exact ⟨0, w, rfl, by exact_mod_cast Double.isValue_ofInt (n := 0) (by decide)⟩
  · rw [← choose_min hge] at hvalue ⊢
    have hhalf : min k (n - k) ≤ n / 2 := by omega
    have hsmall : n ≤ 2 ^ 53 ∨ min k (n - k) = 0 := by
      rcases Nat.eq_zero_or_pos (min k (n - k)) with hnone | hsome
      · exact .inr hnone
      · have hfirst := (IsReached.mono hvalue hsome hhalf).le
        rw [Nat.choose_one_right] at hfirst
        exact .inl hfirst
    have hnear : ∀ j ≤ min k (n - k), Near (multiplied n j) (n.choose j : Nat) := by
      intro j hj
      rcases hsmall with hsmall | hnone
      · exact near_multiplied (hj.trans hhalf) hsmall (IsReached.mono hvalue hj hhalf)
      · obtain rfl : j = 0 := by omega
        exact near_multiplied_zero n
    obtain ⟨w', hrun⟩ := exec_binomialOf hc hw hx hy hn hge (hsmall.imp_left (·.trans_lt (by decide)))
      fun j hj => (hnear j hj).isInfinite
    exact ⟨_, w', hrun, by exact_mod_cast (hnear _ (Nat.le_refl _)).isValue_nearest⟩

theorem binomialOf_exact_middle : IsValue 50 (50 : Nat) ∧ IsValue 25 (25 : Nat) ∧ Nat.choose 50 25 = 126410606437752 ∧
    FactorsFit 50 25 ∧ ∃ r w', (binomialOf {} 50 25).exec {} = (.ok r, w') ∧ IsValue r (Nat.choose 50 25 : Nat) := by
  have hvalue : Nat.choose 50 25 = 126410606437752 := by
    norm_num [Nat.choose_eq_descFactorial_div_factorial]
  have hfit : FactorsFit 50 25 := factorsFit_of_le (by decide) (by rw [hvalue]; decide)
  have hn : IsValue 50 (50 : Nat) := Double.isValue_ofInt (n := 50) (by decide)
  have hk : IsValue 25 (25 : Nat) := Double.isValue_ofInt (n := 25) (by decide)
  exact ⟨hn, hk, hvalue, hfit, binomialOf_exact (Context.calm_of_no_host rfl) rfl hn hk (by decide) (by decide)
    (.inr ⟨by rw [hvalue]; decide, hfit⟩)⟩

/-- A product that is rounded leaves the result one too great, and numbers beyond 64 bits are refused, whatever their
coefficient. -/
theorem binomialOf_inexact :
    (IsValue 57 (57 : Nat) ∧ IsValue 22 (22 : Nat) ∧ Nat.choose 57 22 = 3489348548829780 ∧
      ∃ r, ((binomialOf {} 57 22).exec {}).1 = .ok r ∧ IsValue r (3489348548829781 : Nat)) ∧
    (IsValue 1e30 (1000000000000000019884624838656 : Nat) ∧ Nat.choose 1000000000000000019884624838656 0 = 1 ∧
      ((binomialOf {} 1e30 0).exec {}).1 =
        .error (.fault (.value Builtin.binomial.name (.notWhole "n" 1e30)))) := by
  have hn : IsValue 57 (57 : Nat) := Double.isValue_ofInt (n := 57) (by decide)
  have hk : IsValue 22 (22 : Nat) := Double.isValue_ofInt (n := 22) (by decide)
  refine ⟨⟨hn, hk, ?_, ?_⟩, ?_, Nat.choose_zero_right _, ?_⟩
  · norm_num [Nat.choose_eq_descFactorial_div_factorial]
  · have hvalues : Nat.choose 57 18 = 310325523515700 ∧ Nat.choose 57 21 < 2 ^ 51 := by
      norm_num [Nat.choose_eq_descFactorial_div_factorial]
    have hbefore := multiplied_eq (by decide) (by decide) (factorsFit_of_le (by decide) (by rw [hvalues.1]; decide)) hvalues.1
      (by decide)
    have hlast : Double.isInfinite (multiplied 57 22) = false ∧ Double.IsInt (Double.nearest (multiplied 57 22)) 3489348548829781 := by
      rw [multiplied, multiplied, multiplied, multiplied, hbefore]
      decide +kernel
    have hfinite : ∀ j ≤ 22, Double.isInfinite (multiplied 57 j) = false := by
      intro j hj
      rcases Nat.eq_or_lt_of_le hj with rfl | hless
      · exact hlast.1
      · exact (near_multiplied (by omega) (by decide) (IsReached.mono (.inl hvalues.2) (by omega) (by decide))).isInfinite
    obtain ⟨w', hrun⟩ := exec_binomialOf (c := {}) (w := {}) (Context.calm_of_no_host rfl) rfl hn hk (by decide) (by decide)
      (.inl (by decide)) hfinite
    exact ⟨_, congrArg Prod.fst hrun, Double.isInt_iff_isValue.1 hlast.2⟩
  · have hint : Double.IsInt 1e30 1000000000000000019884624838656 := by decide +kernel
    exact_mod_cast Double.isInt_iff_isValue.1 hint
  · decide +kernel

end Rowwise
