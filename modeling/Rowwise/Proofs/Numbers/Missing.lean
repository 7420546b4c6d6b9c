import Rowwise.Proofs.Evaluation.Functions
import Rowwise.Proofs.Numbers.Comparison
import Rowwise.Proofs.Numbers.Whole

/-!
# Rowwise.Proofs.Numbers.Missing — missing numbers stay missing

What a number is computed from is missing if one of its operands is (`Double.isMissing_add_left`, `isMissing_div_left` and so
on), and rounding leaves a missing number as it is.  So the functions of mathematics pass missing numbers on, with one
exception: rounding judges the number of digits before it looks at the number (`NumberFunction.run_of_missing`,
`run_of_fraction`).  Functions of any number of numbers pass them on from every place (`Aggregate.run_of_missing`).
-/

namespace Rowwise

namespace Double

open Float.Model

variable {x y : Float}

theorem isMissing_nan : isMissing nan = true := by decide

/-- There is one missing number: the bits of NaN are always the same. -/
theorem isMissing_iff_nan : isMissing x = true ↔ x = nan := by
  constructor
  · intro h
    obtain ⟨⟨⟨bits⟩, hvalid⟩⟩ := x
    rw [isMissing, Bool.and_eq_true, beq_iff_eq, bne_iff_ne] at h
    have hexponent : @UnpackedFloat.unpackExponent .binary64 bits = -1#11 :=
      (Unpacked.eq_neg_one_iff _).2 ((Unpacked.toNat_unpackExponent bits).trans h.1)
    have hmantissa : @UnpackedFloat.unpackMantissa .binary64 bits ≠ 0#52 := by
      rw [Ne, Unpacked.eq_zero_iff, Unpacked.toNat_unpackMantissa]
      exact h.2
    have hbits : bits = UnpackedFloat.packedNaN .binary64 := hvalid.eq_packedNaN hexponent hmantissa
    subst hbits
    rfl
  · rintro rfl
    exact isMissing_nan

/-! ### Arithmetic -/

theorem isMissing_pack {u : UnpackedFloat} (h : u = .notANumber) : isMissing (.ofModel (.pack u)) = true := by
  subst h
  decide

theorem isMissing_add_left (hx : isMissing x = true) (y : Float) : isMissing (x + y) = true := by
  rw [isMissing_iff] at hx
  have hsum : UnpackedFloat.add .binary64 x.toModel.unpack y.toModel.unpack = .notANumber := by
    rw [hx]
    rfl
  exact isMissing_pack hsum

theorem isMissing_add_right (x : Float) (hy : isMissing y = true) : isMissing (x + y) = true := by
  rw [isMissing_iff] at hy
  have hsum : UnpackedFloat.add .binary64 x.toModel.unpack y.toModel.unpack = .notANumber := by
    rw [hy]
    cases x.toModel.unpack <;> rfl
  exact isMissing_pack hsum

theorem isMissing_sub_left (hx : isMissing x = true) (y : Float) : isMissing (x - y) = true := by
  rw [isMissing_iff] at hx
  have hdifference : UnpackedFloat.sub .binary64 x.toModel.unpack y.toModel.unpack = .notANumber := by
    rw [hx]
    rfl
  exact isMissing_pack hdifference

theorem isMissing_div_left (hx : isMissing x = true) (y : Float) : isMissing (x / y) = true := by
  rw [isMissing_iff] at hx
  have hquotient : UnpackedFloat.div .binary64 x.toModel.unpack y.toModel.unpack = .notANumber := by
    rw [hx]
    rfl
  exact isMissing_pack hquotient

theorem isMissing_sqrt (hx : isMissing x = true) : isMissing x.sqrt = true := by
  rw [isMissing_iff] at hx
  have hroot : UnpackedFloat.sqrt .binary64 x.toModel.unpack = .notANumber := by
    rw [hx]
    rfl
  exact isMissing_pack hroot

theorem isMissing_abs (hx : isMissing x = true) : isMissing x.abs = true := by
  rw [isMissing_iff] at hx
  have habs : x.toModel.unpack.abs = .notANumber := by
    rw [hx]
    rfl
  exact isMissing_pack habs

/-! ### Rounding -/

theorem isFinite_of_isMissing (hx : isMissing x = true) : isFinite x = false := by
  have hfield := (Bool.and_eq_true_iff.1 hx).1
  simpa [isFinite] using hfield

theorem parts?_of_isMissing (hx : isMissing x = true) : parts? x = none := by
  have hfield := (Bool.and_eq_true_iff.1 hx).1
  exact if_pos (eq_of_beq hfield)

theorem round_of_isMissing (r : Rounding) (hx : isMissing x = true) : round r x = x := by
  rw [round, parts?_of_isMissing hx]

theorem isMissing_round (r : Rounding) (hx : isMissing x = true) : isMissing (round r x) = true := by
  rwa [round_of_isMissing r hx]

theorem isMissing_halfUp (hx : isMissing x = true) : isMissing (halfUp x) = true :=
  isMissing_round .down (isMissing_add_left hx 0.5)

theorem isMissing_roundTo (hx : isMissing x = true) (digits : Int) : isMissing (roundTo x digits) = true := by
  have hstays : roundTo x digits = x := by simp [roundTo, isFinite_of_isMissing hx]
  rwa [hstays]

theorem isMissing_sign (hx : isMissing x = true) : isMissing (sign x) = true := by
  have habs : sign x = x.abs := by simp [sign, hx]
  rw [habs]
  exact isMissing_abs hx

theorem isMissing_halfEven (hx : isMissing x = true) : isMissing (halfEven x) = true := by
  have hnearest : isMissing (nearest x) = true := isMissing_round .nearestAway hx
  unfold halfEven
  dsimp only
  split
  · exact isMissing_sub_left hnearest _
  · exact hnearest

end Double

open Double

/-! ### Functions of numbers -/

theorem isMissing_ofPresent (f : Float → Float) {x : Float} (hx : isMissing x = true) : isMissing (ofPresent f x) = true := by
  rw [ofPresent, if_pos hx]
  exact isMissing_nan

theorem isMissing_ofBothPresent (f : Float → Float → Float) {x y : Float} (h : (isMissing x || isMissing y) = true) :
    isMissing (ofBothPresent f x y) = true := by
  rw [ofBothPresent, if_pos h]
  exact isMissing_nan

theorem onBits_of_missing (f : BitVec 64 → BitVec 64 → BitVec 64) {x y : Float} (h : (isMissing x || isMissing y) = true) :
    onBits f x y = .ok nan := if_pos h

namespace NumberFunction

/-- Every function of one number is missing where the number is. -/
theorem isMissing_unary {f : NumberFunction} {g : Float → Float} (hg : f.unary? = some g) (hf : f ≠ .negate) {x : Float}
    (hx : isMissing x = true) : isMissing (g x) = true := by
  cases f with
  | negate => exact absurd rfl hf
  | squareRoot =>
    cases hg
    exact isMissing_sqrt hx
  | sign =>
    cases hg
    exact isMissing_sign hx
  | absolute =>
    cases hg
    exact isMissing_abs hx
  | floor | ceiling =>
    cases hg
    exact isMissing_round _ hx
  | halfEven =>
    cases hg
    exact isMissing_halfEven hx
  | _ =>
    first
    | cases hg; exact isMissing_ofPresent _ hx
    | cases hg

/-- The function rounds to a number of digits that is there but not whole. -/
def RoundsToFraction (f : NumberFunction) (xs : List Float) : Prop :=
  f = .round ∧ ∃ x digits, xs = [x, digits] ∧ isMissing digits = false ∧
    wholeNumber "number of digits" digits = .error (.notWhole "number of digits" digits)

theorem wholeNumber_total (what : String) (x : Float) :
    (∃ n, wholeNumber what x = .ok n) ∨ wholeNumber what x = .error (.notWhole what x) := by
  unfold wholeNumber
  split
  · exact Or.inr rfl
  · split
    · exact Or.inl ⟨_, rfl⟩
    · exact Or.inr rfl

theorem run_one {f : NumberFunction} (hf : f.signature.group = "math") (htakes : f.takes 1 = true) {x : Float}
    (hx : isMissing x = true) : f.run [x] = .ok nan := by
  have hunary : ∀ g, f.unary? = some g → g x = nan := by
    intro g hg
    have hnegate : f ≠ .negate := by
      rintro rfl
      exact absurd hf (by decide)
    exact isMissing_iff_nan.1 (isMissing_unary hg hnegate hx)
  cases f with
  | round => exact congrArg Except.ok (isMissing_iff_nan.1 (isMissing_roundTo hx 0))
  | bitNot => exact if_pos hx
  | _ => first | exact congrArg Except.ok (hunary _ rfl) | exact absurd htakes Bool.false_ne_true

/-- Two whole numbers are read only if both are there. -/
theorem run_two {f : NumberFunction} (hf : f.signature.group = "math") (htakes : f.takes 2 = true) {x y : Float}
    (hmissing : (isMissing x || isMissing y) = true) (hround : ¬ f.RoundsToFraction [x, y]) : f.run [x, y] = .ok nan := by
  cases f with
  | round =>
    show (if _ then _ else _) = _
    by_cases hy : isMissing y = true
    · exact if_pos hy
    have hx : isMissing x = true := by simpa [hy] using hmissing
    rw [if_neg hy]
    rcases wholeNumber_total "number of digits" y with ⟨n, hn⟩ | hfraction
    · rw [hn]
      exact congrArg Except.ok (isMissing_iff_nan.1 (isMissing_roundTo hx n))
    · exact absurd ⟨rfl, x, y, rfl, Bool.eq_false_iff.2 hy, hfraction⟩ hround
  | angle => exact congrArg Except.ok (isMissing_iff_nan.1 (isMissing_ofBothPresent _ hmissing))
  | bitOr | bitAnd | bitXor => exact onBits_of_missing _ hmissing
  | _ => first | exact absurd hf (by decide) | exact absurd htakes Bool.false_ne_true

/-- A function of mathematics is missing where one of its arguments is, unless it rounds to a fraction of digits. -/
theorem run_of_missing {f : NumberFunction} (hf : f.signature.group = "math") {xs : List Float}
    (htakes : f.takes xs.length = true) (hmissing : ∃ x ∈ xs, isMissing x = true) (hround : ¬ f.RoundsToFraction xs) :
    f.run xs = .ok nan := by
  obtain ⟨z, hz, hzmissing⟩ := hmissing
  match xs, htakes with
  | [], _ => cases hz
  | [x], htakes =>
    rw [List.mem_singleton] at hz
    exact run_one hf htakes (hz ▸ hzmissing)
  | [x, y], htakes =>
    refine run_two hf htakes ?_ hround
    rcases List.mem_cons.1 hz with rfl | hz
    · rw [hzmissing, Bool.true_or]
    · rw [← List.mem_singleton.1 hz, hzmissing, Bool.or_true]
  | _ :: _ :: _ :: _, htakes => cases f <;> exact absurd htakes Bool.false_ne_true

/-- Whatever is rounded, a fraction of digits is a fault. -/
theorem run_of_fraction {f : NumberFunction} {xs : List Float} (h : f.RoundsToFraction xs) :
    ∃ digits ∈ xs, f.run xs = .error (.notWhole "number of digits" digits) := by
  obtain ⟨rfl, x, digits, rfl, hpresent, hfraction⟩ := h
  refine ⟨digits, by simp, ?_⟩
  show (if _ then _ else _) = _
  rw [if_neg (Bool.eq_false_iff.1 hpresent), hfraction]
  rfl

end NumberFunction

/-! ### Functions of any number of arguments -/

namespace Aggregate

theorem isMissing_pick (better : Float → Float → Bool) {xs : List Float} (h : ∃ x ∈ xs, isMissing x = true) :
    isMissing (pick better xs) = true := by
  have hany : xs.any isMissing = true := List.any_eq_true.2 h
  unfold pick
  rw [if_pos hany]
  exact isMissing_nan

/-- A sum that is missing stays so. -/
theorem isMissing_foldl_add {x : Float} (hx : isMissing x = true) (xs : List Float) :
    isMissing (xs.foldl (· + ·) x) = true := by
  induction xs generalizing x with
  | nil => exact hx
  | cons y ys ih => exact ih (isMissing_add_left hx y)

theorem isMissing_total {xs : List Float} (h : ∃ x ∈ xs, isMissing x = true) : isMissing (total xs) = true := by
  obtain ⟨x, hx, hmissing⟩ := h
  obtain ⟨before, after, rfl⟩ := List.append_of_mem hx
  rw [total, List.foldl_append, List.foldl_cons]
  exact isMissing_foldl_add (isMissing_add_right _ hmissing) after

/-- All functions of any number of numbers are missing if one of these is. -/
theorem run_of_missing {f : Aggregate} (hf : f ≠ .concat) (type : ValueType) {vs : List Value}
    (h : ∃ x ∈ vs.map Value.toNumber, isMissing x = true) : f.run type vs = .number type nan := by
  cases f with
  | least | greatest => exact congrArg (Value.number type) (isMissing_iff_nan.1 (isMissing_pick _ h))
  | sum => exact congrArg (Value.number type) (isMissing_iff_nan.1 (isMissing_total h))
  | mean =>
    exact congrArg (Value.number type) (isMissing_iff_nan.1 (isMissing_div_left (isMissing_total h) _))
  | concat => exact absurd rfl hf

end Aggregate

end Rowwise
