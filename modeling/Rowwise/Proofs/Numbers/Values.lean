import Rowwise.Eval.Evaluate
import Rowwise.Proofs.Evaluation.Functions
import Rowwise.Proofs.Numbers.Whole

/-!
# Rowwise.Proofs.Numbers.Values — functions that keep whole numbers whole

A value of the type of whole numbers is meant to have no fraction (`Value.IsWhole`).  Conversions to this type make it so, and
functions whose results are of this type keep it so, with two reservations: a whole number that is rounded to some digits need
not be whole, and powers are as accurate as the power function is (`Event.Exact`).
-/

namespace Rowwise

open Double (IsIntegral)

/-! ### Whole values -/

namespace Value

/-- A value of the type of whole numbers has no fraction; other values are as they may be. -/
def IsWhole : Value → Prop
  | integer x => IsIntegral x
  | _ => True

instance : DecidablePred IsWhole := fun v => by
  cases v <;> unfold IsWhole <;> infer_instance

variable {v u : Value} {t : ValueType}

theorem isWhole_of_type (h : v.type ≠ .integer) : v.IsWhole := by
  cases v <;> first | exact trivial | exact absurd rfl h

theorem isWhole_missing (t : ValueType) : (missing t).IsWhole := by
  cases t with
  | integer => exact Double.isIntegral_nan
  | _ => trivial

theorem isWhole_ofInt (n : Int) : (ofInt n).IsWhole := Double.isIntegral_ofInt n

theorem isWhole_number {x : Float} (h : t = .integer → IsIntegral x) : (number t x).IsWhole := by
  cases t with
  | integer => exact h rfl
  | _ => trivial

theorem isIntegral_toNumber (h : v.IsWhole) (ht : v.type = .integer) : IsIntegral v.toNumber := by
  cases v with
  | integer x => exact h
  | _ => cases ht

theorem isWhole_retag (h : v.IsWhole) (ht : v.type = t) : (v.retag t).IsWhole := by
  unfold retag
  split
  · exact isWhole_number fun hinteger => isIntegral_toNumber h (ht.trans hinteger)
  · exact h

/-- A conversion to whole numbers rounds. -/
theorem isWhole_cast {zone : Zone} (h : v.cast zone t = .ok u) (hv : v.IsWhole) : u.IsWhole := by
  unfold cast at h
  split at h
  · cases h
    split
    · exact hv
    · cases t with
      | integer => exact Double.isIntegral_halfUp _
      | _ => trivial
  · cases h

end Value

/-! ### Types of whole numbers -/

theorem ValueType.join_eq_integer {a b : ValueType} (h : a.join b = .integer) : a = .integer ∧ b = .integer := by
  unfold join at h
  split at h
  · assumption
  · cases h

theorem ValueType.foldl_join_eq_integer {ts : List ValueType} {t : ValueType} (h : ts.foldl join t = .integer) :
    t = .integer ∧ ∀ u ∈ ts, u = .integer := by
  induction ts generalizing t with
  | nil => exact ⟨h, by simp⟩
  | cons u ts ih =>
    obtain ⟨hjoin, htail⟩ := ih h
    obtain ⟨ht, hu⟩ := join_eq_integer hjoin
    exact ⟨ht, List.forall_mem_cons.2 ⟨hu, htail⟩⟩

/-- What stands for no fraction in an event: no function of the host is called, a whole number that is rounded to some digits
stays whole, and powers are taken by a power function that is as accurate as one expects. -/
def Event.Exact : Event → Prop
  | applied (.number .round) [.integer x, digits] =>
    ∀ n, wholeNumber "number of digits" digits.toNumber = .ok n → IsIntegral (Double.roundTo x n)
  | applied (.number .power) _ => Double.PowerStandard
  | built _ _ => False
  | _ => True

/-- Decides whether the event is exact, but for powers. -/
def Event.isExact : Event → Bool
  | applied (.number .round) [.integer x, digits] =>
    match wholeNumber "number of digits" digits.toNumber with
    | .ok n => decide (Double.IsIntegral (Double.roundTo x n))
    | .error _ => true
  | applied (.number .power) _ => false
  | built _ _ => false
  | _ => true

theorem Event.exact_of_isExact {e : Event} (h : e.isExact = true) : e.Exact := by
  unfold Exact
  split
  · intro n hn
    simp only [isExact, hn] at h
    exact of_decide_eq_true h
  · cases (show false = true from h)
  · cases (show false = true from h)
  · trivial

namespace NumberFunction

/-- The results for these arguments are of the type of whole numbers. -/
def IsInteger (f : NumberFunction) (args : List Value) : Prop :=
  match f, args with
  | power, [.integer _, .integer e] => 0 ≤ e
  | power, _ => False
  | f, args => f.result (args.map Value.type) = .integer

variable {f : NumberFunction} {args : List Value} {v u : Value} {x : Float}

theorem isIntegral_onBits {g : BitVec 64 → BitVec 64 → BitVec 64} {x y z : Float} (h : onBits g x y = .ok z) :
    IsIntegral z := by
  unfold onBits at h
  split at h
  · cases h
    exact Double.isIntegral_nan
  · cases ha : wholeNumber "argument 1" x with
    | error cause => rw [ha] at h; cases h
    | ok a =>
      cases hb : wholeNumber "argument 2" y with
      | error cause => rw [ha, hb] at h; cases h
      | ok b =>
        rw [ha, hb] at h
        cases h
        exact Double.isIntegral_ofInt _

theorem isIntegral_run_one (hrun : f.run [v.toNumber] = .ok x) (htype : f.IsInteger [v]) (hv : v.IsWhole) :
    IsIntegral x := by
  cases f with
  | negate =>
    cases hrun
    exact Double.isIntegral_neg (Value.isIntegral_toNumber hv htype)
  | absolute =>
    cases hrun
    exact Double.isIntegral_abs (Value.isIntegral_toNumber hv htype)
  | sign =>
    cases hrun
    exact Double.isIntegral_sign _
  | floor | ceiling =>
    cases hrun
    exact Double.isIntegral_round _ _
  | halfEven =>
    cases hrun
    exact Double.isIntegral_halfEven _
  | round =>
    cases hrun
    exact Double.isIntegral_roundTo_zero _
  | bitNot =>
    change (if _ then _ else _) = _ at hrun
    split at hrun
    · cases hrun
      exact Double.isIntegral_nan
    · cases hn : wholeNumber "argument" v.toNumber with
      | error cause => rw [hn] at hrun; cases hrun
      | ok n =>
        rw [hn] at hrun
        cases hrun
        exact Double.isIntegral_ofInt _
  | _ =>
    first
    | exact absurd (show ValueType.double = .integer from htype) (by decide)
    | cases hrun

theorem isIntegral_run_two (hrun : f.run [v.toNumber, u.toNumber] = .ok x) (htype : f.IsInteger [v, u])
    (hexact : (Event.applied (.number f) [v, u]).Exact) (hv : v.IsWhole) (hu : u.IsWhole) : IsIntegral x := by
  have hboth : (([v, u].map Value.type).foldl ValueType.join .integer) = .integer →
      IsIntegral v.toNumber ∧ IsIntegral u.toNumber := by
    intro hjoin
    have hall := (ValueType.foldl_join_eq_integer hjoin).2
    exact ⟨Value.isIntegral_toNumber hv (hall _ (by simp)), Value.isIntegral_toNumber hu (hall _ (by simp))⟩
  cases f with
  | add =>
    cases hrun
    exact Double.isIntegral_add (hboth htype).1 (hboth htype).2
  | subtract =>
    cases hrun
    exact Double.isIntegral_sub (hboth htype).1 (hboth htype).2
  | multiply =>
    cases hrun
    exact Double.isIntegral_mul (hboth htype).1 (hboth htype).2
  | remainder =>
    cases hrun
    exact Double.isIntegral_remainder (hboth htype).1 (hboth htype).2
  | power =>
    cases v with
    | integer a =>
      cases u with
      | integer e =>
        cases hrun
        exact Double.isIntegral_pow hexact hv hu htype
      | _ => exact htype.elim
    | _ => exact htype.elim
  | round =>
    cases v with
    | integer a =>
      change (if _ then _ else _) = _ at hrun
      split at hrun
      · cases hrun
        exact Double.isIntegral_nan
      · cases hn : wholeNumber "number of digits" u.toNumber with
        | error cause => rw [hn] at hrun; cases hrun
        | ok n =>
          rw [hn] at hrun
          cases hrun
          exact hexact n hn
    | _ => exact nomatch htype
  | bitOr | bitAnd | bitXor => exact isIntegral_onBits hrun
  | _ =>
    first
    | exact absurd (show ValueType.double = .integer from htype) (by decide)
    | cases hrun

/-- Functions of numbers keep whole numbers whole. -/
theorem isIntegral_run (hrun : f.run (args.map Value.toNumber) = .ok x) (htype : f.IsInteger args)
    (hexact : (Event.applied (.number f) args).Exact) (hargs : ∀ v ∈ args, v.IsWhole) : IsIntegral x := by
  match args with
  | [] => cases f <;> cases hrun
  | [v] => exact isIntegral_run_one hrun htype (hargs v (by simp))
  | [v, u] => exact isIntegral_run_two hrun htype hexact (hargs v (by simp)) (hargs u (by simp))
  | _ :: _ :: _ :: _ => cases f <;> cases hrun

end NumberFunction

/-! ### Functions of other values -/

/-- If there is a result it is whole. -/
def YieldsWhole (r : Except ValueCause Value) : Prop := ∀ v, r = .ok v → v.IsWhole

section YieldsWhole

variable {α : Type} {v : Value}

theorem YieldsWhole.ok (h : v.IsWhole) : YieldsWhole (.ok v) := by
  rintro u ⟨⟩
  exact h

theorem YieldsWhole.error (cause : ValueCause) : YieldsWhole (.error cause) := fun _ h => nomatch h

theorem YieldsWhole.bind {x : Except ValueCause α} {f : α → Except ValueCause Value} (h : ∀ a, YieldsWhole (f a)) :
    YieldsWhole (x >>= f) := by
  cases x with
  | ok a => exact h a
  | error cause => exact .error cause

end YieldsWhole

/-- Lengths, positions and orders of texts are whole. -/
theorem TextFunction.yieldsWhole_run {f : TextFunction} (h : f.result = .integer) (args : List Value) :
    YieldsWhole (f.run args) := by
  have hrun : f.run args = if args.any Value.isMissing then .ok (.missing f.result) else f.runPresent args := by
    cases f with
    | text | parse => cases h
    | _ => rfl
  rw [hrun]
  split
  · exact .ok (Value.isWhole_missing _)
  · cases f with
    | length | index | compare =>
      unfold runPresent
      split <;> try contradiction
      · exact .ok (Value.isWhole_ofInt _)
      · exact .error _
    | _ => cases h

/-- Differences and fields of instants and times of day are whole. -/
theorem CalendarFunction.yieldsWhole_run (zone : Zone) {f : CalendarFunction} (h : f.result = .integer) (args : List Value) :
    YieldsWhole (f.run zone args) := by
  have hofInt : ∀ x : Except ValueCause Int, YieldsWhole (x >>= fun n => .ok (.ofInt n)) := fun x =>
    .bind fun n => .ok (Value.isWhole_ofInt n)
  have hrest : YieldsWhole (if f.required ≤ args.length then .ok (.missing f.result) else .error .lostArgument) := by
    split
    · exact .ok (Value.isWhole_missing _)
    · exact .error _
  cases f with
  | dateDiff =>
    unfold run
    split <;> try contradiction
    · refine .bind fun unit => .bind fun z? => ?_
      cases z? with
      | some z => exact hofInt _
      | none => exact .ok (Value.isWhole_missing _)
    · exact hrest
  | dateGet =>
    unfold run
    split <;> try contradiction
    · refine .bind fun unit => .bind fun z? => ?_
      cases z? with
      | some z => exact .ok (Value.isWhole_ofInt _)
      | none => exact .ok (Value.isWhole_missing _)
    · exact hrest
  | dateMillis =>
    unfold run
    split <;> try contradiction
    · exact .ok (Value.isWhole_ofInt _)
    · exact hrest
  | timeDiff | timeGet =>
    unfold run
    split <;> try contradiction
    · exact .bind fun unit => .ok (Value.isWhole_ofInt _)
    · exact hrest
  | _ => cases h

/-! ### All functions of values -/

namespace StrictFunction

/-- The results for these arguments are of the type of whole numbers. -/
def IsInteger (f : StrictFunction) (args : List Value) : Prop :=
  match f with
  | number f => f.IsInteger args
  | text f => f.result = .integer
  | calendar f => f.result = .integer
  | _ => False

/-- Functions of values keep whole numbers whole. -/
theorem isWhole_run {zone : Zone} {f : StrictFunction} {type : ValueType} {args : List Value} {v : Value}
    (hrun : f.run zone type args = .ok v) (hv : v.type = type) (htype : type = .integer → f.IsInteger args)
    (hexact : (Event.applied f args).Exact) (hargs : ∀ u ∈ args, u.IsWhole) : v.IsWhole := by
  by_cases hinteger : type = .integer
  · have hgives := htype hinteger
    cases f with
    | number f =>
      cases hx : f.run (args.map Value.toNumber) with
      | error cause =>
        rw [run, hx] at hrun
        cases hrun
      | ok x =>
        rw [run, hx] at hrun
        cases hrun
        exact Value.isWhole_number fun _ => f.isIntegral_run hx hgives hexact hargs
    | text f => exact TextFunction.yieldsWhole_run hgives args v hrun
    | calendar f => exact CalendarFunction.yieldsWhole_run zone hgives args v hrun
    | _ => exact hgives.elim
  · exact Value.isWhole_of_type (hv ▸ hinteger)

end StrictFunction

namespace Aggregate

/-- The type of the results, for arguments of these types. -/
def result (f : Aggregate) (types : List ValueType) : ValueType :=
  match f with
  | concat => .text
  | mean => .double
  | _ => types.foldl ValueType.join .integer

variable {xs : List Float}

theorem isIntegral_foldl {f : Float → Float → Float} {x : Float} (hf : ∀ a b, IsIntegral a → IsIntegral b → IsIntegral (f a b))
    (hx : IsIntegral x) (hxs : ∀ y ∈ xs, IsIntegral y) : IsIntegral (xs.foldl f x) := by
  induction xs generalizing x with
  | nil => exact hx
  | cons y ys ih =>
    obtain ⟨hy, hys⟩ := List.forall_mem_cons.1 hxs
    exact ih (hf x y hx hy) hys

theorem isIntegral_pick (better : Float → Float → Bool) (hxs : ∀ y ∈ xs, IsIntegral y) : IsIntegral (pick better xs) := by
  unfold pick
  split
  · exact Double.isIntegral_nan
  · split
    · exact Double.isIntegral_nan
    · obtain ⟨hx, htail⟩ := List.forall_mem_cons.1 hxs
      refine isIntegral_foldl (fun a b ha hb => ?_) hx htail
      split
      · exact hb
      · exact ha

theorem isIntegral_total (hxs : ∀ y ∈ xs, IsIntegral y) : IsIntegral (total xs) := by
  have hzero : IsIntegral (-0.0) := by decide +kernel
  exact isIntegral_foldl (fun _ _ => Double.isIntegral_add) hzero hxs

/-- Functions of any number of arguments keep whole numbers whole. -/
theorem isWhole_run (f : Aggregate) {args : List Value} (hargs : ∀ v ∈ args, v.IsWhole) :
    (f.run (f.result (args.map Value.type)) args).IsWhole := by
  have hnumbers : (args.map Value.type).foldl ValueType.join .integer = .integer →
      ∀ x ∈ args.map Value.toNumber, IsIntegral x := by
    intro hjoin x hx
    obtain ⟨v, hv, rfl⟩ := List.mem_map.1 hx
    have hall := (ValueType.foldl_join_eq_integer hjoin).2
    exact Value.isIntegral_toNumber (hargs v hv) (hall _ (List.mem_map_of_mem hv))
  cases f with
  | concat | mean => trivial
  | least | greatest => exact Value.isWhole_number fun hjoin => isIntegral_pick _ (hnumbers hjoin)
  | sum => exact Value.isWhole_number fun hjoin => isIntegral_total (hnumbers hjoin)

end Aggregate

end Rowwise
