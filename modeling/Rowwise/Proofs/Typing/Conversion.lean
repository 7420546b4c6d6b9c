import Rowwise.Proofs.Constancy.Builders
import Rowwise.Proofs.Numbers.Missing

/-!
# Rowwise.Proofs.Typing.Conversion — conversions depend on types alone

Whether a value converts to a type is known from its type.  What comes out has the type, a missing value stays missing, and a
node converts to one that yields the converted values of the first in every row (`Node.conversion_lawful`).  Constants are
converted where the node is built, all else in the row; both ways go through `Value.cast`.
-/

namespace Rowwise

namespace Value

variable {zone : Zone} {v : Value} {target : ValueType}

/-! ### Missing values -/

theorem isMissing_missing (t : ValueType) : (missing t).isMissing = true := by
  cases t <;> rfl

/-- Each type has one missing value. -/
theorem isMissing_iff_missing : v.isMissing = true ↔ v = missing v.type := by
  constructor
  · intro h
    cases v with
    | integer x => exact congrArg integer (Double.isMissing_iff_nan.1 h)
    | double x => exact congrArg double (Double.isMissing_iff_nan.1 h)
    | text s => exact congrArg text (Option.isNone_iff_eq_none.1 h)
    | boolean b => exact congrArg boolean (Option.isNone_iff_eq_none.1 h)
    | instant t => exact congrArg instant (Option.isNone_iff_eq_none.1 h)
    | timeOfDay t => exact congrArg timeOfDay (Option.isNone_iff_eq_none.1 h)
    | textSet s => exact congrArg textSet (Option.isNone_iff_eq_none.1 h)
    | textList s => exact congrArg textList (Option.isNone_iff_eq_none.1 h)
  · intro h
    rw [h]
    exact isMissing_missing _

theorem castNumber_missing (t : ValueType) : (missing t).castNumber = Double.nan := by
  cases t <;> rfl

theorem castBoolean_missing (t : ValueType) : (missing t).castBoolean = none := by
  cases t <;> rfl

theorem toText?_missing (t : ValueType) : (missing t).toText? = none := by
  cases t <;> rfl

theorem castInstant_missing (t : ValueType) : (missing t).castInstant zone = none := by
  cases t <;> rfl

theorem castTimeOfDay_missing (t : ValueType) : (missing t).castTimeOfDay = none := by
  cases t <;> rfl

/-- A missing value converts to the missing value of the type. -/
theorem convert_missing (zone : Zone) (t target : ValueType) : (missing t).convert zone target = missing target := by
  cases target with
  | integer =>
    have hrounded : Double.halfUp Double.nan = Double.nan :=
      Double.isMissing_iff_nan.1 (Double.isMissing_halfUp Double.isMissing_nan)
    rw [convert, castNumber_missing, hrounded]
    rfl
  | double => exact congrArg double (castNumber_missing t)
  | text => exact congrArg text (toText?_missing t)
  | boolean => exact congrArg boolean (castBoolean_missing t)
  | instant => exact congrArg instant (castInstant_missing t)
  | timeOfDay => exact congrArg timeOfDay (castTimeOfDay_missing t)
  | textSet | textList => rfl

/-! ### Converted values -/

theorem cast_of_not_castable (h : v.type.castable target = false) :
    v.cast zone target = .error (.unconvertible v.type target) := by
  rw [cast, h]
  rfl

theorem type_converted (zone : Zone) (v : Value) (target : ValueType) : (v.converted zone target).type = target := by
  by_cases htype : v.type = target
  · rw [converted, if_pos htype, htype]
  · rw [converted, if_neg htype, type_convert]

theorem converted_self (htype : v.type = target) : v.converted zone target = v := if_pos htype

theorem converted_of_isMissing (zone : Zone) (target : ValueType) (h : v.isMissing = true) :
    v.converted zone target = missing target := by
  have hv := isMissing_iff_missing.1 h
  by_cases htype : v.type = target
  · rw [converted_self htype, hv, htype]
  · rw [converted, if_neg htype, hv, convert_missing]

end Value

namespace Node

open Run

variable {c : Context} {function : String} {n : Node} {target : ValueType}

/-! ### Converted nodes -/

theorem converted_of_not_castable (h : n.type.castable target = false) (w : World) :
    (converted c function n target).exec w = (.error (.fault (.type function (.unconvertible n.type target))), w) := by
  rw [converted, h]
  rfl

theorem convert_yields {eval : ValueType → String → Run Value} {v : Value} {w w' : World}
    (hv : (n.value c eval).exec w = (.ok v, w')) (hcast : v.type.castable target = true) :
    ((convert function target n).value c eval).exec w = (.ok (v.converted c.options.zone target), w') := by
  rw [value, exec_bind, hv]
  simp only [Value.cast_eq hcast]
  rfl

/-- A node of a type that converts becomes a constant if it is one, and yields in every row what its values convert to. -/
theorem converted_lawful (h : n.type.castable target = true) :
    ∃ m, (∀ w, (converted c function n target).exec w = (.ok m, w)) ∧ m.type = target ∧ m.isConstant = n.isConstant ∧
      ∀ eval w v w', (n.value c eval).exec w = (.ok v, w') → v.type = n.type →
        (m.value c eval).exec w = (.ok (v.converted c.options.zone target), w') := by
  unfold converted
  rw [if_pos h]
  by_cases htype : n.type = target
  · rw [if_pos htype]
    refine ⟨n, fun w => rfl, htype, rfl, fun eval w v w' hv hvtype => ?_⟩
    rwa [Value.converted_self (hvtype.trans htype)]
  rw [if_neg htype, fold]
  cases hconst : n.isConstant with
  | false =>
    have hfold : (convert function target n).isFoldable = false := hconst
    rw [hfold]
    exact ⟨convert function target n, fun w => rfl, rfl, rfl, fun eval w v w' hv hvtype => convert_yields hv (hvtype ▸ h)⟩
  -- a constant is converted at once
  | true =>
    have hfold : (convert function target n).isFoldable = true := hconst
    obtain ⟨u, rfl⟩ := exists_const hconst
    have hconstant : ∀ (eval : ValueType → String → Run Value) (w : World),
        ((const u).value c eval).exec w = (.ok u, w) := by
      intro eval w
      rw [value]
      rfl
    rw [if_pos hfold]
    refine ⟨const (u.converted c.options.zone target), fun w => ?_, Value.type_converted _ _ _, rfl,
      fun eval w v w' hv _ => ?_⟩
    · rw [exec_bind, convert_yields (hconstant _ w) h]
      rfl
    · rw [hconstant] at hv
      cases hv
      rw [value]
      rfl

/-- Conversion is typed, keeps missing values missing and fails by types alone: a value converts to a type just if its type
does, to a value of the type, which is the value itself if it has the type already; and a node converts just if its type does,
to a node that is constant just if the first is and yields, in every row in which the first yields a value of its type, what
the value converts to. -/
theorem conversion_lawful :
    (∀ (zone : Zone) (v : Value) (target : ValueType),
      (v.type.castable target = true → ∃ u, v.cast zone target = .ok u ∧ u.type = target ∧ (v.type = target → u = v) ∧
        (v.isMissing = true → u = .missing target)) ∧
      (v.type.castable target = false → v.cast zone target = .error (.unconvertible v.type target))) ∧
    ∀ (c : Context) (function : String) (n : Node) (target : ValueType),
      (n.type.castable target = true →
        ∃ m, (∀ w, (converted c function n target).exec w = (.ok m, w)) ∧ m.type = target ∧ m.isConstant = n.isConstant ∧
          ∀ eval w v w', (n.value c eval).exec w = (.ok v, w') → v.type = n.type →
            ∃ u, v.cast c.options.zone target = .ok u ∧ (m.value c eval).exec w = (.ok u, w')) ∧
      (n.type.castable target = false → ∀ w,
        (converted c function n target).exec w = (.error (.fault (.type function (.unconvertible n.type target))), w)) := by
  refine ⟨fun zone v target => ⟨fun h => ?_, Value.cast_of_not_castable⟩,
    fun c function n target => ⟨fun h => ?_, converted_of_not_castable⟩⟩
  · exact ⟨_, Value.cast_eq h, Value.type_converted zone v target, Value.converted_self, Value.converted_of_isMissing zone target⟩
  · obtain ⟨m, hbuilt, htype, hconst, hvalue⟩ := @converted_lawful c function n target h
    refine ⟨m, hbuilt, htype, hconst, fun eval w v w' hv hvtype => ?_⟩
    exact ⟨_, Value.cast_eq (hvtype ▸ h), hvalue eval w v w' hv hvtype⟩

theorem conversion_lawful_text :
    (Value.text none).cast .utc .integer = .ok (.missing .integer) ∧
    ∃ m, (∀ w, (converted {} "eval" (.varying (.text (some " 2.5 "))) .integer).exec w = (.ok m, w)) ∧ m.type = .integer ∧
      m.isConstant = false ∧ ∀ eval w, ((m.value {} eval).exec w).1 = .ok (.integer 3) := by
  obtain ⟨u, hcast, -, -, hmissing⟩ := (conversion_lawful.1 .utc (.text none) .integer).1 rfl
  rw [hcast, hmissing rfl]
  obtain ⟨m, hbuilt, htype, hconst, hvalue⟩ :=
    (conversion_lawful.2 {} "eval" (.varying (.text (some " 2.5 "))) .integer).1 rfl
  refine ⟨rfl, m, hbuilt, htype, hconst, fun eval w => ?_⟩
  have hyields : ((varying (.text (some " 2.5 "))).value {} eval).exec w =
      (.ok (.text (some " 2.5 ")), { w with events := .supplied :: w.events }) := by
    rw [value]
    rfl
  have hnumber : (Value.text (some " 2.5 ")).cast ({} : Context).options.zone .integer = .ok (.integer 3) := by decide +kernel
  obtain ⟨u, hu, hm⟩ := hvalue eval w _ _ hyields rfl
  rw [hnumber] at hu
  cases hu
  rw [hm]

end Node

end Rowwise
