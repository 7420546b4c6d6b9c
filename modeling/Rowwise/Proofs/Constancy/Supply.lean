import Mathlib.Data.List.Forall2
import Rowwise.Proofs.Constancy.Results
import Rowwise.Proofs.Evaluation.Folding
import Rowwise.Proofs.Evaluation.Functions

/-!
# Rowwise.Proofs.Constancy.Supply — arguments that are constant and arguments that rows supply

A value is supplied to a function by a constant, or by a node of its type that yields it in the row (`Node.Supplies`).
What a node yields for supplied arguments does not depend on which of them are constant, and if it is folded it yields that
before any row is read (`Node.Settles`).
-/

namespace Rowwise.Node

open Run

variable {c : Context} {fuel : Nat} {w w₀ w₁ : World}

/-! ### Supplied arguments -/

/-- The node is a constant of this value, or cannot be folded and yields the value in the row. -/
inductive Supplies (c : Context) (fuel : Nat) (w : World) : Node → Value → Prop where
  | const (v : Value) : Supplies c fuel w (.const v) v
  | row {n : Node} {v : Value} : n.isFoldable = false → n.type = v.type → Yields w (n.value c (c.rowText fuel)) v →
      Supplies c fuel w n v

/-- The nodes supply the values, each at its place. -/
abbrev SuppliesAll (c : Context) (fuel : Nat) (w : World) : List Node → List Value → Prop :=
  List.Forall₂ (Supplies c fuel w)

theorem const_gives (v : Value) : Gives w ((const v).value c (c.rowText fuel)) (.ok v) := by
  rw [value]
  exact .pure v

namespace Supplies

variable {n : Node} {v : Value}

theorem varying (v : Value) : Supplies c fuel w (.varying v) v := by
  refine .row rfl rfl ?_
  rw [value]
  exact ((Gives.note .supplied).after (.pure v)).yields

theorem gives (h : Supplies c fuel w n v) : Gives w (n.value c (c.rowText fuel)) (.ok v) := by
  cases h with
  | const => exact const_gives v
  | row _ _ hyields =>
    have hkeeps := Contract.frames_agreeing.rowText_meets (c := c) fuel
    exact .of_yields (Contract.frames_agreeing.value_meets hkeeps n.readsOnly_true) hyields

theorem type_eq (h : Supplies c fuel w n v) : n.type = v.type := by
  cases h with
  | const => rfl
  | row _ htype _ => exact htype

/-- A node that can be folded supplies its value as a constant. -/
theorem eq_const (h : Supplies c fuel w n v) (hn : n.isFoldable = true) : n = .const v := by
  cases h with
  | const => rfl
  | row hfold _ _ => rw [hfold] at hn; cases hn

theorem eq_const_of_constant (h : Supplies c fuel w n v) (hn : n.isConstant = true) : n = .const v := by
  obtain ⟨u, rfl⟩ := exists_const hn
  exact h.eq_const rfl

theorem constant? (h : Supplies c fuel w n v) : n.constant? = none ∨ n = .const v := by
  cases hn : n.constant? with
  | none => exact Or.inl rfl
  | some u => exact Or.inr (h.eq_const_of_constant (by rw [isConstant, hn]; rfl))

end Supplies

namespace SuppliesAll

variable {args : List Node} {vs : List Value}

theorem consts (vs : List Value) : SuppliesAll c fuel w (vs.map .const) vs := by
  induction vs with
  | nil => exact .nil
  | cons v vs ih => exact .cons (.const v) ih

theorem types_consts (vs : List Value) : (vs.map Node.const).map Node.type = vs.map Value.type := by
  simp [Node.type, Function.comp_def]

theorem types_eq (h : SuppliesAll c fuel w args vs) : args.map Node.type = vs.map Value.type := by
  induction h with
  | nil => rfl
  | cons hn _ ih => rw [List.map_cons, List.map_cons, hn.type_eq, ih]

theorem length_eq (h : SuppliesAll c fuel w args vs) : args.length = vs.length := List.Forall₂.length_eq h

theorem eq_consts (h : SuppliesAll c fuel w args vs) (hargs : args.all isConstant = true) : args = vs.map .const := by
  induction h with
  | nil => rfl
  | cons hn _ ih =>
    rw [List.all_cons, Bool.and_eq_true] at hargs
    rw [List.map_cons, hn.eq_const_of_constant hargs.1, ih hargs.2]

end SuppliesAll

/-! ### Values of supplied arguments -/

theorem values_gives {args : List Node} {vs : List Value} (h : SuppliesAll c fuel w args vs) :
    Gives w (values c (c.rowText fuel) args) (.ok vs) := by
  induction h with
  | nil =>
    rw [values]
    exact .pure []
  | cons hn _ ih =>
    rw [values]
    exact hn.gives.after (ih.after (.pure _))

theorem polledValues_gives (hc : c.Calm) (hw : w.cancelled = false) {args : List Node} {vs : List Value}
    (h : SuppliesAll c fuel w args vs) : Gives w (polledValues c (c.rowText fuel) args) (.ok vs) := by
  induction h with
  | nil =>
    rw [polledValues]
    exact .pure []
  | cons hn _ ih =>
    rw [polledValues]
    exact (Gives.poll hc hw).after (hn.gives.after (ih.after (.pure _)))

/-! ### Binomial coefficients -/

theorem binomialFrom_determined (hc : c.Calm) (n : Int) (i : Nat) (x : Float) (factors : Nat) :
    Determined (binomialFrom c n i x factors) := by
  induction factors generalizing i x with
  | zero => exact .pure x
  | succ factors ih =>
    have hrest : ∀ y : Float, Determined
        (if Double.isInfinite y then pure y else binomialFrom c n (i + 1) y factors) := by
      intro y
      split
      · exact .pure y
      · exact ih _ _
    rw [binomialFrom]
    split
    · exact (Determined.poll hc).bind fun _ => hrest _
    · exact hrest _

theorem binomialOf_determined (hc : c.Calm) (n k : Float) : Determined (binomialOf c n k) := by
  unfold binomialOf
  split
  · exact .pure _
  · refine (Determined.valueOf _ _).bind fun n => (Determined.valueOf _ _).bind fun k => ?_
    split
    · exact .fail _
    · split
      · exact .pure _
      · exact (binomialFrom_determined hc _ _ _ _).bind fun _ => .pure _

/-! ### Nodes before they are folded -/

/-- The node yields the result in the row, and also where it is built if it is folded there. -/
structure Settles (c : Context) (fuel : Nat) (w₀ w₁ : World) (n : Node)
    (r : Except Halt Value) : Prop where
  row : Gives w₁ (n.value c (c.rowText fuel)) r
  folded : n.isFoldable = true → Gives w₀ (n.value c (c.rowText fuel)) r

theorem Supplies.settles {n : Node} {v : Value} (h : Supplies c fuel w₁ n v) : Settles c fuel w₀ w₁ n (.ok v) where
  row := h.gives
  folded hn := by
    rw [h.eq_const hn]
    exact const_gives v

theorem const_settles (v : Value) : Settles c fuel w₀ w₁ (.const v) (.ok v) := (Supplies.const v).settles

section Settles

variable (hs : c.Steady w₀ w₁) {args : List Node} {vs : List Value} {r : Except Halt Value}

include hs

/-- A node that is folded just if all of its arguments are constant. -/
theorem settles_of_supplied {n : Node} (h : SuppliesAll c fuel w₁ args vs) (hn : n.isFoldable = args.all isConstant)
    (hvalue : ∀ w : World, w.cancelled = false → SuppliesAll c fuel w args vs → Gives w (n.value c (c.rowText fuel)) r) :
    Settles c fuel w₀ w₁ n r where
  row := hvalue w₁ hs.uncancelled.2 h
  folded hfold := by
    have hargs := h.eq_consts (hn ▸ hfold)
    exact hvalue w₀ hs.uncancelled.1 (hargs ▸ SuppliesAll.consts vs)

theorem strict_settles {f : StrictFunction} {type : ValueType} (h : SuppliesAll c fuel w₁ args vs) :
    Settles c fuel w₀ w₁ (.strict f type args)
      ((f.run c.options.zone type vs).mapError fun cause => .fault (.ofCause f.name cause)) := by
  refine settles_of_supplied hs h rfl fun w _ hargs => ?_
  rw [value]
  exact (values_gives hargs).after ((Gives.note _).after (.valueOf _ _))

theorem aggregate_settles {f : Aggregate} {type : ValueType} (h : SuppliesAll c fuel w₁ args vs) :
    Settles c fuel w₀ w₁ (.aggregate f type args) (.ok (f.run type vs)) := by
  refine settles_of_supplied hs h rfl fun w hw hargs => ?_
  rw [value]
  exact (polledValues_gives hs.calm hw hargs).after (.pure _)

theorem binomial_settles (v u : Value) : ∃ r, ∀ n k, Supplies c fuel w₁ n v → Supplies c fuel w₁ k u →
    Settles c fuel w₀ w₁ (.binomial n k) r := by
  obtain ⟨r, hr⟩ := (binomialOf_determined hs.calm v.toNumber u.toNumber).bind fun x => .pure (Value.integer x)
  refine ⟨r, fun n k hn hk => settles_of_supplied hs (.cons hn (.cons hk .nil)) (by simp [isFoldable]) ?_⟩
  rintro w hw (_ | ⟨hn, _ | ⟨hk, -⟩⟩)
  rw [value]
  exact hn.gives.after (hk.gives.after (hr w hw))

theorem parameter_settles (v u : Value) : ∃ r, ∀ n k, Supplies c fuel w₁ n v → Supplies c fuel w₁ k u →
    Settles c fuel w₀ w₁ (.parameter n k) r := by
  have hdetermined : Determined (parameterText c v.text? u.text?) := by
    unfold parameterText
    split
    · split
      · exact .pure _
      · exact .fail _
    · exact .pure _
  obtain ⟨r, hr⟩ := hdetermined
  refine ⟨r, fun n k hn hk => settles_of_supplied hs (.cons hn (.cons hk .nil)) (by simp [isFoldable]) ?_⟩
  rintro w hw (_ | ⟨hn, _ | ⟨hk, -⟩⟩)
  rw [value]
  exact hn.gives.after (hk.gives.after (hr w hw))

end Settles

end Rowwise.Node
