import Rowwise.Proofs.Constancy.Folding

/-!
# Rowwise.Proofs.Comparing.Calls — calls of functions of values on two nodes

A call of a function of values yields what the function makes of the values of its arguments, whatever the nodes are: two
constants are folded where the call is built, other nodes are evaluated in the row, from left to right.
-/

namespace Rowwise

theorem badParam?_single {p : Param} {types : List ValueType} (h : ∀ t ∈ types, p.accepts t = true) (position : Nat) :
    badParam? position [p] types = none := by
  induction types generalizing position with
  | nil => rfl
  | cons t types ih =>
    rw [badParam?, if_pos (h t List.mem_cons_self)]
    exact ih (fun u hu => h u (List.mem_cons_of_mem _ hu)) _

namespace Node

open Run

variable {c : Context} {eval : ValueType → String → Run Value} {w w₁ : World} {f : StrictFunction} {type : ValueType}
  {args : List Node} {vs : List Value} {v : Value}

/-- Nothing is wrong with arguments of types that are accepted everywhere. -/
theorem checkParams_single {p : Param} (h : ∀ n ∈ args, p.accepts n.type = true) (function : String) :
    checkParams function args [p] = pure () := by
  have htypes : ∀ t ∈ args.map Node.type, p.accepts t = true := by simpa using h
  rw [checkParams, badParam?_single htypes]

theorem strict_yields (h : (values c eval args).exec w = (.ok vs, w₁)) (hv : f.run c.options.zone type vs = .ok v) :
    (((strict f type args).value c eval).exec w).1 = .ok v := by
  rw [value, exec_bind, h]
  simp only
  rw [exec_bind, exec_note, hv]
  rfl

/-- A call that is folded yields its value where it is built. -/
theorem fold_consts (w₀ : World) (hv : f.run c.options.zone type vs = .ok v) :
    Gives w₀ ((strict f type (vs.map .const)).fold c) (.ok (.const v)) := by
  have hfold : (strict f type (vs.map .const)).isFoldable = true := by simp [isFoldable, isConstant, constant?]
  have hvalue : Gives w₀ ((strict f type (vs.map .const)).value c (c.rowText 0)) (.ok v) := by
    rw [value]
    refine (values_gives (.consts vs)).after ((Gives.note _).after ?_)
    rw [hv]
    exact .pure v
  rw [fold, if_pos hfold, value_of_foldable hfold (c.rowText 0)]
  exact hvalue.after (.pure _)

end Node

namespace Context

open Run Node

variable {c : Context} {w : World} {x y : Node} {a b v : Value}

/-- Two nodes yield these values in the row, one after the other. -/
def YieldInTurn (c : Context) (w : World) (x y : Node) (a b : Value) : Prop :=
  ∃ w₁ w₂, (c.evaluate x).exec w = (.ok a, w₁) ∧ (c.evaluate y).exec w₁ = (.ok b, w₂)

/-- The call can be built everywhere, and yields the value in the row. -/
def CallYields (c : Context) (w : World) (name : String) (args : List Node) (v : Value) : Prop :=
  ∀ w₀, ∃ e, ((c.call name args).exec w₀).1 = .ok e ∧ ((e.evaluate c).exec w).1 = .ok v

theorem YieldInTurn.values (h : c.YieldInTurn w x y a b) :
    ∃ w₂, (Node.values c (c.rowText evalLimit) [x, y]).exec w = (.ok [a, b], w₂) := by
  obtain ⟨w₁, w₂, hx, hy⟩ := h
  rw [evaluate, evaluateWithin_eq] at hx hy
  refine ⟨w₂, ?_⟩
  rw [Node.values, Node.values, Node.values, exec_bind, hx]
  simp only [exec_bind, hy, exec_pure]

/-- Constants yield their values. -/
theorem YieldInTurn.eq_of_consts {p q : Value} (h : c.YieldInTurn w (.const p) (.const q) a b) : p = a ∧ q = b := by
  obtain ⟨w₁, w₂, hp, hq⟩ := h
  rw [evaluate, evaluateWithin_eq, value] at hp hq
  cases hp
  cases hq
  exact ⟨rfl, rfl⟩

/-- Two variables that rows could change yield their values. -/
theorem yieldInTurn_varying (c : Context) (w : World) (a b : Value) : c.YieldInTurn w (.varying a) (.varying b) a b := by
  refine ⟨{ w with events := .supplied :: w.events },
    { w with events := .supplied :: .supplied :: w.events }, ?_, ?_⟩
  · rw [evaluate, evaluateWithin_eq, value]
    rfl
  · rw [evaluate, evaluateWithin_eq, value]
    rfl

/-- A call for which a function of values is built yields what the function makes of the values of its arguments. -/
theorem callYields_strict {d : Builtin} {f : StrictFunction} {type : ValueType}
    (hd : c.function? d.name = some (.builtin d)) (harity : d.signature.arity.accepts 2 = true)
    (hbuild : buildStandard c c.readInner d [x, y] = pure (.strict f type [x, y])) (h : c.YieldInTurn w x y a b)
    (hv : f.run c.options.zone type [a, b] = .ok v) : c.CallYields w d.name [x, y] v := by
  intro w₀
  have hlength : d.signature.arity.accepts [x, y].length = true := harity
  rw [call_eq hd hlength, hbuild, pure_bind]
  cases hfold : (strict f type [x, y]).isFoldable with
  | true =>
    have hconst : x.isConstant = true ∧ y.isConstant = true := by simpa [isFoldable] using hfold
    obtain ⟨p, rfl⟩ := exists_const hconst.1
    obtain ⟨q, rfl⟩ := exists_const hconst.2
    obtain ⟨rfl, rfl⟩ := h.eq_of_consts
    have hnode := (fold_consts (c := c) w₀ hv).after (f := fun n => pure (Expression.mk n)) (.pure _)
    refine ⟨⟨.const v⟩, (hnode w₀ (.refl w₀)).1, ?_⟩
    rw [Expression.evaluate, evaluate, evaluateWithin_eq, value]
    rfl
  | false =>
    obtain ⟨w₂, hvalues⟩ := h.values
    refine ⟨⟨.strict f type [x, y]⟩, ?_, ?_⟩
    · rw [fold, hfold]
      rfl
    · rw [Expression.evaluate, evaluate, evaluateWithin_eq]
      exact strict_yields hvalues hv

end Context

end Rowwise
