import Rowwise.Eval.Expression
import Rowwise.Proofs.Constancy.Checks
import Rowwise.Proofs.Constancy.Supply
import Rowwise.Proofs.Evaluation.Compiling

/-!
# Rowwise.Proofs.Constancy.Agreement — what a call comes to, whichever of its arguments are constant

A call is built before any row is read and evaluated in a row.  What it comes to is compared for arguments that are all
constant and for arguments some of which the row supplies (`Agreeing`), builder by builder.
-/

namespace Rowwise

/-! ### Outcomes -/

/-- The kind of the fault that ends a run. -/
def Halt.kind? : Halt → Option FaultKind
  | fault f => some f.kind
  | exhausted => none

/-- Both values are the same number, whichever of the two types they have. -/
def Value.SameNumber (v u : Value) : Prop := ∃ x, v.number? = some x ∧ u.number? = some x

/-- What two ways to call the function have in common: the value, or for powers the number. -/
def Builtin.Alike : Builtin → Value → Value → Prop
  | number .power, v, u => v = u ∨ v.SameNumber u
  | _, v, u => v = u

theorem Builtin.alike_refl (b : Builtin) (v : Value) : b.Alike v v := by
  unfold Alike
  split
  · exact Or.inl rfl
  · rfl

/-- The first outcome carries over to the second if it is a value, and each fault of the second has the kind of one of the
first. -/
structure Kept (alike : Value → Value → Prop) (constant marked : Except Halt Value) : Prop where
  value (v : Value) : constant = .ok v → ∃ u, marked = .ok u ∧ alike v u
  fault (h : Halt) : marked = .error h → ∃ h', constant = .error h' ∧ h'.kind? = h.kind?

namespace Node

open Run

variable {c : Context} {fuel : Nat} {w₀ w₁ : World} {α β : Type}

/-- Built in the first world and evaluated in the second, the node that the run builds comes to this. -/
inductive Comes (c : Context) (fuel : Nat) (w₀ w₁ : World) (x : Run Node) :
    Except Halt Value → Prop where
  | built {n : Node} {r : Except Halt Value} : Gives w₀ x (.ok n) → Settles c fuel w₀ w₁ n r → Comes c fuel w₀ w₁ x r
  | failed {h : Halt} : Gives w₀ x (.error h) → Comes c fuel w₀ w₁ x (.error h)

namespace Comes

variable {r : Except Halt Value} {x : Run Node}

theorem pure {n : Node} (h : Settles c fuel w₀ w₁ n r) : Comes c fuel w₀ w₁ (Pure.pure n) r := .built (.pure n) h

theorem fail (f : Fault) : Comes c fuel w₀ w₁ (Run.fail f) (.error (.fault f)) := .failed (.fail f)

theorem bind {y : Run α} {f : α → Run Node} {a : α} (hy : Gives w₀ y (.ok a)) (hf : Comes c fuel w₀ w₁ (f a) r) :
    Comes c fuel w₀ w₁ (y >>= f) r := by
  cases hf with
  | built hn hsettles => exact .built (hy.after hn) hsettles
  | failed hn => exact .failed (hy.after hn)

end Comes

/-- What the two runs build comes to outcomes of which the first carries over to the second. -/
def Agreeing (c : Context) (fuel : Nat) (w₀ w₁ : World) (alike : Value → Value → Prop)
    (x y : Run Node) : Prop :=
  ∃ constant marked, Comes c fuel w₀ w₁ x constant ∧ Comes c fuel w₀ w₁ y marked ∧ Kept alike constant marked

namespace Agreeing

variable {b : Builtin} {alike : Value → Value → Prop} {x y : Run Node}

theorem same {r : Except Halt Value} (hx : Comes c fuel w₀ w₁ x r) (hy : Comes c fuel w₀ w₁ y r) :
    Agreeing c fuel w₀ w₁ b.Alike x y :=
  ⟨r, r, hx, hy, ⟨fun v hv => ⟨v, hv, b.alike_refl v⟩, fun h hh => ⟨h, hh, rfl⟩⟩⟩

theorem bind {f : α → Run Node} {g : β → Run Node} {y : Run α} {z : Run β} {a : α} {d : β} (hy : Gives w₀ y (.ok a))
    (hz : Gives w₀ z (.ok d)) (h : Agreeing c fuel w₀ w₁ alike (f a) (g d)) :
    Agreeing c fuel w₀ w₁ alike (y >>= f) (z >>= g) := by
  obtain ⟨r, s, hr, hs, hkept⟩ := h
  exact ⟨r, s, hr.bind hy, hs.bind hz, hkept⟩

/-- A fault of the constant call allows every value of the other, and every fault of its kind. -/
theorem of_fault {h : Halt} {r : Except Halt Value} (hx : Comes c fuel w₀ w₁ x (.error h))
    (hy : Comes c fuel w₀ w₁ y r) (hr : ∀ h', r = .error h' → h.kind? = h'.kind?) :
    Agreeing c fuel w₀ w₁ alike x y :=
  ⟨.error h, r, hx, hy, ⟨(fun v hv => by cases hv), fun h' hh' => ⟨h, rfl, hr h' hh'⟩⟩⟩

theorem checked {args : List Node} {vs : List Value} (h : SuppliesAll c fuel w₁ args vs) {function : String}
    {params : List Param} (hok : badParam? 1 params (vs.map Value.type) = none → Agreeing c fuel w₀ w₁ alike x y) :
    Agreeing c fuel w₀ w₁ alike (checkParams function (vs.map .const) params >>= fun _ => x)
      (checkParams function args params >>= fun _ => y) := by
  unfold checkParams
  rw [SuppliesAll.types_consts, h.types_eq]
  cases hbad : badParam? 1 params (vs.map Value.type) with
  | none => exact bind (.pure ()) (.pure ()) (hok hbad)
  | some cause => exact of_fault (.failed (Gives.fail _).error) (.failed (Gives.fail _).error) fun h' hh' => by cases hh'; rfl

end Agreeing

end Node

end Rowwise
