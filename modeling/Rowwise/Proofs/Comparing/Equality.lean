import Rowwise.Proofs.Comparing.Calls
import Rowwise.Proofs.Numbers.Comparison

/-!
# Rowwise.Proofs.Comparing.Equality — equality of values

Equality takes two values apart by kind: missing values first, then booleans on either side, numbers, and at last all other
values, by themselves or by their canonical text (`Value.equals_of_missing`, `equals_boolean`, `equals_of_not_boolean`).
Each kind is compared alike from both sides, so equality is symmetric; a value of each kind equals itself.
-/

namespace Rowwise

theorem ValueType.storage_eq_iff (s t : ValueType) :
    s.storage = t.storage ↔ s = t ∨ s.isNumeric = true ∧ t.isNumeric = true := by
  cases s <;> cases t <;> decide

namespace Value

variable {a b : Value}

/-! ### Kinds of values -/

theorem equals_of_missing (h : (a.isMissing || b.isMissing) = true) :
    a.equals b = (a.isMissing && b.isMissing && a.type.storage == b.type.storage) := by
  unfold equals
  rw [if_pos h]

theorem exists_boolean (htype : a.type = .boolean) (ha : a.isMissing = false) : ∃ p, a = boolean (some p) := by
  cases a with
  | boolean p =>
    cases p with
    | none => cases ha
    | some p => exact ⟨p, rfl⟩
  | _ => cases htype

theorem equals_boolean (p : Bool) (ha : a.isMissing = false) : (boolean (some p)).equals a = equalsBoolean p a := by
  have hnone : ¬((boolean (some p)).isMissing || a.isMissing) = true := by
    rw [ha]
    decide +revert
  unfold equals
  rw [if_neg hnone]

theorem equals_boolean_right (p : Bool) (ha : a.isMissing = false) : a.equals (boolean (some p)) = equalsBoolean p a := by
  have hnone : ¬(a.isMissing || (boolean (some p)).isMissing) = true := by
    rw [ha]
    decide +revert
  unfold equals
  rw [if_neg hnone]
  cases a with
  | boolean q =>
    cases q with
    | none => cases ha
    | some q => exact Bool.beq_comm
  | _ => rfl

/-- Values that are no booleans are compared as numbers if they are, else by themselves or by their canonical text. -/
theorem equals_of_not_boolean (ha : a.isMissing = false) (hb : b.isMissing = false) (ha' : a.type ≠ .boolean)
    (hb' : b.type ≠ .boolean) : a.equals b =
      match a.number?, b.number? with
      | some x, some y => x == y
      | _, _ => if a.type = b.type then a = b else a.toText? == b.toText? := by
  unfold equals
  rw [if_neg (by simp [ha, hb])]
  cases a with
  | boolean p => exact absurd rfl ha'
  | _ =>
    cases b with
    | boolean q => exact absurd rfl hb'
    | _ => rfl

/-! ### Laws -/

theorem equals_self (a : Value) : a.equals a = true := by
  cases ha : a.isMissing with
  | true =>
    rw [equals_of_missing (by simp [ha]), ha]
    simp
  | false =>
    by_cases htype : a.type = .boolean
    · obtain ⟨p, rfl⟩ := exists_boolean htype ha
      rw [equals_boolean p ha]
      exact BEq.rfl
    · rw [equals_of_not_boolean ha ha htype htype]
      cases a with
      | integer x | double x => exact Double.beq_self ha
      | _ => simp [number?]

theorem equals_comm (a b : Value) : a.equals b = b.equals a := by
  by_cases hmissing : (a.isMissing || b.isMissing) = true
  · rw [equals_of_missing hmissing, equals_of_missing (by rwa [Bool.or_comm]), Bool.and_comm a.isMissing]
    exact congrArg _ BEq.comm
  · obtain ⟨ha, hb⟩ : a.isMissing = false ∧ b.isMissing = false := by simpa using hmissing
    by_cases ha' : a.type = .boolean
    · obtain ⟨p, rfl⟩ := exists_boolean ha' ha
      rw [equals_boolean p hb, equals_boolean_right p hb]
    · by_cases hb' : b.type = .boolean
      · obtain ⟨p, rfl⟩ := exists_boolean hb' hb
        rw [equals_boolean p ha, equals_boolean_right p ha]
      · rw [equals_of_not_boolean ha hb ha' hb', equals_of_not_boolean hb ha hb' ha']
        have hother : (if a.type = b.type then decide (a = b) else a.toText? == b.toText?) =
            if b.type = a.type then decide (b = a) else b.toText? == a.toText? := by
          simp only [eq_comm, BEq.comm]
        cases a.number? with
        | none => cases b.number? <;> exact hother
        | some x =>
          cases b.number? with
          | none => exact hother
          | some y => exact Double.beq_comm x y

/-- A missing value equals just the missing values of its type, where both types of numbers are one. -/
theorem equals_of_isMissing (ha : a.isMissing = true) (b : Value) : a.equals b = true ↔
    b.isMissing = true ∧ (a.type = b.type ∨ a.type.isNumeric = true ∧ b.type.isNumeric = true) := by
  rw [equals_of_missing (by rw [ha]; rfl), ha, Bool.true_and, Bool.and_eq_true, beq_iff_eq, ValueType.storage_eq_iff]

end Value

namespace Context

open Node

variable {c : Context} {w : World} {x y : Node} {a b : Value}

/-- Calls of `==` and `!=` yield whether the values of their arguments are equal, or whether they are not. -/
theorem callYields_equality (negated : Bool)
    (hc : c.function? (Builtin.equality negated).name = some (.builtin (.equality negated))) (h : c.YieldInTurn w x y a b) :
    c.CallYields w (Builtin.equality negated).name [x, y] (.ofBool (a.equals b != negated)) := by
  have harity : (Builtin.equality negated).signature.arity.accepts 2 = true := by cases negated <;> rfl
  have hbuild : buildStandard c c.readInner (.equality negated) [x, y] =
      pure (.strict (.equality negated) .boolean [x, y]) := by
    have hparams : checkParams (Builtin.equality negated).name [x, y] [.any] = pure () :=
      checkParams_single (fun _ _ => rfl) _
    show (do checkParams _ _ [.any]; _) = _
    rw [hparams, pure_bind]
  exact callYields_strict hc harity hbuild h rfl

/-- Equality of values is reflexive and symmetric, a missing value equals just the missing values of its type, and what
`==` and `!=` yield for two nodes is always present and contrary. -/
theorem equality_lawful :
    (∀ a : Value, a.equals a = true) ∧ (∀ a b : Value, a.equals b = b.equals a) ∧
      (∀ a b : Value, a.isMissing = true → (a.equals b = true ↔
        b.isMissing = true ∧ (a.type = b.type ∨ a.type.isNumeric = true ∧ b.type.isNumeric = true))) ∧
      ∀ (c : Context) (w : World) (x y : Node) (a b : Value), c.function? "==" = some (.builtin (.equality false)) →
        c.function? "!=" = some (.builtin (.equality true)) → c.YieldInTurn w x y a b →
          c.CallYields w "==" [x, y] (.ofBool (a.equals b)) ∧ c.CallYields w "!=" [x, y] (.ofBool (!a.equals b)) := by
  refine ⟨Value.equals_self, Value.equals_comm, fun a b ha => Value.equals_of_isMissing ha b, ?_⟩
  intro c w x y a b hequal hunequal h
  have hfalse := callYields_equality false hequal h
  have htrue := callYields_equality true hunequal h
  rw [Bool.bne_false] at hfalse
  rw [Bool.bne_true] at htrue
  exact ⟨hfalse, htrue⟩

/-- Missing numbers of the two types are equal. -/
theorem equality_lawful_missing :
    (Value.missing .double).equals (.missing .integer) = true ∧
      ({} : Context).CallYields {} "==" [.varying (.missing .double), .varying (.missing .integer)] (.ofBool true) ∧
      ({} : Context).CallYields {} "!=" [.varying (.missing .double), .varying (.missing .integer)] (.ofBool false) := by
  obtain ⟨-, -, hmissing, hcalls⟩ := equality_lawful
  have hequal : (Value.missing .double).equals (.missing .integer) = true :=
    (hmissing _ _ (by decide +kernel)).2 ⟨by decide +kernel, Or.inr ⟨rfl, rfl⟩⟩
  have hcall := hcalls {} {} _ _ _ _ (by decide +kernel) (by decide +kernel)
    (yieldInTurn_varying {} {} (.missing .double) (.missing .integer))
  rw [hequal] at hcall
  exact ⟨hequal, hcall⟩

end Context

end Rowwise
