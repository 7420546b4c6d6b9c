import Rowwise.Eval.Build
import Rowwise.Proofs.Constancy.Agreement
import Rowwise.Proofs.Constancy.Checks

/-!
# Rowwise.Proofs.Constancy.Builders — builders whose arguments may be constant

Most builders make the same node of whatever arguments, so the call comes to the same.  Four of them look at constants first:
checks of constants and comparisons refuse some constants that a row would not, choices and look-ups decide at once what a
row would decide later.
-/

namespace Rowwise

/-- The value converted to a type that its type converts to. -/
def Value.converted (zone : Zone) (v : Value) (target : ValueType) : Value :=
  if v.type = target then v else v.convert zone target

theorem Value.cast_eq {zone : Zone} {v : Value} {target : ValueType} (h : v.type.castable target = true) :
    v.cast zone target = .ok (v.converted zone target) := by
  rw [cast, if_pos h, converted]

namespace Node

open Run

variable {c : Context} {fuel : Nat} {w₀ w₁ : World}

/-! ### What supplied arguments show -/

theorem fewer_of_supplied {args : List Node} {vs : List Value} (h : SuppliesAll c fuel w₁ args vs) :
    ConstantCheck.Fewer (args.map constant?) ((vs.map Node.const).map constant?) := by
  induction h with
  | nil => exact .nil
  | cons hn _ ih =>
    refine .cons ?_ ih
    rcases hn.constant? with hnone | rfl
    · exact Or.inl hnone
    · exact Or.inr rfl

theorem missing_of_supplied {n : Node} {v : Value} (h : Supplies c fuel w₁ n v) :
    (n.constant?.map Value.isMissing).getD false = (n.isConstant && v.isMissing) := by
  unfold isConstant
  rcases h.constant? with hnone | rfl
  · rw [hnone]
    rfl
  · simp [constant?]

theorem order?_of_missing {v u : Value} (h : (v.isMissing || u.isMissing) = true) : order? v u = none := by
  unfold order?
  split
  · cases h
  · split
    · rename_i x y hx hy
      have hmissing : (Double.isMissing x || Double.isMissing y) = true := by
        cases v <;> cases hx <;> cases u <;> cases hy <;> exact h
      rw [if_pos hmissing]
    · rfl

theorem refuse_settles (function : String) (cause : TypeCause) :
    Settles c fuel w₀ w₁ (.refuse function cause) (.error (.fault (.type function cause))) where
  row := by
    rw [value]
    exact .fail _
  folded hfold := by cases hfold

/-- A conversion is folded just if its node is constant, and then it is constant again. -/
theorem converted_gives (w₀ : World) {n : Node} {v : Value} (h : Supplies c fuel w₁ n v) {target : ValueType}
    (hcast : v.type.castable target = true) (function : String) :
    ∃ m, Gives w₀ (converted c function n target) (.ok m) ∧ Supplies c fuel w₁ m (v.converted c.options.zone target) := by
  unfold converted
  rw [h.type_eq, if_pos hcast]
  by_cases htype : v.type = target
  · rw [if_pos htype, Value.converted, if_pos htype]
    exact ⟨n, .pure n, h⟩
  · rw [if_neg htype]
    have hvalue : ∀ {w : World} {more : Nat}, Supplies c more w n v →
        Gives w ((convert function target n).value c (c.rowText more)) (.ok (v.converted c.options.zone target)) := by
      intro w more hn
      rw [value]
      refine hn.gives.after ?_
      rw [Value.cast_eq hcast]
      exact .typed function (.ok _)
    unfold fold
    by_cases hfold : (convert function target n).isFoldable = true
    · rw [if_pos hfold]
      have hconst := h.eq_const_of_constant hfold
      subst hconst
      exact ⟨_, (@hvalue w₀ 0 (.const v)).after (.pure _), .const _⟩
    · rw [if_neg hfold]
      refine ⟨_, .pure _, .row (Bool.eq_false_iff.2 hfold) ?_ (hvalue h).yields⟩
      rw [Value.converted, if_neg htype]
      exact (Value.type_convert _ _ _).symm

/-! ### Functions of values -/

section Builders

variable (hs : c.Steady w₀ w₁) {read : String → Run Node} {args : List Node} {vs : List Value}

include hs

theorem strict_comes {f : StrictFunction} {type : ValueType} (h : SuppliesAll c fuel w₁ args vs) :
    Comes c fuel w₀ w₁ (pure (.strict f type args))
      ((f.run c.options.zone type vs).mapError fun cause => .fault (.ofCause f.name cause)) :=
  .pure (strict_settles hs h)

theorem strict_agreeing {b : Builtin} {f : StrictFunction} {type : ValueType} (h : SuppliesAll c fuel w₁ args vs) :
    Agreeing c fuel w₀ w₁ b.Alike (pure (.strict f type (vs.map .const))) (pure (.strict f type args)) :=
  .same (strict_comes hs (.consts vs)) (strict_comes hs h)

theorem number_agreeing {b : Builtin} (f : NumberFunction) (h : SuppliesAll c fuel w₁ args vs) :
    Agreeing c fuel w₀ w₁ b.Alike (pure (number f (vs.map .const))) (pure (number f args)) := by
  unfold number
  rw [h.types_eq, SuppliesAll.types_consts]
  exact strict_agreeing hs h

/-- A power is the same number, whether or not it is known to be whole. -/
theorem power_agreeing {v u : Value} {n m : Node} (hn : Supplies c fuel w₁ n v) (hm : Supplies c fuel w₁ m u) :
    Agreeing c fuel w₀ w₁ (Builtin.number .power).Alike
      (pure (.strict (.number .power) (powerType (.const v) (.const u)) [.const v, .const u]))
      (pure (.strict (.number .power) (powerType n m) [n, m])) := by
  refine ⟨_, _, strict_comes hs (.consts [v, u]), strict_comes hs (.cons hn (.cons hm .nil)), ?_, ?_⟩
  · intro w hw
    cases hw
    refine ⟨_, rfl, Or.inr ⟨v.toNumber.pow u.toNumber, ?_, ?_⟩⟩ <;>
    · unfold Value.number
      split <;> rfl
  · intro h hh
    cases hh

theorem buildPlus_agreeing (harity : Builtin.plus.signature.arity.accepts vs.length = true)
    (h : SuppliesAll c fuel w₁ args vs) :
    Agreeing c fuel w₀ w₁ Builtin.plus.Alike (buildStandard c read .plus (vs.map .const))
      (buildStandard c read .plus args) := by
  rcases h with _ | ⟨hn, _ | ⟨hm, _ | ⟨_, _⟩⟩⟩
  · cases harity
  · exact Agreeing.checked (.cons hn .nil) fun _ => .same (.pure (const_settles _)) (.pure hn.settles)
  · rename_i n v m u
    have hargs : SuppliesAll c fuel w₁ [n, m] [v, u] := .cons hn (.cons hm .nil)
    have hany : ([n, m].any fun n => n.type = .text) = ([v, u].map Node.const).any fun n => n.type = .text := by
      show (decide (n.type = .text) || (decide (m.type = .text) || false)) = _
      rw [hn.type_eq, hm.type_eq]
      rfl
    show Agreeing _ _ _ _ _ (if _ then _ else _) (if _ then _ else _)
    rw [hany]
    by_cases htext : (([v, u].map Node.const).any fun n => n.type = .text) = true
    · rw [if_pos htext, if_pos htext]
      exact strict_agreeing hs hargs
    · rw [if_neg htext, if_neg htext]
      exact .checked hargs fun _ => number_agreeing hs .add hargs
  · have := length_of_between harity
    simp at this

theorem buildMinus_agreeing (harity : Builtin.minus.signature.arity.accepts vs.length = true)
    (h : SuppliesAll c fuel w₁ args vs) :
    Agreeing c fuel w₀ w₁ Builtin.minus.Alike (buildStandard c read .minus (vs.map .const))
      (buildStandard c read .minus args) := by
  rcases h with _ | ⟨hn, _ | ⟨hm, _ | ⟨_, _⟩⟩⟩
  · cases harity
  · exact Agreeing.checked (.cons hn .nil) fun _ => number_agreeing hs .negate (.cons hn .nil)
  · exact Agreeing.checked (.cons hn (.cons hm .nil)) fun _ => number_agreeing hs .subtract (.cons hn (.cons hm .nil))
  · have := length_of_between harity
    simp at this

theorem buildNumber_agreeing {f : NumberFunction} (hf : f ∈ Builtin.numbers)
    (harity : f.signature.arity.accepts vs.length = true) (h : SuppliesAll c fuel w₁ args vs) :
    Agreeing c fuel w₀ w₁ (Builtin.number f).Alike (buildStandard c read (.number f) (vs.map .const))
      (buildStandard c read (.number f) args) := by
  have hlen := length_of_takes (NumberFunction.takes_of_accepts hf harity)
  refine Agreeing.checked h fun _ => ?_
  rcases h with _ | ⟨hn, _ | ⟨hm, _ | ⟨_, _⟩⟩⟩
  · simp at hlen
  · cases f <;> exact number_agreeing hs _ (.cons hn .nil)
  · cases f with
    | power => exact power_agreeing hs hn hm
    | _ => exact number_agreeing hs _ (.cons hn (.cons hm .nil))
  · simp at hlen

/-! ### Checks of constants -/

/-- Checks that the constants pass are passed by fewer of them; otherwise the value of a function that reads all its
arguments fails by a value, too, if it fails. -/
theorem checked_agreeing {b : Builtin} {f : StrictFunction} {type : ValueType} {function : String}
    {checks : List ConstantCheck} (hplace : ∀ place whole, .regex place whole ∈ checks → place < vs.length)
    (hfits : f.Fits type (vs.map Value.type)) (h : SuppliesAll c fuel w₁ args vs) :
    Agreeing c fuel w₀ w₁ b.Alike
      (checkConstants function (vs.map .const) checks >>= fun _ => pure (.strict f type (vs.map .const)))
      (checkConstants function args checks >>= fun _ => pure (.strict f type args)) := by
  have hproper := ConstantCheck.forM_proper ((vs.map Node.const).map constant?) checks (by simpa using hplace)
  have hproper' := ConstantCheck.forM_proper (args.map constant?) checks (by simpa [h.length_eq] using hplace)
  have hrun := hfits c.options.zone vs rfl
  unfold checkConstants
  cases hconst : checks.forM fun check => check.run ((vs.map Node.const).map constant?) with
  | ok u =>
    rw [ConstantCheck.forM_of_fewer (fewer_of_supplied h) hconst]
    exact .bind (.valueOf _ _) (.valueOf _ _) (strict_agreeing hs h)
  | error cause =>
    rw [hconst] at hproper
    have hkind := Fault.kind_ofCause hproper function
    cases hmarked : checks.forM fun check => check.run (args.map constant?) with
    | error cause' =>
      rw [hmarked] at hproper'
      refine .of_fault (.failed (Gives.valueOf _ _).error) (.failed (Gives.valueOf _ _).error) fun h' hh' => ?_
      cases hh'
      exact congrArg some (hkind.trans (Fault.kind_ofCause hproper' function).symm)
    | ok u =>
      refine .of_fault (.failed (Gives.valueOf _ _).error) (.bind (.valueOf _ _) (strict_comes hs h)) fun h' hh' => ?_
      cases hr : f.run c.options.zone type vs with
      | ok v =>
        rw [hr] at hh'
        cases hh'
      | error cause' =>
        rw [hr] at hh' hrun
        cases hh'
        exact congrArg some (hkind.trans (Fault.kind_ofCause hrun f.name).symm)

/-! ### Comparisons -/

/-- A comparison is refused for types without an order and for a constant missing value on the left; else the values are
compared. -/
theorem buildOrder_comes (o : Order) {v u : Value} {n m : Node} (hn : Supplies c fuel w₁ n v)
    (hm : Supplies c fuel w₁ m u) :
    Comes c fuel w₀ w₁ (buildOrder o n m)
      (if comparable v.type u.type then
        if n.isConstant && v.isMissing then .error (.fault (.value o.signature.name .missingLeft))
        else .ok (.ofBool (o.run v u))
      else .error (.fault (.type o.signature.name (.incomparable v.type u.type)))) := by
  unfold buildOrder
  simp only [hn.type_eq, hm.type_eq, missing_of_supplied hn, missing_of_supplied hm]
  cases hcomparable : comparable v.type u.type with
  | false =>
    simp only [Bool.not_false, Bool.false_eq_true, if_true, if_false]
    split
    · exact .fail _
    · exact .pure (refuse_settles _ _)
  | true =>
    simp only [Bool.not_true, Bool.false_eq_true, if_true, if_false]
    by_cases hleft : (n.isConstant && v.isMissing) = true
    · rw [if_pos hleft, if_pos hleft]
      exact .fail _
    · rw [if_neg hleft, if_neg hleft]
      split
      · rename_i hright
        have hmissing : (v.isMissing || u.isMissing) = true := by
          rw [(Bool.and_eq_true_iff.1 hright).2, Bool.or_true]
        rw [Order.run, order?_of_missing hmissing]
        exact .pure (const_settles _)
      · exact strict_comes hs (.cons hn (.cons hm .nil))

theorem buildOrder_agreeing {b : Builtin} (o : Order) {v u : Value} {n m : Node} (hn : Supplies c fuel w₁ n v)
    (hm : Supplies c fuel w₁ m u) :
    Agreeing c fuel w₀ w₁ b.Alike (buildOrder o (.const v) (.const u)) (buildOrder o n m) := by
  have hv : Supplies c fuel w₁ (.const v) v := .const v
  have hconstant := buildOrder_comes hs o hv (.const u)
  have hmarked := buildOrder_comes hs o hn hm
  cases hcomparable : comparable v.type u.type with
  | false =>
    rw [hcomparable] at hconstant hmarked
    exact .same hconstant hmarked
  | true =>
    rw [hcomparable] at hconstant hmarked
    cases hmissing : v.isMissing with
    | false =>
      simp only [hmissing, Bool.and_false, if_true] at hconstant hmarked
      exact .same hconstant hmarked
    | true =>
      simp only [hmissing, Bool.and_true, if_true] at hconstant hmarked
      refine .of_fault hconstant hmarked fun h' hh' => ?_
      change (if _ then _ else _) = _ at hh'
      split at hh'
      · cases hh'
        rfl
      · cases hh'

/-! ### Choices -/

omit hs in
theorem castable_branchType (a b : ValueType) :
    a.castable (branchType a b) = true ∧ b.castable (branchType a b) = true := by
  cases a <;> cases b <;> decide

omit hs in
/-- A choice comes to the branch that the condition says, whether it is made at once or in each row. -/
theorem buildChoose_comes {condition yes no : Node} {v y n : Value} (hc : Supplies c fuel w₁ condition v)
    (hy : Supplies c fuel w₁ yes y) (hn : Supplies c fuel w₁ no n) :
    Comes c fuel w₀ w₁ (buildChoose c condition yes no) (.ok (match v.truth? with
      | some true => y.converted c.options.zone (branchType y.type n.type)
      | some false => n.converted c.options.zone (branchType y.type n.type)
      | none => .missing (branchType y.type n.type))) := by
  unfold buildChoose
  obtain ⟨hcasty, hcastn⟩ := castable_branchType y.type n.type
  obtain ⟨my, hgivesy, hsuppliesy⟩ := converted_gives w₀ hy hcasty Builtin.choose.name
  obtain ⟨mn, hgivesn, hsuppliesn⟩ := converted_gives w₀ hn hcastn Builtin.choose.name
  simp only [hy.type_eq, hn.type_eq]
  refine .bind hgivesy (.bind hgivesn ?_)
  rcases hc.constant? with hnone | rfl
  · rw [hnone]
    refine .pure ⟨?_, fun hfold => by cases hfold⟩
    rw [value]
    refine hc.gives.after ?_
    cases v.truth? with
    | none => exact .pure _
    | some truth =>
      cases truth
      · exact hsuppliesn.gives
      · exact hsuppliesy.gives
  · simp only [constant?]
    cases v.truth? with
    | none => exact .pure (const_settles _)
    | some truth =>
      cases truth
      · exact .pure hsuppliesn.settles
      · exact .pure hsuppliesy.settles

end Builders

end Node

end Rowwise
