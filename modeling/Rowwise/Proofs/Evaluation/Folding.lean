import Rowwise.Eval.Evaluate
import Rowwise.Proofs.Evaluation.Contract

/-!
# Rowwise.Proofs.Evaluation.Folding — constants and what depends on them alone

A constant yields its value without looking at the world, and a node that can be folded never evaluates a text.
-/

namespace Rowwise.Node

variable {c : Context} {eval eval' : ValueType → String → Run Value}

theorem eq_const {n : Node} {v : Value} (h : n.constant? = some v) : n = const v := by
  cases n <;> first | exact congrArg const (Option.some.inj h) | cases h

theorem exists_const {n : Node} (h : n.isConstant = true) : ∃ v, n = const v := by
  obtain ⟨v, hv⟩ := Option.isSome_iff_exists.1 h
  exact ⟨v, eq_const hv⟩

theorem value_of_constant {n : Node} (h : n.isConstant = true) : n.value c eval = n.value c eval' := by
  obtain ⟨v, rfl⟩ := exists_const h
  rw [value, value]

theorem values_of_constants {ns : List Node} (h : ∀ n ∈ ns, n.isConstant = true) :
    values c eval ns = values c eval' ns := by
  induction ns with
  | nil => rw [values, values]
  | cons n ns ih =>
    rw [values, values, ih fun m hm => h m (List.mem_cons_of_mem _ hm), value_of_constant (h n List.mem_cons_self)]

theorem polledValues_of_constants {ns : List Node} (h : ∀ n ∈ ns, n.isConstant = true) :
    polledValues c eval ns = polledValues c eval' ns := by
  induction ns with
  | nil => rw [polledValues, polledValues]
  | cons n ns ih =>
    rw [polledValues, polledValues, ih fun m hm => h m (List.mem_cons_of_mem _ hm),
      value_of_constant (h n List.mem_cons_self)]

theorem firstValue_of_constant {function : String} {storage : Storage} {ns : List Node}
    (h : (ns.head?.map isConstant).getD false = true) :
    firstValue c eval function storage ns = firstValue c eval' function storage ns := by
  cases ns with
  | nil => cases h
  | cons n ns => rw [firstValue, firstValue, value_of_constant h]

/-- A node that can be folded evaluates no text. -/
theorem value_of_foldable {n : Node} (h : n.isFoldable = true) (eval' : ValueType → String → Run Value) :
    n.value c eval = n.value c eval' := by
  cases n with
  | const v => rw [value, value]
  | strict f type args =>
    rw [value, value, values_of_constants (List.all_eq_true.1 h)]
  | aggregate f type args =>
    rw [value, value, polledValues_of_constants (List.all_eq_true.1 h)]
  | binomial n k =>
    obtain ⟨hn, hk⟩ := Bool.and_eq_true_iff.1 h
    rw [value, value, value_of_constant hn, value_of_constant hk]
  | convert function target n => rw [value, value, value_of_constant h]
  | parameter operator name =>
    obtain ⟨ho, hn⟩ := Bool.and_eq_true_iff.1 h
    rw [value, value, value_of_constant ho, value_of_constant hn]
  | host f args =>
    rw [value, value]
    cases hf : f.action with
    | probe =>
      simp only [isFoldable, hf] at h
      have hfirst : firstValue c eval f.name .number args = firstValue c eval' f.name .number args :=
        firstValue_of_constant h
      simp only [hfirst]
    | relay type =>
      simp only [isFoldable, hf] at h
      have hfirst : firstValue c eval f.name type.storage args = firstValue c eval' f.name type.storage args :=
        firstValue_of_constant h
      simp only [hfirst]
    | yields _ _ _ | fails _ | row _ => rfl
  | _ => cases h

/-! ### Folding -/

theorem marked_of_not_constant {n : Node} (h : n.isConstant = false) (mark : Node → Node) : n.marked mark = mark n := by
  cases n <;> first | rfl | cases h

theorem fold_marked (n : Node) : (n.marked .nested).fold c = pure (n.marked .nested) := by
  cases n <;> simp [marked, fold, isFoldable, value]

/-- What has been folded is not folded again. -/
theorem fold_fold (n : Node) : (n.fold c >>= fun m => m.fold c) = n.fold c := by
  unfold fold
  split
  · simp [isFoldable, value]
  · rename_i hfold
    simp [hfold]

end Rowwise.Node
