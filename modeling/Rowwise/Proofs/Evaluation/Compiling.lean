import Rowwise.Proofs.Evaluation.Building
import Rowwise.Proofs.Numbers.Literals

/-!
# Rowwise.Proofs.Evaluation.Compiling — what every compiled node has

Trees are compiled from names, macros and calls, so a property that all builders keep (`Context.Builds`) holds of the node
of every text (`Context.Builds.readWith_related`).  Evaluation with fuel is evaluation with a way to evaluate texts of a row
(`Context.rowText`).
-/

namespace Rowwise.Context

open Run

/-- A fault of reading a tree shows where and why the text is malformed. -/
theorem malformed_of_parse {limit : Nat} {s : String} {f : Fault} (h : Expr.parse limit s = .error f) :
    ∃ line column cause, f = .malformed line column cause := by
  unfold Expr.parse at h
  split at h
  · cases h
    exact ⟨_, _, _, rfl⟩
  · cases hread : Expr.read s.toList with
    | ok e =>
      rw [hread] at h
      change (if e.depth > limit then Except.error _ else Except.ok e) = .error f at h
      split at h
      · cases h
        exact ⟨_, _, _, rfl⟩
      · cases h
    | error g =>
      rw [hread] at h
      cases h
      unfold Expr.read at hread
      split at hread
      · cases hread
        exact ⟨_, _, _, rfl⟩
      · cases hread
        exact ⟨_, _, _, rfl⟩
      · cases hread

section Names

variable {c : Context} {s : String} {rel : {α : Type} → Run α → Run α → (α → Prop) → Prop} {P R : Node → Prop}
  {T : ValueType → Node → Prop} {read read' : String → Run Node}

theorem mem_of_lastNamed? {α : Type} {nameOf : α → String} {name : String} {xs : List α} {x : α}
    (h : lastNamed? nameOf name xs = some x) : x ∈ xs :=
  List.mem_reverse.1 (List.mem_of_find?_eq_some h)

theorem offers_of_variable {v : Variable} (h : c.variableNamed? s = some v) : c.Offers v.value :=
  .inr (.inl ⟨v, mem_of_lastNamed? h, rfl⟩)

theorem offers_of_constant {k : Constant} (h : c.constantNamed? s = some k) : c.Offers k.value := by
  have hstandard : ∀ k ∈ Constant.standard, k.value.IsWhole := by decide
  rcases List.mem_append.1 (mem_of_lastNamed? h) with hmem | hmem
  · exact .inl (hstandard k hmem)
  · exact .inr (.inr ⟨k, hmem, rfl⟩)

theorem BuildsStandard.nameNode_related (B : c.BuildsStandard rel P R T read read') (s : String) :
    rel (c.nameNode s) (c.nameNode s) P := by
  refine B.bind (B.columnOf? s) fun n? hn => ?_
  cases n? with
  | some n => exact B.pure (hn n rfl)
  | none =>
    simp only
    split
    · rename_i v _ hv
      refine B.pure ?_
      split
      · exact B.const (offers_of_variable hv)
      · exact B.varying (offers_of_variable hv)
    · rename_i hk
      exact B.pure (B.const (offers_of_constant hk))
    · exact B.fail rfl

theorem BuildsStandard.macroNode_related (B : c.BuildsStandard rel P R T read read') (name : String) :
    rel (macroNode read name) (macroNode read' name) P := by
  refine B.bind (B.scope? _) fun text _ => ?_
  split
  · exact B.bind (B.within _ (B.read _)) fun n hn => B.pure (B.spliced hn)
  · exact B.fail rfl
  · exact B.fail rfl

end Names

namespace Builds

variable {c : Context} {rel : {α : Type} → Run α → Run α → (α → Prop) → Prop} {P R : Node → Prop}
  {T : ValueType → Node → Prop} {read read' : String → Run Node}

mutual

/-- Trees are compiled by related runs, and their nodes have the property if their whole numbers do. -/
theorem compile_related (B : c.Builds rel P R T read read') :
    ∀ e : Expr, (∀ x ∈ e.integers, P (.const (.integer x))) → rel (c.compile read e) (c.compile read' e) P
  | .integer x, he => by
    rw [compile]
    exact B.pure (he x (by rw [Expr.integers]; exact List.mem_singleton_self x))
  | .double x, _ => by
    rw [compile]
    exact B.pure (B.const (.inl trivial))
  | .text s, _ => by
    rw [compile]
    exact B.pure (B.const (.inl trivial))
  | .name s, _ => by
    rw [compile]
    exact B.nameNode_related s
  | .column s, _ => by
    rw [compile]
    refine B.bind (B.columnOf? s) fun n? hn => ?_
    cases n? with
    | some n => exact B.pure (hn n rfl)
    | none => exact B.fail rfl
  | .scope s, _ => by
    rw [compile]
    refine B.bind (B.scope? _) fun text _ => ?_
    split
    · exact B.pure (B.const (.inl trivial))
    · exact B.fail rfl
  | .macroRef s, _ => by
    rw [compile]
    exact B.macroNode_related s
  | .unary op e, he => by
    rw [Expr.integers] at he
    rw [compile]
    refine B.bind (B.compile_related e he) fun n hn => B.callWith_related _ ?_
    simpa using hn
  | .binary op l r, he => by
    rw [Expr.integers, List.forall_mem_append] at he
    rw [compile]
    refine B.bind (B.compile_related l he.1) fun a ha => B.bind (B.compile_related r he.2) fun b hb => ?_
    exact B.callWith_related _ (by simpa using ⟨ha, hb⟩)
  | .call f es, he => by
    rw [Expr.integers] at he
    rw [compile]
    exact B.bind (B.compileAll_related es he) fun args hargs => B.callWith_related f hargs

theorem compileAll_related (B : c.Builds rel P R T read read') : ∀ es : List Expr,
    (∀ x ∈ Expr.allIntegers es, P (.const (.integer x))) →
      rel (c.compileAll read es) (c.compileAll read' es) fun ns => ∀ n ∈ ns, P n
  | [], _ => by
    rw [compileAll]
    exact B.pure (by simp)
  | e :: es, he => by
    rw [Expr.allIntegers, List.forall_mem_append] at he
    rw [compileAll]
    refine B.bind (B.compile_related e he.1) fun n hn => B.bind (B.compileAll_related es he.2) fun ns hns => B.pure ?_
    intro m hm
    rcases List.mem_cons.1 hm with rfl | hm
    · exact hn
    · exact hns m hm

end

/-- Texts are read by related runs, and their nodes have the property. -/
theorem readWith_related (B : c.Builds rel P R T read read') (s : String) :
    rel (c.readWith read s) (c.readWith read' s) P := by
  have hparse : rel (Run.ofExcept (Expr.parse c.options.nestingLimit s))
      (Run.ofExcept (Expr.parse c.options.nestingLimit s)) fun e => ∀ x ∈ e.integers, Double.IsIntegral x := by
    cases h : Expr.parse c.options.nestingLimit s with
    | ok e => exact B.pure (Expr.isIntegral_of_parse h)
    | error f =>
      obtain ⟨line, column, cause, rfl⟩ := malformed_of_parse h
      exact B.fail rfl
  exact B.bind hparse fun e he => B.compile_related e fun x hx => B.const (.inl (he x hx))

end Builds

/-! ### The texts of a row -/

variable {c : Context}

/-- The value of a text of a row, with at most `fuel` such texts evaluated within each other. -/
def rowText (c : Context) : (fuel : Nat) → ValueType → String → Run Value
  | 0, _, _ => throw .exhausted
  | fuel + 1, target, s => do
    let inner ← Node.readText c.readInner s
    let v ← Run.nested Builtin.eval.name (Run.inText (c.evaluateWithin fuel inner))
    Run.typed Builtin.eval.name (v.cast c.options.zone target)

theorem evaluateWithin_eq (fuel : Nat) (n : Node) : c.evaluateWithin fuel n = n.value c (c.rowText fuel) := by
  cases fuel <;> rfl

end Rowwise.Context
