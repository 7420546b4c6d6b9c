import Rowwise.Eval.Expression
import Rowwise.Proofs.Evaluation.Compiling
import Rowwise.Proofs.Evaluation.Simulation

/-!
# Rowwise.Proofs.Evaluation.Carrying — relations carried through all that expressions do

A relation that both the ways to build nodes and the ways to evaluate them keep (`Context.Carries`) relates every text that is
read and every node that is evaluated to itself, however deep texts stand in each other.
-/

namespace Rowwise

open Run

/-- Building keeps the relation, and so does evaluating nodes with parts in `P`. -/
structure Context.Carries (c : Context) (P : Node → Prop) (rel : {α : Type} → Run α → Run α → (α → Prop) → Prop) : Prop
    extends Run.Relates rel where
  evaluates : c.Evaluates P fun _ {_} x y => rel x y fun _ => True
  columnOf? (s : String) : rel (Node.columnOf? s) (Node.columnOf? s) fun _ => True
  built (f : String) (isConstant : Bool) :
    rel (Run.note (.built f isConstant)) (Run.note (.built f isConstant)) fun _ => True
  exhausted {α : Type} {Q : α → Prop} : rel (throw .exhausted : Run α) (throw .exhausted) Q

namespace Context.Carries

variable {c : Context} {P : Node → Prop} {rel : {α : Type} → Run α → Run α → (α → Prop) → Prop}
  {read read' : String → Run Node}

/-- A node that can be folded evaluates no text and takes nothing from the row, so nothing is asked of its parts. -/
theorem fold_related (S : c.Carries P rel) (n : Node) : rel (n.fold c) (n.fold c) fun _ => True := by
  unfold Node.fold
  split
  · rename_i hfold
    exact S.bind (@Node.foldable_simulates _ _ _ _ _ 0 S.evaluates n hfold) fun _ _ => S.pure trivial
  · exact S.pure trivial

theorem builds (S : c.Carries P rel) (hread : ∀ s, rel (read s) (read' s) fun _ => True) :
    c.Builds rel (fun _ => True) (fun _ => True) (fun _ _ => True) read read' :=
  S.toRelates.builds hread S.columnOf? S.fold_related S.built

/-! ### Reading -/

theorem readNested_related (S : c.Carries P rel) (budget : Nat) (s : String) :
    rel (c.readNested budget s) (c.readNested budget s) fun _ => True := by
  have hpoll : rel c.poll c.poll fun _ => True := @Evaluates.poll _ _ _ S.evaluates 0
  induction budget generalizing s with
  | zero => exact S.bind hpoll fun _ _ => S.fail rfl
  | succ budget ih =>
    exact S.bind hpoll fun _ _ => @Evaluates.inText _ _ _ S.evaluates 0 _ _ _ ((S.builds ih).readWith_related s)

theorem readWith_related (S : c.Carries P rel) (budget : Nat) (s : String) :
    rel (c.readWith (c.readNested budget) s) (c.readWith (c.readNested budget) s) fun _ => True :=
  (S.builds (S.readNested_related budget)).readWith_related s

theorem parse_related (S : c.Carries P rel) (s : String) : rel (c.parse s) (c.parse s) fun _ => True :=
  S.bind (S.readWith_related _ s) fun _ _ => S.pure trivial

/-! ### Evaluation -/

theorem value_related (S : c.Carries P rel) {eval eval' : ValueType → String → Run Value} {n : Node}
    (heval : ∀ target text, P (.evalText target text) → ∀ s, rel (eval target s) (eval' target s) fun _ => True)
    (hn : ∀ m ∈ n.parts, P m) : rel (n.value c eval) (n.value c eval') fun _ => True :=
  @Node.value_simulates _ _ _ _ _ 0 S.evaluates heval n _ (Nat.le_refl _) hn

/-- The text of a row may be read to any node. -/
theorem rowText_related (S : c.Carries P rel) (hP : ∀ n, P n) (fuel : Nat) (target : ValueType) (s : String) :
    rel (c.rowText fuel target s) (c.rowText fuel target s) fun _ => True := by
  induction fuel generalizing target s with
  | zero => exact S.exhausted
  | succ fuel ih =>
    refine S.bind ((S.builds (S.readNested_related c.options.textLimit)).readText_related s) fun inner _ => ?_
    have hvalue : rel (c.evaluateWithin fuel inner) (c.evaluateWithin fuel inner) fun _ => True := by
      rw [evaluateWithin_eq]
      exact S.value_related (fun t _ _ s => ih t s) fun m _ => hP m
    exact S.bind (@Evaluates.evalText _ _ _ S.evaluates 0 _ _ _ hvalue) fun v _ => @Evaluates.typed _ _ _ 0 _ S.evaluates _ _

theorem evaluateWithin_related (S : c.Carries P rel) (hP : ∀ target text, P (.evalText target text) → ∀ n, P n) (fuel : Nat)
    {n : Node} (hn : ∀ m ∈ n.parts, P m) : rel (c.evaluateWithin fuel n) (c.evaluateWithin fuel n) fun _ => True := by
  rw [evaluateWithin_eq]
  exact S.value_related (fun t text h s => S.rowText_related (hP t text h) fuel t s) hn

end Context.Carries

end Rowwise
