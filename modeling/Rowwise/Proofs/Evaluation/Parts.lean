import Rowwise.Eval.Evaluate

/-!
# Rowwise.Proofs.Evaluation.Parts — what a node is made of

The parts of a node are the node and all nodes in it (`Node.parts`).  They tell how many texts stand in each other
(`Node.textDepth`), to which columns the node refers (`Node.ReadsOnly`) and what else it looks up in a row.
-/

namespace Rowwise.Node

/-! ### Parts -/

mutual

/-- The node and all nodes that it is made of. -/
def parts : Node → List Node
  | strict f type args => strict f type args :: allParts args
  | aggregate f type args => aggregate f type args :: allParts args
  | binomial n k => binomial n k :: (n.parts ++ k.parts)
  | choose type condition yes no => choose type condition yes no :: (condition.parts ++ (yes.parts ++ no.parts))
  | convert function target n => convert function target n :: n.parts
  | nested n => nested n :: n.parts
  | spliced n => spliced n :: n.parts
  | evalText target text => evalText target text :: text.parts
  | columnNamed target name => columnNamed target name :: name.parts
  | macroNamed name => macroNamed name :: name.parts
  | macroOr name default => macroOr name default :: (name.parts ++ default.parts)
  | seeded seed => seeded seed :: seed.parts
  | parameter operator name => parameter operator name :: (operator.parts ++ name.parts)
  | host f args => host f args :: allParts args
  | const v => [const v]
  | varying v => [varying v]
  | column source name type => [column source name type]
  | refuse function cause => [refuse function cause]
  | now => [now]
  | random stream => [random stream]

/-- The parts of all of some nodes. -/
def allParts : List Node → List Node
  | [] => []
  | n :: ns => n.parts ++ allParts ns

end

/-! ### The texts of a node -/

mutual

/-- How many texts the node has open at once while it is evaluated, if each text of a row opens up to `e`. -/
def textDepth (e : Nat) : Node → Nat
  | strict _ _ args => textDepthAll e args
  | aggregate _ _ args => textDepthAll e args
  | binomial n k => max (n.textDepth e) (k.textDepth e)
  | choose _ condition yes no => max (condition.textDepth e) (max (yes.textDepth e) (no.textDepth e))
  | convert _ _ n => n.textDepth e
  | nested n => n.textDepth e + 1
  | spliced n => n.textDepth e + 1
  | evalText _ text => max (text.textDepth e) e
  | columnNamed _ name => name.textDepth e
  | macroNamed name => name.textDepth e
  | macroOr name default => max (name.textDepth e) (default.textDepth e)
  | seeded seed => seed.textDepth e
  | parameter operator name => max (operator.textDepth e) (name.textDepth e)
  | host _ args => textDepthAll e args
  | const _ | varying _ | column _ _ _ | refuse _ _ | now | random _ => 0

/-- The most texts that any of some nodes has open at once. -/
def textDepthAll (e : Nat) : List Node → Nat
  | [] => 0
  | n :: ns => max (n.textDepth e) (textDepthAll e ns)

end

theorem textDepthAll_le {e k : Nat} {ns : List Node} (h : ∀ n ∈ ns, n.textDepth e ≤ k) : textDepthAll e ns ≤ k := by
  induction ns with
  | nil => exact Nat.zero_le k
  | cons n ns ih =>
    rw [textDepthAll]
    exact Nat.max_le.2 ⟨h n List.mem_cons_self, ih fun m hm => h m (List.mem_cons_of_mem _ hm)⟩

/-! ### The columns of a node -/

mutual

/-- All columns that the node refers to are in `C`, and only if `L` holds others may be found by name in a row. -/
def ReadsOnly (C : Nat → String → ValueType → Prop) (L : Prop) : Node → Prop
  | column source name type => C source name type
  | strict _ _ args => AllReadOnly C L args
  | aggregate _ _ args => AllReadOnly C L args
  | binomial n k => n.ReadsOnly C L ∧ k.ReadsOnly C L
  | choose _ condition yes no => condition.ReadsOnly C L ∧ yes.ReadsOnly C L ∧ no.ReadsOnly C L
  | convert _ _ n => n.ReadsOnly C L
  | nested n => n.ReadsOnly C L
  | spliced n => n.ReadsOnly C L
  | evalText _ text => L ∧ text.ReadsOnly C L
  | columnNamed _ name => L ∧ name.ReadsOnly C L
  | macroNamed name => name.ReadsOnly C L
  | macroOr name default => name.ReadsOnly C L ∧ default.ReadsOnly C L
  | seeded seed => seed.ReadsOnly C L
  | parameter operator name => operator.ReadsOnly C L ∧ name.ReadsOnly C L
  | host _ args => AllReadOnly C L args
  | const _ | varying _ | refuse _ _ | now | random _ => True

/-- The same for all of some nodes. -/
def AllReadOnly (C : Nat → String → ValueType → Prop) (L : Prop) : List Node → Prop
  | [] => True
  | n :: ns => n.ReadsOnly C L ∧ AllReadOnly C L ns

end

theorem allReadOnly_iff {C : Nat → String → ValueType → Prop} {L : Prop} {ns : List Node} :
    AllReadOnly C L ns ↔ ∀ n ∈ ns, n.ReadsOnly C L := by
  induction ns with
  | nil => simp [AllReadOnly]
  | cons n ns ih => simp [AllReadOnly, ih]

theorem marked_readsOnly {C : Nat → String → ValueType → Prop} {L : Prop} {mark : Node → Node} {n : Node}
    (h : n.ReadsOnly C L) (hmark : (mark n).ReadsOnly C L) : (n.marked mark).ReadsOnly C L := by
  cases n <;> first | exact h | exact hmark

mutual

/-- Two things known of the columns of a node are known together. -/
theorem ReadsOnly.meet {C₁ C₂ C : Nat → String → ValueType → Prop} {L₁ L₂ L : Prop} : ∀ {n : Node},
    n.ReadsOnly C₁ L₁ → n.ReadsOnly C₂ L₂ → (∀ s n t, C₁ s n t → C₂ s n t → C s n t) → (L₁ → L₂ → L) → n.ReadsOnly C L
  | .column _ _ _, h₁, h₂, hC, _ => hC _ _ _ h₁ h₂
  | .strict _ _ _, h₁, h₂, hC, hL | .aggregate _ _ _, h₁, h₂, hC, hL | .host _ _, h₁, h₂, hC, hL =>
    AllReadOnly.meet h₁ h₂ hC hL
  | .binomial _ _, h₁, h₂, hC, hL | .macroOr _ _, h₁, h₂, hC, hL | .parameter _ _, h₁, h₂, hC, hL =>
    ⟨h₁.1.meet h₂.1 hC hL, h₁.2.meet h₂.2 hC hL⟩
  | .choose _ _ _ _, h₁, h₂, hC, hL =>
    ⟨h₁.1.meet h₂.1 hC hL, h₁.2.1.meet h₂.2.1 hC hL, h₁.2.2.meet h₂.2.2 hC hL⟩
  | .evalText _ _, h₁, h₂, hC, hL | .columnNamed _ _, h₁, h₂, hC, hL => ⟨hL h₁.1 h₂.1, ReadsOnly.meet h₁.2 h₂.2 hC hL⟩
  | .convert _ _ n, h₁, h₂, hC, hL | .nested n, h₁, h₂, hC, hL | .spliced n, h₁, h₂, hC, hL
  | .macroNamed n, h₁, h₂, hC, hL | .seeded n, h₁, h₂, hC, hL => ReadsOnly.meet (n := n) h₁ h₂ hC hL
  | .const _, _, _, _, _ | .varying _, _, _, _, _ | .refuse _ _, _, _, _, _ | .now, _, _, _, _
  | .random _, _, _, _, _ => trivial

theorem AllReadOnly.meet {C₁ C₂ C : Nat → String → ValueType → Prop} {L₁ L₂ L : Prop} : ∀ {ns : List Node},
    AllReadOnly C₁ L₁ ns → AllReadOnly C₂ L₂ ns → (∀ s n t, C₁ s n t → C₂ s n t → C s n t) → (L₁ → L₂ → L) →
      AllReadOnly C L ns
  | [], _, _, _, _ => trivial
  | _ :: _, h₁, h₂, hC, hL => ⟨h₁.1.meet h₂.1 hC hL, AllReadOnly.meet h₁.2 h₂.2 hC hL⟩

end

mutual

/-- Without a condition there is nothing to show. -/
theorem readsOnly_true : ∀ n : Node, n.ReadsOnly (fun _ _ _ => True) True
  | .column _ _ _ => trivial
  | .strict _ _ args | .aggregate _ _ args | .host _ args => allReadOnly_true args
  | .binomial n m | .macroOr n m | .parameter n m => ⟨n.readsOnly_true, m.readsOnly_true⟩
  | .choose _ condition yes no => ⟨condition.readsOnly_true, yes.readsOnly_true, no.readsOnly_true⟩
  | .evalText _ n | .columnNamed _ n => ⟨trivial, n.readsOnly_true⟩
  | .convert _ _ n | .nested n | .spliced n | .macroNamed n | .seeded n => n.readsOnly_true
  | .const _ | .varying _ | .refuse _ _ | .now | .random _ => trivial

theorem allReadOnly_true : ∀ ns : List Node, AllReadOnly (fun _ _ _ => True) True ns
  | [] => trivial
  | n :: ns => ⟨n.readsOnly_true, allReadOnly_true ns⟩

end

/-- What `ReadsOnly` says of one part of a node. -/
def ReadsHere (C : Nat → String → ValueType → Prop) (L : Prop) : Node → Prop
  | column source name type => C source name type
  | evalText _ _ | columnNamed _ _ => L
  | _ => True

mutual

theorem ReadsOnly.parts {C : Nat → String → ValueType → Prop} {L : Prop} : ∀ {n : Node}, n.ReadsOnly C L →
    ∀ m ∈ n.parts, m.ReadsHere C L
  | .column _ _ _, h => by simpa [Node.parts, ReadsHere, ReadsOnly] using h
  | .strict _ _ _, h | .aggregate _ _ _, h | .host _ _, h => by
    simpa [Node.parts, ReadsHere] using AllReadOnly.parts h
  | .binomial _ _, h | .macroOr _ _, h | .parameter _ _, h => by
    simpa [Node.parts, ReadsHere, or_imp, forall_and] using And.intro h.1.parts h.2.parts
  | .choose _ _ _ _, h => by
    simpa [Node.parts, ReadsHere, or_imp, forall_and] using And.intro h.1.parts (And.intro h.2.1.parts h.2.2.parts)
  | .evalText _ _, h | .columnNamed _ _, h => by
    simpa [Node.parts, ReadsHere] using And.intro h.1 h.2.parts
  | .convert _ _ n, h | .nested n, h | .spliced n, h | .macroNamed n, h | .seeded n, h => by
    simpa [Node.parts, ReadsHere] using ReadsOnly.parts (n := n) h
  | .const _, _ | .varying _, _ | .refuse _ _, _ | .now, _ | .random _, _ => by simp [Node.parts, ReadsHere]

theorem AllReadOnly.parts {C : Nat → String → ValueType → Prop} {L : Prop} : ∀ {ns : List Node}, AllReadOnly C L ns →
    ∀ m ∈ allParts ns, m.ReadsHere C L
  | [], _ => by simp [allParts]
  | _ :: _, h => by simpa [allParts, or_imp, forall_and] using And.intro h.1.parts h.2.parts

end

/-- True for the nodes that look up a macro by a name found in the row. -/
def looksUpMacro : Node → Bool
  | macroNamed _ | macroOr _ _ => true
  | _ => false

end Rowwise.Node
