import Rowwise.Expr.Chain
import Rowwise.Proofs.Parsing.Language

/-!
# Rowwise.Proofs.Parsing.ChainTree — the tree of a chain follows the strata

`Groups` says which trees the strata allow for a chain.  The one pass of `Chain.tree` builds such a tree (`groups_tree`),
and there is no other (`Groups.eq_tree`).  What holds of every tree that the strata allow is then shown along the strata:
a tree is at most as many levels higher than its primaries as the chain has signs and operators (`Chain.height_tree`),
and what holds of the whole tree and of the parts of every operator holds of each primary (`Chain.forall_of_tree`).
-/

namespace Rowwise

theorem Links.count_append (l m : Links) : Links.count (l ++ m) = l.count + m.count := by
  induction l with
  | nil => simp [Links.count]
  | cons link l ih =>
    simp only [List.cons_append, Links.count, ih]
    omega

namespace Chain

/-- The operands from left to right. -/
def operands (c : Chain) : List Operand := c.first :: c.rest.map Prod.snd

theorem mem_operands_append {x y z : Operand} {op : BinaryOp} {l m : Links} :
    z ∈ operands ⟨x, l ++ (op, y) :: m⟩ ↔ z ∈ operands ⟨x, l⟩ ∨ z ∈ operands ⟨y, m⟩ := by
  simp [operands, or_assoc]

/-- The number of signs and operators. -/
def operatorCount (c : Chain) : Nat := c.first.signs.length + c.rest.count

end Chain

/-! ### The strata of a chain -/

/-- The stratum allows the tree for the operand and the operators behind it. -/
inductive Groups : Stratum → Operand → Links → Expr → Prop where
  | next {s t x l e} : s.next? = some t → Groups t x l e → Groups s x l e
  | binary {s t op x l y m left right} : s.next? = some t → op ∈ s.operators → Groups s x l left →
      Groups t y m right → Groups s x (l ++ (op, y) :: m) (.binary op left right)
  | sign {op signs p l e} : Groups .signed ⟨signs, p⟩ l e → Groups .signed ⟨op :: signs, p⟩ l (.unary op e)
  | power {p y m right} : Groups .signed y m right → Groups .power ⟨[], p⟩ ((.power, y) :: m) (.binary .power p right)
  | primary {p} : Groups .primary ⟨[], p⟩ [] p

namespace Stratum

/-- The place of a stratum, from the outermost. -/
def rank : Stratum → Nat
  | whole => 0
  | disjunction => 1
  | conjunction => 2
  | equality => 3
  | order => 4
  | sum => 5
  | product => 6
  | signed => 7
  | power => 8
  | primary => 9

/-- The strongest operator that may follow an expression of a stratum: one that is stronger would have become part of
it. -/
def ceiling : Stratum → Nat
  | whole => 0
  | disjunction => 10
  | conjunction => 20
  | equality => 30
  | order => 40
  | sum => 50
  | product => 60
  | signed | power => 69
  | primary => 80

/-- A stratum is grouped under bounds below this one. -/
def base : Stratum → Nat
  | whole => 0
  | disjunction => 10
  | conjunction => 20
  | equality => 30
  | order => 40
  | sum => 50
  | product => 60
  | signed | power | primary => 80

/-- The outermost stratum whose operators are all stronger than a bound. -/
def above (bound : Nat) : Stratum :=
  if bound < 10 then disjunction
  else if bound < 20 then conjunction
  else if bound < 30 then equality
  else if bound < 40 then order
  else if bound < 50 then sum
  else if bound < 60 then product
  else signed

variable {s t : Stratum}

theorem rank_next (h : s.next? = some t) : t.rank = s.rank + 1 := by
  revert t
  cases s <;> rintro t ⟨⟩ <;> rfl

theorem ceiling_next (h : s.next? = some t) : s.ceiling ≤ t.ceiling := by
  revert t
  cases s <;> rintro t ⟨⟩ <;> decide

theorem base_next (h : s.next? = some t) : s.base ≤ t.base := by
  revert t
  cases s <;> rintro t ⟨⟩ <;> decide

theorem eq_of_rank (h : s.rank = t.rank) : s = t := by
  revert t
  cases s <;> intro t <;> cases t <;> simp [rank]

theorem next_of_rank_lt (hs : s ≠ whole) (h : s.rank < t.rank) : ∃ s', s.next? = some s' := by
  cases s with
  | whole => exact absurd rfl hs
  | primary => cases t <;> simp [rank] at h
  | _ => exact ⟨_, rfl⟩

theorem rank_above (bound : Nat) : (above bound).rank = min (bound / 10 + 1) 7 := by
  unfold above
  repeat' split
  all_goals
    simp only [rank]
    omega

theorem rank_above_le {bound : Nat} (h : bound < s.base) : (above bound).rank ≤ s.rank := by
  rw [rank_above]
  cases s <;> simp only [base, rank] at h ⊢ <;> omega

theorem rank_le_of_ceiling {op : BinaryOp} (hs : op ∈ s.operators) (h : s.ceiling ≤ t.ceiling) : s.rank ≤ t.rank := by
  revert h
  cases s <;> cases t <;> simp [operators, ceiling, rank] at hs ⊢

theorem rank_above_le_signed (bound : Nat) (h : signed.rank ≤ t.rank) : (above bound).rank ≤ t.rank := by
  rw [rank_above]
  exact Nat.le_trans (Nat.min_le_right _ _) h

theorem eq_primary_of_ceiling (h : 80 ≤ s.ceiling) : s = primary := by
  cases s <;> simp [ceiling] at h ⊢

/-- The bound for the right side of an operator lets in the operators of the next stratum. -/
theorem ceiling_lt_base {op : BinaryOp} (hs : op ∈ s.operators) (h : s.next? = some t) : s.ceiling < t.base := by
  revert t
  cases s <;> rintro t ⟨⟩ <;> simp [operators, ceiling, base] at hs ⊢

theorem above_ne_whole (bound : Nat) : above bound ≠ whole := by
  unfold above
  repeat' split
  all_goals decide

/-- An operator of a stratum is as strong as the stratum says, and so is the bound for its right side. -/
theorem strength_of_mem {op : BinaryOp} (h : op ∈ s.operators) :
    op.strength = s.ceiling ∧ op.rightBound = s.ceiling ∧ op.strength = s.base := by
  revert op
  cases s <;> decide

end Stratum

/-- An operator is a power, or joins to the left in the outermost stratum whose next one has stronger operators only. -/
theorem BinaryOp.power_or_joins (op : BinaryOp) : op = .power ∨
    ∃ s : Stratum, op ∈ s.operators ∧ s.next? = some (Stratum.above op.rightBound) := by
  cases op with
  | or => exact Or.inr ⟨.disjunction, by decide, by decide⟩
  | and => exact Or.inr ⟨.conjunction, by decide, by decide⟩
  | equal | unequal => exact Or.inr ⟨.equality, by decide, by decide⟩
  | less | atMost | greater | atLeast => exact Or.inr ⟨.order, by decide, by decide⟩
  | add | subtract => exact Or.inr ⟨.sum, by decide, by decide⟩
  | multiply | divide | remainder => exact Or.inr ⟨.product, by decide, by decide⟩
  | power => exact Or.inl rfl

/-- The next operator, if there is one, is at most this strong. -/
def Links.AtMost (n : Nat) (l : Links) : Prop := ∀ link ∈ l.head?, link.1.strength ≤ n

theorem Links.AtMost.mono {m n : Nat} {l : Links} (h : l.AtMost m) (hle : m ≤ n) : l.AtMost n :=
  fun link hlink => Nat.le_trans (h link hlink) hle

/-- Powers are the strongest operators, and no operator is as strong as the signs. -/
theorem BinaryOp.strength_bounds (op : BinaryOp) :
    0 < op.strength ∧ op.strength ≤ 80 ∧ (op.strength < 80 → op.strength ≤ 69) := by
  cases op <;> decide

theorem Links.atMost_all (l : Links) : l.AtMost 80 :=
  fun link _ => link.1.strength_bounds.2.1

theorem Links.eq_nil_of_atMost_zero {l : Links} (h : l.AtMost 0) : l = [] := by
  cases l with
  | nil => rfl
  | cons link l => exact absurd (h link rfl) (Nat.not_le_of_lt link.1.strength_bounds.1)

theorem Links.exists_cons_of_not_atMost {n : Nat} {l : Links} (h : ¬ l.AtMost n) :
    ∃ link more, l = link :: more ∧ n < link.1.strength := by
  cases l with
  | nil => exact absurd (by simp [Links.AtMost]) h
  | cons link more =>
    refine ⟨link, more, rfl, Nat.lt_of_not_le fun hle => h fun _ hlink => ?_⟩
    cases hlink
    exact hle

theorem Links.AtMost.below_signs {n : Nat} {l : Links} (h : l.AtMost n) (hn : n < 80) : l.AtMost 69 :=
  fun link hlink => link.1.strength_bounds.2.2 (Nat.lt_of_le_of_lt (h link hlink) hn)

namespace Groups

variable {s t : Stratum} {x : Operand} {l : Links} {e : Expr}

theorem of_primary (h : Groups t x l e) (ht : t = .primary) : x = ⟨[], e⟩ ∧ l = [] := by
  subst ht
  cases h with
  | next hnext => cases hnext
  | binary hnext => cases hnext
  | primary => exact ⟨rfl, rfl⟩

/-- An expression of a stratum is one of each stratum outside it. -/
theorem weaken (h : Groups t x l e) (hs : s ≠ .whole) (hle : s.rank ≤ t.rank) : Groups s x l e := by
  obtain ⟨k, hk⟩ := Nat.exists_eq_add_of_le hle
  induction k generalizing s with
  | zero => rwa [Stratum.eq_of_rank hk.symm]
  | succ k ih =>
    obtain ⟨s', hnext⟩ := Stratum.next_of_rank_lt hs (t := t) (by omega)
    have hrank := Stratum.rank_next hnext
    refine .next hnext (ih ?_ (by omega) (by omega))
    rintro rfl
    simp [Stratum.rank] at hrank

end Groups

namespace Chain

/-! ### The pass in equations -/

/-- A tree and what follows it. -/
def Grouped.parts {n : Nat} (g : Grouped n) : Expr × Links := (g.tree, g.rest)

theorem operandTree_nil (b : Nat) (p : Expr) (l : Links) : (operandTree b [] p l).parts = (linksTree b p l).parts := by
  rw [operandTree]

theorem operandTree_cons (b : Nat) (op : UnaryOp) (signs : List UnaryOp) (p : Expr) (l : Links) :
    (operandTree b (op :: signs) p l).parts =
      (linksTree b (.unary op (operandTree (UnaryOp.strength - 1) signs p l).parts.1)
        (operandTree (UnaryOp.strength - 1) signs p l).parts.2).parts := by
  rw [operandTree]
  rfl

theorem linksTree_cons {b : Nat} {op : BinaryOp} (h : b < op.strength) (left : Expr) (x : Operand) (l : Links) :
    (linksTree b left ((op, x) :: l)).parts =
      (linksTree b (.binary op left (operandTree op.rightBound x.signs x.primary l).parts.1)
        (operandTree op.rightBound x.signs x.primary l).parts.2).parts := by
  rw [linksTree, if_pos h]
  rfl

theorem linksTree_of_atMost {b : Nat} {l : Links} (h : l.AtMost b) (left : Expr) :
    (linksTree b left l).parts = (left, l) := by
  cases l with
  | nil =>
    rw [linksTree]
    rfl
  | cons link l =>
    rw [linksTree, if_neg (Nat.not_lt.2 (h link rfl))]
    rfl

/-! ### The pass builds what the strata allow -/

mutual

theorem operandTree_groups (b : Nat) (signs : List UnaryOp) (p : Expr) (links : Links) :
    ∃ l, links = l ++ (operandTree b signs p links).parts.2 ∧
      Groups (.above b) ⟨signs, p⟩ l (operandTree b signs p links).parts.1 ∧
      Links.AtMost b (operandTree b signs p links).parts.2 := by
  cases signs with
  | nil =>
    rw [operandTree_nil]
    exact linksTree_groups b p links .primary (Links.atMost_all links) (Stratum.rank_above_le_signed b (by decide))
  | cons op signs =>
    obtain ⟨l, hlinks, hinner, hrest⟩ := operandTree_groups (UnaryOp.strength - 1) signs p links
    have hcount := (operandTree (UnaryOp.strength - 1) signs p links).count_le
    obtain ⟨m, hmore, houter, hlast⟩ := linksTree_groups b _ (operandTree (UnaryOp.strength - 1) signs p links).parts.2
      (.sign hinner) hrest (Stratum.rank_above_le_signed b (by decide))
    rw [operandTree_cons]
    exact ⟨l ++ m, by rw [List.append_assoc, ← hmore, ← hlinks], houter, hlast⟩
termination_by 2 * (signs.length + links.count) + 1
decreasing_by
  · simp
  · simp
  · simp only [Grouped.parts, List.length_cons] at hcount ⊢
    omega

theorem linksTree_groups {t : Stratum} {x : Operand} {l : Links} (b : Nat) (left : Expr) (links : Links)
    (hleft : Groups t x l left) (hlinks : links.AtMost t.ceiling) (ht : (Stratum.above b).rank ≤ t.rank) :
    ∃ m, links = m ++ (linksTree b left links).parts.2 ∧ Groups (.above b) x (l ++ m) (linksTree b left links).parts.1 ∧
      Links.AtMost b (linksTree b left links).parts.2 := by
  by_cases hstop : links.AtMost b
  · rw [linksTree_of_atMost hstop]
    exact ⟨[], rfl, by simpa using hleft.weaken (Stratum.above_ne_whole b) ht, hstop⟩
  obtain ⟨⟨op, y⟩, more, hcons, hb⟩ := Links.exists_cons_of_not_atMost hstop
  have hatMost : op.strength ≤ t.ceiling := hlinks (op, y) (by rw [hcons]; rfl)
  obtain ⟨m, hm, hright, hrest⟩ := operandTree_groups op.rightBound y.signs y.primary more
  -- the new left side, in the stratum of the operator
  have hnew : ∃ s, Groups s x (l ++ (op, y) :: m)
      (.binary op left (operandTree op.rightBound y.signs y.primary more).parts.1) ∧
      Links.AtMost s.ceiling (operandTree op.rightBound y.signs y.primary more).parts.2 ∧ b < s.base := by
    rcases op.power_or_joins with rfl | ⟨s, hop, hnext⟩
    · obtain ⟨rfl, rfl⟩ := hleft.of_primary (Stratum.eq_primary_of_ceiling hatMost)
      exact ⟨.power, .power hright, hrest.below_signs (by decide), hb⟩
    · obtain ⟨hceiling, hbound, hbase⟩ := Stratum.strength_of_mem hop
      have hsame : Groups s x l left := hleft.weaken (by rintro rfl; cases hnext)
        (Stratum.rank_le_of_ceiling hop (hceiling ▸ hatMost))
      exact ⟨s, .binary hnext hop hsame hright, hbound ▸ hrest, hbase ▸ hb⟩
  obtain ⟨s, hnew, hceiling, hbase⟩ := hnew
  have hcount := (operandTree op.rightBound y.signs y.primary more).count_le
  obtain ⟨m', hm', htree, hlast⟩ := linksTree_groups b _ _ hnew hceiling (Stratum.rank_above_le hbase)
  rw [hcons, linksTree_cons hb]
  refine ⟨(op, y) :: (m ++ m'), ?_, by simpa using htree, hlast⟩
  rw [List.cons_append, List.append_assoc, ← hm', ← hm]
termination_by 2 * links.count
decreasing_by
  · simp only [hcons, Links.count]
    omega
  · simp only [hcons, Links.count]
    exact Nat.mul_lt_mul_of_pos_left (Nat.lt_of_le_of_lt hcount (by omega)) Nat.zero_lt_two

end

/-- The pass builds a tree that the strata allow. -/
theorem groups_tree (c : Chain) : Groups .disjunction c.first c.rest c.tree := by
  obtain ⟨l, hlinks, hgroups, hrest⟩ := operandTree_groups 0 c.first.signs c.first.primary c.rest
  rw [Links.eq_nil_of_atMost_zero hrest, List.append_nil] at hlinks
  subst hlinks
  exact hgroups

end Chain

/-! ### The strata allow no other tree -/

section Unique

open Chain

variable {t : Stratum} {x : Operand} {l more : Links} {e : Expr}

/-- Under a bound that all its operators are stronger than, the pass takes a chain for the tree that the strata allow. -/
theorem Groups.parts_operandTree {b : Nat} (h : Groups t x l e) (hb : b < t.base) (hmore : more.AtMost t.ceiling) :
    (operandTree b x.signs x.primary (l ++ more)).parts = (linksTree b e more).parts := by
  induction h generalizing b more with
  | next hnext _ ih =>
    exact ih (Nat.lt_of_lt_of_le hb (Stratum.base_next hnext)) (hmore.mono (Stratum.ceiling_next hnext))
  | @binary s t op x l y m left right hnext hop _ _ ihl ihr =>
    obtain ⟨hceiling, hbound, hbase⟩ := Stratum.strength_of_mem hop
    have hright : (operandTree op.rightBound y.signs y.primary (m ++ more)).parts = (right, more) := by
      rw [ihr (hbound ▸ Stratum.ceiling_lt_base hop hnext) (hmore.mono (Stratum.ceiling_next hnext)),
        linksTree_of_atMost (hbound ▸ hmore)]
    have hop' : Links.AtMost s.ceiling ((op, y) :: (m ++ more)) := fun _ hlink => by cases hlink; exact Nat.le_of_eq hceiling
    rw [List.append_assoc, List.cons_append, ihl hb hop', linksTree_cons (hbase ▸ hb), hright]
  | @sign op signs p l e _ ih =>
    rw [operandTree_cons, ih (by decide) hmore, linksTree_of_atMost (b := UnaryOp.strength - 1) hmore]
  | @power p y m right _ ih =>
    have hright : (operandTree BinaryOp.power.rightBound y.signs y.primary (m ++ more)).parts = (right, more) := by
      rw [ih (by decide) hmore, linksTree_of_atMost (hmore.mono (by decide))]
    rw [operandTree_nil, List.cons_append, linksTree_cons hb, hright]
  | primary => rw [operandTree_nil, List.nil_append]

/-- The strata allow one tree for a chain, the one that the pass builds. -/
theorem Groups.eq_tree (h : Groups .disjunction x l e) : e = Chain.tree ⟨x, l⟩ := by
  have hend : Links.AtMost 0 [] := by simp [Links.AtMost]
  have hparts := h.parts_operandTree (b := 0) (by decide) (hend.mono (Nat.zero_le _))
  rw [List.append_nil, linksTree_of_atMost hend] at hparts
  exact (congrArg Prod.fst hparts).symm

/-- A power may have a sign on its right; the sign takes the next power along, but no product. -/
example (a b c d : Expr) :
    Chain.tree ⟨⟨[], a⟩, [(.power, ⟨[.negate], b⟩), (.power, ⟨[], c⟩), (.multiply, ⟨[], d⟩)]⟩ =
      .binary .multiply (.binary .power a (.unary .negate (.binary .power b c))) d := by
  cbv

end Unique

namespace Groups

variable {s : Stratum} {x : Operand} {l : Links} {e : Expr}

/-! ### Height -/

/-- A tree is at most as many levels higher than its primaries as there are signs and operators. -/
theorem height_le {m : Nat} (h : Groups s x l e) (hm : ∀ y ∈ Chain.operands ⟨x, l⟩, y.primary.height ≤ m) :
    e.height ≤ Chain.operatorCount ⟨x, l⟩ + m := by
  induction h with
  | next _ _ ih => exact ih hm
  | @binary s t op x l y r left right _ _ _ _ ihl ihr =>
    have hleft := ihl fun z hz => hm z (Chain.mem_operands_append.2 (Or.inl hz))
    have hright := ihr fun z hz => hm z (Chain.mem_operands_append.2 (Or.inr hz))
    simp only [Chain.operatorCount, Links.count_append, Links.count, Expr.height] at hleft hright ⊢
    omega
  | sign _ ih =>
    have hfirst := hm _ List.mem_cons_self
    have hoperand := ih fun z hz => by
      rcases List.mem_cons.1 hz with rfl | hz
      · exact hfirst
      · exact hm z (List.mem_cons_of_mem _ hz)
    simp only [Chain.operatorCount, List.length_cons, Expr.height] at hoperand ⊢
    omega
  | power _ ih =>
    have hleft := hm _ List.mem_cons_self
    have hright := ih fun z hz => hm z (List.mem_cons_of_mem _ hz)
    simp only [Chain.operatorCount, Links.count, List.length_nil, Expr.height] at hleft hright ⊢
    omega
  | primary => exact Nat.le_trans (hm _ List.mem_cons_self) (Nat.le_add_left _ _)

/-! ### Properties of the parts -/

/-- What passes from an operator to its sides passes from a tree to each primary. -/
theorem forall_of {P : Expr → Prop} (hunary : ∀ op e, P (.unary op e) → P e)
    (hbinary : ∀ op l r, P (.binary op l r) → P l ∧ P r) (h : Groups s x l e) (he : P e) :
    ∀ y ∈ Chain.operands ⟨x, l⟩, P y.primary := by
  induction h with
  | next _ _ ih => exact ih he
  | @binary s t op x l y m left right _ _ _ _ ihl ihr =>
    obtain ⟨hleft, hright⟩ := hbinary _ _ _ he
    exact fun z hz => (Chain.mem_operands_append.1 hz).elim (ihl hleft z) (ihr hright z)
  | sign _ ih =>
    have hoperand := ih (hunary _ _ he)
    have hfirst := hoperand _ List.mem_cons_self
    intro z hz
    rcases List.mem_cons.1 hz with rfl | hz
    · exact hfirst
    · exact hoperand z (List.mem_cons_of_mem _ hz)
  | power _ ih =>
    obtain ⟨hleft, hright⟩ := hbinary _ _ _ he
    intro z hz
    rcases List.mem_cons.1 hz with rfl | hz
    · exact hleft
    · exact ih hright z hz
  | primary => simpa [Chain.operands] using he

end Groups

namespace Chain

/-- The tree of a chain is at most as many levels higher than its primaries as the chain has signs and operators. -/
theorem height_tree {m : Nat} (c : Chain) (h : ∀ x ∈ c.operands, x.primary.height ≤ m) :
    c.tree.height ≤ c.operatorCount + m :=
  c.groups_tree.height_le h

/-- What passes from an operator to its sides passes from the tree of a chain to each primary. -/
theorem forall_of_tree {P : Expr → Prop} (hunary : ∀ op e, P (.unary op e) → P e)
    (hbinary : ∀ op l r, P (.binary op l r) → P l ∧ P r) (c : Chain) (h : P c.tree) :
    ∀ x ∈ c.operands, P x.primary :=
  c.groups_tree.forall_of hunary hbinary h

end Chain

end Rowwise
