import Rowwise.Expr.Tree

/-!
# Rowwise.Proofs.Parsing.TreeDepth — every walk over pending subtrees ends, and with the height

A round of a walk takes any pending subtree and makes its children pending, one deeper; in what order does not matter.  Each
round visits one node, so a walk ends after as many rounds as the tree has nodes.  The greatest depth that the walk has met or
that its pending subtrees reach stays the same, so it ends with the height of the tree.  `Expr.depth` is one of these walks
(`Expr.depth_eq_height`), and what holds of all of them is `Expr.walk_ends_with_height`.
-/

namespace Rowwise.Expr

/-! ### Nodes -/

mutual

/-- How many nodes a tree has. -/
def nodes : Expr → Nat
  | unary _ e => e.nodes + 1
  | binary _ l r => l.nodes + r.nodes + 1
  | call _ es => nodesIn es + 1
  | _ => 1

/-- How many nodes the trees of a list have. -/
def nodesIn : List Expr → Nat
  | [] => 0
  | e :: es => e.nodes + nodesIn es

end

theorem nodes_eq_children (e : Expr) : e.nodes = nodesIn e.children + 1 := by
  cases e <;> simp [nodes, nodesIn, children]

theorem nodesIn_append (es fs : List Expr) : nodesIn (es ++ fs) = nodesIn es + nodesIn fs := by
  induction es with
  | nil => simp [nodesIn]
  | cons e es ih => simp [nodesIn, ih, Nat.add_assoc]

theorem nodesIn_perm {es fs : List Expr} (h : es.Perm fs) : nodesIn es = nodesIn fs := by
  induction h with
  | nil => rfl
  | cons e _ ih => simp [nodesIn, ih]
  | swap e f es => simp only [nodesIn]; omega
  | trans _ _ ih ih' => exact ih.trans ih'

theorem nodesIn_eq_zero_iff {es : List Expr} : nodesIn es = 0 ↔ es = [] := by
  cases es with
  | nil => simp [nodesIn]
  | cons e es => simp [nodesIn, nodes_eq_children e]

/-! ### Heights -/

theorem height_eq_children (e : Expr) : e.height = heights e.children + 1 := by
  cases e <;> simp [height, heights, children]

theorem height_le_heights {e : Expr} {es : List Expr} (h : e ∈ es) : e.height ≤ heights es := by
  induction h with
  | head es => exact Nat.le_max_left _ _
  | tail f _ ih => exact Nat.le_trans ih (Nat.le_max_right _ _)

theorem exists_height_eq_heights {es : List Expr} (h : es ≠ []) : ∃ e ∈ es, heights es = e.height := by
  induction es with
  | nil => exact absurd rfl h
  | cons e es ih =>
    by_cases hes : es = []
    · subst hes
      exact ⟨e, List.mem_cons_self, Nat.max_eq_left (Nat.zero_le _)⟩
    · obtain ⟨f, hf, hheight⟩ := ih hes
      rcases Nat.le_total e.height f.height with hle | hle
      · exact ⟨f, List.mem_cons_of_mem _ hf, by rw [heights, hheight, Nat.max_eq_right hle]⟩
      · exact ⟨e, List.mem_cons_self, by rw [heights, hheight, Nat.max_eq_left hle]⟩

/-! ### Pending subtrees -/

/-- The greatest depth that pending subtrees reach, or zero. -/
def reach : List (Expr × Nat) → Nat
  | [] => 0
  | (e, d) :: pending => max (d + e.height - 1) (reach pending)

theorem reach_append (ps qs : List (Expr × Nat)) : reach (ps ++ qs) = max (reach ps) (reach qs) := by
  induction ps with
  | nil => simp [reach]
  | cons p ps ih =>
    obtain ⟨e, d⟩ := p
    simp only [List.cons_append, reach, ih]
    omega

theorem reach_map (es : List Expr) (d : Nat) : max d (reach (es.map fun e => (e, d + 1))) = d + heights es := by
  induction es with
  | nil => simp [reach, heights]
  | cons e es ih =>
    have hpos := height_eq_children e
    simp only [List.map_cons, reach, heights]
    omega

theorem reach_perm {ps qs : List (Expr × Nat)} (h : ps.Perm qs) : reach ps = reach qs := by
  induction h with
  | nil => rfl
  | cons p _ ih => simp only [reach, ih]
  | swap p q ps => simp only [reach]; omega
  | trans _ _ ih ih' => exact ih.trans ih'

/-! ### Walks -/

/-- A walk on its way: the greatest depth that it has met, and the pending subtrees, each with its own depth. -/
structure Walk where
  deepest : Nat
  pending : List (Expr × Nat)

namespace Walk

/-- A round takes a pending subtree out, from any place, and puts its children in, at any place. -/
inductive Round : Walk → Walk → Prop where
  | visit {deepest d : Nat} {e : Expr} {pending rest next : List (Expr × Nat)} (out : pending.Perm ((e, d) :: rest))
      (into : next.Perm ((e.children.map fun c => (c, d + 1)) ++ rest)) : Round ⟨deepest, pending⟩ ⟨max deepest d, next⟩

/-- Rounds one after the other, with their number. -/
inductive Rounds : Walk → Nat → Walk → Prop where
  | none (w : Walk) : Rounds w 0 w
  | more {w w' w'' : Walk} {n : Nat} (first : Round w w') (others : Rounds w' n w'') : Rounds w (n + 1) w''

/-- The walk over a tree, before its first round. -/
def ofTree (e : Expr) : Walk := ⟨0, [(e, 1)]⟩

/-- The nodes that have not been visited. -/
def left (w : Walk) : Nat := nodesIn (w.pending.map Prod.fst)

/-- The greatest depth that has been met or will be. -/
def outcome (w : Walk) : Nat := max w.deepest (reach w.pending)

variable {w w' : Walk} {n : Nat} {e : Expr}

theorem left_eq_zero_iff : w.left = 0 ↔ w.pending = [] := by
  rw [left, nodesIn_eq_zero_iff, List.map_eq_nil_iff]

theorem Round.left_eq (h : Round w w') : w.left = w'.left + 1 := by
  obtain @⟨deepest, d, e, pending, rest, next, out, into⟩ := h
  have hchildren : (e.children.map fun c => (c, d + 1)).map Prod.fst = e.children := by simp [Function.comp_def]
  have hnodes := nodes_eq_children e
  simp only [left, nodesIn_perm (out.map Prod.fst), nodesIn_perm (into.map Prod.fst), List.map_append, List.map_cons, hchildren,
    nodesIn_append, nodesIn]
  omega

theorem Round.outcome_eq (h : Round w w') : w'.outcome = w.outcome := by
  obtain @⟨deepest, d, e, pending, rest, next, out, into⟩ := h
  have hchildren := reach_map e.children d
  have hheight := height_eq_children e
  simp only [outcome, reach_perm out, reach_perm into, reach_append, reach]
  omega

/-- As long as subtrees are pending, the walk goes on. -/
theorem exists_round (h : w.pending ≠ []) : ∃ w', Round w w' := by
  obtain ⟨deepest, pending⟩ := w
  cases pending with
  | nil => exact absurd rfl h
  | cons p rest => exact ⟨_, .visit (.refl _) (.refl _)⟩

theorem Rounds.left_eq (h : Rounds w n w') : w.left = w'.left + n := by
  induction h with
  | none => rfl
  | more first _ ih =>
    rw [first.left_eq, ih]
    omega

theorem Rounds.outcome_eq (h : Rounds w n w') : w'.outcome = w.outcome := by
  induction h with
  | none => rfl
  | more first _ ih => exact ih.trans first.outcome_eq

theorem left_ofTree (e : Expr) : (ofTree e).left = e.nodes := rfl

theorem outcome_ofTree (e : Expr) : (ofTree e).outcome = e.height := by
  have hheight := height_eq_children e
  simp only [outcome, ofTree, reach]
  omega

/-- After some rounds over a tree, the other nodes are left. -/
theorem Rounds.left_add (h : Rounds (ofTree e) n w) : w.left + n = e.nodes := by
  rw [← h.left_eq, left_ofTree]

/-- At its end a walk over a tree has met the height. -/
theorem Rounds.deepest_eq (h : Rounds (ofTree e) n w) (hend : w.pending = []) : w.deepest = e.height := by
  have houtcome := h.outcome_eq
  rwa [outcome_ofTree, outcome, hend, reach, Nat.max_eq_left (Nat.zero_le _)] at houtcome

end Walk

/-- The depth is found by a walk that always takes the first pending subtree. -/
theorem rounds_depthFrom (deepest : Nat) (pending : List (Expr × Nat)) :
    ∃ n, Walk.Rounds ⟨deepest, pending⟩ n ⟨depthFrom deepest pending, []⟩ := by
  fun_induction depthFrom deepest pending with
  | case1 deepest => exact ⟨0, .none _⟩
  | case2 deepest e d pending ih =>
    obtain ⟨n, hrounds⟩ := ih
    exact ⟨n + 1, .more (.visit (.refl _) (.refl _)) hrounds⟩

/-- The depth of a tree is its height. -/
theorem depth_eq_height (e : Expr) : e.depth = e.height := by
  obtain ⟨n, hrounds⟩ := rounds_depthFrom 0 [(e, 1)]
  exact hrounds.deepest_eq rfl

/-- Whatever pending subtree each round of a walk over a tree takes, the walk goes on until none is left, which is after as many
rounds as the tree has nodes, and then it has found the height; the depth is found by such a walk.  The height is one without
children, and otherwise one more than that of the highest child. -/
theorem walk_ends_with_height (e : Expr) :
    (∀ n w, Walk.Rounds (.ofTree e) n w →
      n ≤ e.nodes ∧ (w.pending ≠ [] → n < e.nodes ∧ ∃ w', Walk.Round w w') ∧
      (w.pending = [] → n = e.nodes ∧ w.deepest = e.height)) ∧
    Walk.Rounds (.ofTree e) e.nodes ⟨e.depth, []⟩ ∧ e.depth = e.height ∧
    (e.children = [] → e.height = 1) ∧ (∀ c ∈ e.children, c.height < e.height) ∧
    (e.children ≠ [] → ∃ c ∈ e.children, e.height = c.height + 1) := by
  have hheight := height_eq_children e
  refine ⟨fun n w h => ?_, ?_, depth_eq_height e, fun h => ?_, fun c hc => ?_, fun h => ?_⟩
  · have hleft := h.left_add
    refine ⟨by omega, fun hpending => ⟨?_, Walk.exists_round hpending⟩, fun hpending => ⟨?_, h.deepest_eq hpending⟩⟩
    · have hmore : w.left ≠ 0 := mt Walk.left_eq_zero_iff.1 hpending
      omega
    · have hnone : w.left = 0 := Walk.left_eq_zero_iff.2 hpending
      omega
  · obtain ⟨n, hrounds⟩ := rounds_depthFrom 0 [(e, 1)]
    have hleft : 0 + n = e.nodes := hrounds.left_add
    rwa [← hleft, Nat.zero_add]
  · rw [hheight, h]
    rfl
  · have := height_le_heights hc
    omega
  · obtain ⟨c, hc, hmost⟩ := exists_height_eq_heights h
    exact ⟨c, hc, by rw [hheight, hmost]⟩

end Rowwise.Expr
