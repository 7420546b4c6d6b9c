import Rowwise.Expr.Tree

/-!
# Rowwise.Expr.Chain — from a flat run of operators to a tree

A chain is operands with operators between them, as they stand in the text.  `Chain.tree` goes through it once from left
to right: what has been grouped so far becomes the left side of the next operator as long as that operator binds stronger
than a bound, and each operator and each sign says with which bound its own right side is grouped.
-/

namespace Rowwise

/-- The strength of a level.  The signs stand between products and powers. -/
def Level.strength : Level → Nat
  | disjunction => 10
  | conjunction => 20
  | equality => 30
  | order => 40
  | sum => 50
  | product => 60
  | power => 80

/-- The strength of a sign. -/
def UnaryOp.strength : Nat := 70

/-- The strength of an operator. -/
def BinaryOp.strength (op : BinaryOp) : Nat := op.level.strength

/-- The bound for the right side of an operator: an operator of the same level is left out of it, but powers group to the
right. -/
def BinaryOp.rightBound (op : BinaryOp) : Nat := if op.level = .power then op.strength - 1 else op.strength

/-- An operand with the signs before it. -/
structure Operand where
  signs : List UnaryOp
  primary : Expr

/-- Operands, each with an operator before it. -/
abbrev Links : Type := List (BinaryOp × Operand)

/-- The number of signs and operators. -/
def Links.count : Links → Nat
  | [] => 0
  | link :: links => link.2.signs.length + 1 + count links

/-- Operands with operators between them. -/
structure Chain where
  first : Operand
  rest : Links

namespace Chain

/-- The tree of the start of a chain and what follows it, with at most `n` signs and operators. -/
structure Grouped (n : Nat) where
  tree : Expr
  rest : Links
  count_le : rest.count ≤ n

/-- The same where more signs and operators may follow. -/
def Grouped.mono {m n : Nat} (g : Grouped m) (h : m ≤ n) : Grouped n := ⟨g.tree, g.rest, Nat.le_trans g.count_le h⟩

mutual

/-- Groups an operand and the operators behind it that are stronger than the bound. -/
def operandTree (bound : Nat) (signs : List UnaryOp) (primary : Expr) (links : Links) : Grouped links.count :=
  match signs with
  | [] => linksTree bound primary links
  | op :: signs =>
    match operandTree (UnaryOp.strength - 1) signs primary links with
    | ⟨e, rest, h⟩ => (linksTree bound (.unary op e) rest).mono h
termination_by 2 * (signs.length + links.count) + 1
decreasing_by
  · simp
  · simp
  · simp only [List.length_cons]
    omega

/-- Puts a tree on the left of the operators that are stronger than the bound. -/
def linksTree (bound : Nat) (left : Expr) (links : Links) : Grouped links.count :=
  match links with
  | [] => ⟨left, [], Nat.le_refl _⟩
  | (op, x) :: links =>
    if bound < op.strength then
      match operandTree op.rightBound x.signs x.primary links with
      | ⟨right, rest, h⟩ => (linksTree bound (.binary op left right) rest).mono (Nat.le_add_left_of_le h)
    else ⟨left, (op, x) :: links, Nat.le_refl _⟩
termination_by 2 * links.count
decreasing_by
  · simp only [Links.count]
    omega
  · simp only [Links.count]
    omega

end

/-- The tree of a chain. -/
def tree (c : Chain) : Expr := (operandTree 0 c.first.signs c.first.primary c.rest).tree

end Chain

end Rowwise
