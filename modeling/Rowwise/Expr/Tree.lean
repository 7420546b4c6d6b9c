/-!
# Rowwise.Expr.Tree — the tree of an expression

The operators, the tree, and its depth.  `depth` walks a list of pending subtrees, so that it needs no deep recursion;
`height` says the same by recursion on the tree.
-/

namespace Rowwise

/-! ### Operators -/

/-- The operators before one operand. -/
inductive UnaryOp where
  | negate
  | plus
  | not
deriving DecidableEq, Repr

/-- The operators between two operands. -/
inductive BinaryOp where
  | or
  | and
  | equal
  | unequal
  | less
  | atMost
  | greater
  | atLeast
  | add
  | subtract
  | multiply
  | divide
  | remainder
  | power
deriving DecidableEq, Repr

/-- How an operator is written; it is also the name of its function. -/
def UnaryOp.symbol : UnaryOp → String
  | negate => "-"
  | plus => "+"
  | not => "!"

/-- How an operator is written; it is also the name of its function. -/
def BinaryOp.symbol : BinaryOp → String
  | or => "||"
  | and => "&&"
  | equal => "=="
  | unequal => "!="
  | less => "<"
  | atMost => "<="
  | greater => ">"
  | atLeast => ">="
  | add => "+"
  | subtract => "-"
  | multiply => "*"
  | divide => "/"
  | remainder => "%"
  | power => "^"

/-- How strongly operators bind, from the weakest. -/
inductive Level where
  | disjunction
  | conjunction
  | equality
  | order
  | sum
  | product
  | power
deriving DecidableEq, Repr

/-- The level of an operator. -/
def BinaryOp.level : BinaryOp → Level
  | or => .disjunction
  | and => .conjunction
  | equal | unequal => .equality
  | less | atMost | greater | atLeast => .order
  | add | subtract => .sum
  | multiply | divide | remainder => .product
  | power => .power

/-! ### The tree -/

/-- An expression. -/
inductive Expr where
  /-- Digits without point and exponent. -/
  | integer (x : Float)
  | double (x : Float)
  | text (s : String)
  /-- A bare name. -/
  | name (s : String)
  /-- A name in brackets, which only columns answer to. -/
  | column (s : String)
  /-- The text of a constant of the scope. -/
  | scope (s : String)
  /-- A constant of the scope read as an expression. -/
  | macroRef (s : String)
  | unary (op : UnaryOp) (operand : Expr)
  | binary (op : BinaryOp) (left right : Expr)
  | call (function : String) (arguments : List Expr)
deriving Repr

namespace Expr

/-- The subtrees right below the root. -/
def children : Expr → List Expr
  | unary _ e => [e]
  | binary _ l r => [l, r]
  | call _ es => es
  | _ => []

mutual

/-- The height of a tree; a leaf has height one. -/
def height : Expr → Nat
  | unary _ e => e.height + 1
  | binary _ l r => max l.height r.height + 1
  | call _ es => heights es + 1
  | _ => 1

/-- The greatest height in a list, or zero. -/
def heights : List Expr → Nat
  | [] => 0
  | e :: es => max e.height (heights es)

end

/-- The size of the pending subtrees. -/
noncomputable def pendingSize : List (Expr × Nat) → Nat
  | [] => 0
  | (e, _) :: pending => sizeOf e + pendingSize pending

theorem pendingSize_append (ps qs : List (Expr × Nat)) : pendingSize (ps ++ qs) = pendingSize ps + pendingSize qs := by
  induction ps with
  | nil => simp [pendingSize]
  | cons p ps ih => simp [pendingSize, ih, Nat.add_assoc]

theorem pendingSize_children (e : Expr) (d : Nat) :
    pendingSize (e.children.map fun c => (c, d)) < sizeOf e := by
  cases e with
  | call f es =>
    have h : pendingSize (es.map fun c => (c, d)) < sizeOf es := by
      induction es with
      | nil => simp [pendingSize]
      | cons x xs ih => simp [pendingSize] at ih ⊢; omega
    simp [children] at h ⊢
    omega
  | unary op e =>
    simp only [children, pendingSize, List.map_cons, List.map_nil, unary.sizeOf_spec]
    omega
  | binary op l r =>
    simp only [children, pendingSize, List.map_cons, List.map_nil, binary.sizeOf_spec]
    omega
  | _ => exact Nat.lt_of_lt_of_le Nat.zero_lt_one (Nat.le_add_right 1 _)

/-- The greatest depth met among pending subtrees, each with its own depth. -/
def depthFrom (deepest : Nat) : List (Expr × Nat) → Nat
  | [] => deepest
  | (e, d) :: pending => depthFrom (max deepest d) ((e.children.map fun c => (c, d + 1)) ++ pending)
termination_by pending => pendingSize pending
decreasing_by
  rw [pendingSize_append]
  have := pendingSize_children e (d + 1)
  simp [pendingSize] at this ⊢
  omega

/-- How deep the tree is nested; a leaf has depth one. -/
def depth (e : Expr) : Nat := depthFrom 0 [(e, 1)]

end Expr

end Rowwise
