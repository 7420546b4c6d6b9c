import Rowwise.Context.Context

/-!
# Rowwise.Eval.Node — typed nodes of expressions

A node is an expression whose names are resolved and whose types are checked.  Its type is fixed when it is built; what
it yields in a row is a value of that type.  Parts whose arguments are all constant are folded to a constant.
-/

namespace Rowwise

/-- A typed expression. -/
inductive Node where
  | const (v : Value)
  /-- The value of a variable that each row could change. -/
  | varying (v : Value)
  | column (source : Nat) (name : String) (type : ValueType)
  | strict (f : StrictFunction) (type : ValueType) (arguments : List Node)
  | aggregate (f : Aggregate) (type : ValueType) (arguments : List Node)
  | binomial (n k : Node)
  /-- One of two nodes of the type, or a missing value. -/
  | choose (type : ValueType) (condition yes no : Node)
  /-- A value converted to a type on behalf of a function. -/
  | convert (function : String) (target : ValueType) (inner : Node)
  /-- A node read from a text given to `eval`. -/
  | nested (inner : Node)
  /-- A node read from the text of a macro. -/
  | spliced (inner : Node)
  /-- A text that is read as an expression in each row. -/
  | evalText (target : ValueType) (text : Node)
  /-- A column whose name is found in each row. -/
  | columnNamed (target : ValueType) (name : Node)
  /-- A macro whose name is found in each row. -/
  | macroNamed (name : Node)
  /-- The same with a text for macros that are not set. -/
  | macroOr (name default : Node)
  /-- A comparison of types that have no order, which fails in each row. -/
  | refuse (function : String) (cause : TypeCause)
  | now
  /-- The next number of a random stream. -/
  | random (stream : Nat)
  /-- The first random number of a seed. -/
  | seeded (seed : Node)
  | parameter (operator parameter : Node)
  | host (f : HostFunction) (arguments : List Node)

/-- The type of what an action of the host yields. -/
def HostAction.type : HostAction → ValueType
  | probe => .double
  | yields type _ _ => type
  | relay type => type
  | fails _ => .double
  | row type => if type.isNumeric then type else .double

namespace Node

/-- The type of the values that a node yields. -/
def type : Node → ValueType
  | const v => v.type
  | varying v => v.type
  | column _ _ t => t
  | strict _ t _ => t
  | aggregate _ t _ => t
  | binomial _ _ => .integer
  | choose t _ _ _ => t
  | convert _ t _ => t
  | nested n => n.type
  | spliced n => n.type
  | evalText t _ => t
  | columnNamed t _ => t
  | macroNamed _ => .text
  | macroOr _ _ => .text
  | refuse _ _ => .boolean
  | now => .instant
  | random _ => .double
  | seeded _ => .double
  | parameter _ _ => .text
  | host f _ => f.action.type

/-- The value of a constant. -/
def constant? : Node → Option Value
  | const v => some v
  | _ => none

/-- The node of a text within the expression, as `mark` has it; a constant needs no mark. -/
def marked (mark : Node → Node) : Node → Node
  | const v => const v
  | n => mark n

/-- True for constants. -/
def isConstant (n : Node) : Bool := n.constant?.isSome

/-- True for the nodes that can be folded: those whose value depends on constants alone. -/
def isFoldable : Node → Bool
  | const _ => true
  | strict _ _ args => args.all isConstant
  | aggregate _ _ args => args.all isConstant
  | binomial n k => n.isConstant && k.isConstant
  | convert _ _ n => n.isConstant
  | parameter a b => a.isConstant && b.isConstant
  | host f args =>
    match f.action with
    | .probe | .relay _ => (args.head?.map isConstant).getD false
    | .yields _ isConst _ => isConst
    | .fails isConst => isConst
    | .row _ => false
  | _ => false

end Node

end Rowwise
