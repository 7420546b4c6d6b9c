import Rowwise.Eval.Compile

/-!
# Rowwise.Eval.Expression — expressions as a host uses them

A host parses a text once and evaluates the expression in as many rows as it likes.
-/

namespace Rowwise

/-- A parsed expression. -/
structure Expression where
  root : Node

namespace Context

/-- Parses a text. -/
def parse (c : Context) (s : String) : Run Expression := do return ⟨← c.readWith c.readInner s⟩

/-- Calls a function on nodes. -/
def call (c : Context) (name : String) (args : List Node) : Run Expression := do
  return ⟨← c.callWith c.readInner name args⟩

end Context

namespace Expression

/-- The type of the values. -/
def type (e : Expression) : ValueType := e.root.type

/-- True if all rows yield one value, which has been found already. -/
def isConstant (e : Expression) : Bool := e.root.isConstant

/-- The value in the current row. -/
def evaluate (e : Expression) (c : Context) : Run Value := c.evaluate e.root

/-- The value in the current row as one of a storage; another type than the expression's is a defect. -/
def evaluateAs (e : Expression) (c : Context) (storage : Storage) : Run Value :=
  Node.request storage e.type (e.evaluate c)

end Expression

end Rowwise
