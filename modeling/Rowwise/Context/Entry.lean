import Rowwise.Value.ValueType

/-!
# Rowwise.Context.Entry — listings of names

A listing has an entry for each name that an expression may refer to.
-/

namespace Rowwise

/-- Whether a name stands for a value of each row or for one value. -/
inductive Scope where
  | row
  | whole
deriving DecidableEq, Repr

/-- What a listing shows of a name. -/
structure Entry where
  name : String
  scope : Scope
  group : String
  type : ValueType
  role : Option String := none
deriving DecidableEq, Repr

end Rowwise
