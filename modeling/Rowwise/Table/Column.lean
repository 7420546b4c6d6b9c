import Rowwise.Value.Value

/-!
# Rowwise.Table.Column — columns of a table

A column has a name, cells of one kind and, if wanted, a role.  The kind of its cells fixes the type of its values.
-/

namespace Rowwise

/-- The cells of a column. -/
inductive Cells where
  | real (xs : Array Float)
  | integer (xs : Array Float)
  | text (xs : Array (Option String))
  | boolean (xs : Array (Option Bool))
  | instant (xs : Array (Option Instant))
  | timeOfDay (xs : Array (Option TimeOfDay))
  | textSet (xs : Array (Option TextSet))
  | textList (xs : Array (Option (List String)))
deriving DecidableEq

namespace Cells

/-- The type of the values in the cells. -/
def type : Cells → ValueType
  | real _ => .double
  | integer _ => .integer
  | text _ => .text
  | boolean _ => .boolean
  | instant _ => .instant
  | timeOfDay _ => .timeOfDay
  | textSet _ => .textSet
  | textList _ => .textList

/-- The number of cells. -/
def size : Cells → Nat
  | real xs => xs.size
  | integer xs => xs.size
  | text xs => xs.size
  | boolean xs => xs.size
  | instant xs => xs.size
  | timeOfDay xs => xs.size
  | textSet xs => xs.size
  | textList xs => xs.size

/-- The value in a row; missing behind the last row. -/
def get (row : Nat) : Cells → Value
  | real xs => .double (xs[row]?.getD Double.nan)
  | integer xs => .integer (xs[row]?.getD Double.nan)
  | text xs => .text (xs[row]?.getD none)
  | boolean xs => .boolean (xs[row]?.getD none)
  | instant xs => .instant (xs[row]?.getD none)
  | timeOfDay xs => .timeOfDay (xs[row]?.getD none)
  | textSet xs => .textSet (xs[row]?.getD none)
  | textList xs => .textList (xs[row]?.getD none)

@[simp] theorem type_get (row : Nat) (c : Cells) : (c.get row).type = c.type := by cases c <;> rfl

/-- The numbers of either type in the cells, if they hold numbers. -/
def numbers? : Cells → Option (Array Float)
  | real xs => some xs
  | integer xs => some xs
  | _ => none

/-- The texts in the cells, if they hold texts. -/
def texts? : Cells → Option (Array (Option String))
  | text xs => some xs
  | _ => none

@[inherit_doc texts?]
def booleans? : Cells → Option (Array (Option Bool))
  | boolean xs => some xs
  | _ => none

@[inherit_doc texts?]
def instants? : Cells → Option (Array (Option Instant))
  | instant xs => some xs
  | _ => none

@[inherit_doc texts?]
def timesOfDay? : Cells → Option (Array (Option TimeOfDay))
  | timeOfDay xs => some xs
  | _ => none

@[inherit_doc texts?]
def textSets? : Cells → Option (Array (Option TextSet))
  | textSet xs => some xs
  | _ => none

@[inherit_doc texts?]
def textLists? : Cells → Option (Array (Option (List String)))
  | textList xs => some xs
  | _ => none

end Cells

/-- A named column. -/
structure Column where
  name : String
  cells : Cells
  role : Option String := none
deriving DecidableEq

/-- The type of the column's values. -/
def Column.type (c : Column) : ValueType := c.cells.type

end Rowwise
