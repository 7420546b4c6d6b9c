import Rowwise.Table.Column

/-!
# Rowwise.Table.Table — tables of columns

A table is a list of columns of one height with distinct names; `Table.ofColumns` refuses any other list.
-/

namespace Rowwise

/-- Why columns are no table. -/
inductive TableCause where
  | ragged (name : String) (found expected : Nat)
  | duplicate (name : String)
deriving DecidableEq, Repr

/-- The wording. -/
def TableCause.text : TableCause → String
  | ragged name found expected => "column '" ++ name ++ s!"' has {found} rows, expected {expected}"
  | duplicate name => "duplicate column '" ++ name ++ "'"

/-- A table. -/
structure Table where
  columns : List Column
  height : Nat

namespace Table

/-- The first reason why columns of that height, none of which may have a name in `seen`, are no table. -/
def cause? (height : Nat) (seen : List String) : List Column → Option TableCause
  | [] => none
  | c :: cs =>
    if c.name ∈ seen then some (.duplicate c.name)
    else if c.cells.size ≠ height then some (.ragged c.name c.cells.size height)
    else cause? height (c.name :: seen) cs

/-- The table with these columns; the first gives the height. -/
def ofColumns (columns : List Column) : Except TableCause Table :=
  let height := (columns.head?.map fun c => c.cells.size).getD 0
  match cause? height [] columns with
  | some cause => .error cause
  | none => .ok ⟨columns, height⟩

/-- The number of columns. -/
def width (t : Table) : Nat := t.columns.length

/-- The column of that name. -/
def column? (t : Table) (name : String) : Option Column := t.columns.find? fun c => c.name = name

/-- The column of that name in a table to which columns have been added; those come first. -/
def columnWith? (t : Table) (added : List Column) (name : String) : Option Column :=
  (added.find? fun c => c.name = name).or (t.column? name)

/-- Replacing the added column of one name does not change what other names stand for. -/
theorem columnWith?_replace (t : Table) (added : List Column) (c : Column) {name : String} (h : name ≠ c.name) :
    t.columnWith? (added.filter (fun d => d.name ≠ c.name) ++ [c]) name = t.columnWith? added name := by
  have hc : ([c].find? fun d => d.name = name) = none := by simp [Ne.symm h]
  have hf : ((added.filter fun d => d.name ≠ c.name).find? fun d => d.name = name)
      = added.find? fun d => d.name = name := by
    rw [List.find?_filter]
    congr 1
    funext d
    by_cases hd : d.name = name
    · simp [hd, h]
    · simp [hd]
  simp only [columnWith?, List.find?_append, hc, hf, Option.or_none]

end Table

end Rowwise
