import Rowwise.Table.Column

/-!
# Rowwise.Table.Reader — reading a column row after row

A reader remembers the row it has read last.  The next row, the same row again and, at the start, the first row cost
nothing; any other row in range costs a seek.  Rows behind the end are missing and leave the reader where it is.  There are
two ways to a cell, one for numbers (`Reader.number`) and one for everything else (`Reader.object`); they come to the same
(`Reader.read_eq`).
-/

namespace Rowwise

/-- A reader of a column. -/
structure Reader where
  column : Column
  position : Option Nat := none
  seeks : Nat := 0

namespace Reader

/-- True if reading the row costs no seek. -/
def isFree (r : Reader) (row : Nat) : Bool :=
  match r.position with
  | some last => row = last + 1 || row = last
  | none => row = 0

/-- The reader after a row has been asked for. -/
def moveTo (r : Reader) (row : Nat) : Reader :=
  if row < r.column.cells.size then
    { r with position := some row, seeks := if r.isFree row then r.seeks else r.seeks + 1 }
  else r

/-- Reads a number; none if the column holds no numbers, which its type says. -/
def number (r : Reader) (row : Nat) : Option Float × Reader :=
  if !r.column.type.isNumeric then (none, r)
  else if row < r.column.cells.size then (r.column.cells.numbers?.bind fun xs => xs[row]?, r.moveTo row)
  else (some Double.nan, r.moveTo row)

/-- Reads one of the cells that `pick` finds in the column; none if it finds none there. -/
def object {α : Type} (pick : Cells → Option (Array (Option α))) (r : Reader) (row : Nat) :
    Option (Option α) × Reader :=
  match pick r.column.cells with
  | none => (none, r)
  | some xs => (if row < r.column.cells.size then xs[row]? else some none, r.moveTo row)

/-- Reads a cell as values of this storage; none if the column has another one. -/
def read (r : Reader) (storage : Storage) (row : Nat) : Option Value × Reader :=
  match storage with
  | .number => Prod.map (Option.map (Value.number r.column.type)) id (r.number row)
  | .text => Prod.map (Option.map .text) id (r.object Cells.texts? row)
  | .boolean => Prod.map (Option.map .boolean) id (r.object Cells.booleans? row)
  | .instant => Prod.map (Option.map .instant) id (r.object Cells.instants? row)
  | .timeOfDay => Prod.map (Option.map .timeOfDay) id (r.object Cells.timesOfDay? row)
  | .textSet => Prod.map (Option.map .textSet) id (r.object Cells.textSets? row)
  | .textList => Prod.map (Option.map .textList) id (r.object Cells.textLists? row)

@[simp] theorem column_moveTo (r : Reader) (row : Nat) : (r.moveTo row).column = r.column := by
  unfold moveTo
  split <;> rfl

theorem number_eq (r : Reader) (row : Nat) : Prod.map (Option.map (Value.number r.column.type)) id (r.number row) =
    if r.column.type.storage = .number then (some (r.column.cells.get row), r.moveTo row) else (none, r) := by
  obtain ⟨⟨name, cells, role⟩, position, seeks⟩ := r
  cases cells with
  | real xs | integer xs =>
    by_cases hrow : row < xs.size
    · simp [number, Column.type, Cells.type, ValueType.isNumeric, ValueType.storage, Cells.size, Cells.numbers?, Cells.get,
        Value.number, hrow]
    · simp [number, Column.type, Cells.type, ValueType.isNumeric, ValueType.storage, Cells.size, Cells.get, Value.number, hrow]
  | _ => rfl

section Object

variable {α : Type} {pick : Cells → Option (Array (Option α))} {wrap : Option α → Value} {storage : Storage}

/-- The way to cells that are no numbers, if `pick` finds those of one storage. -/
theorem object_eq (hsome : ∀ c : Cells, c.type.storage = storage →
      ∃ xs, pick c = some xs ∧ c.size = xs.size ∧ ∀ row, c.get row = wrap (xs[row]?.getD none))
    (hnone : ∀ c : Cells, c.type.storage ≠ storage → pick c = none) (r : Reader) (row : Nat) :
    Prod.map (Option.map wrap) id (r.object pick row) =
      if r.column.type.storage = storage then (some (r.column.cells.get row), r.moveTo row) else (none, r) := by
  unfold object Column.type
  by_cases hstorage : r.column.cells.type.storage = storage
  · obtain ⟨xs, hpick, hsize, hget⟩ := hsome _ hstorage
    by_cases hrow : row < xs.size
    · simp [hpick, hstorage, hsize, hget, hrow]
    · simp [hpick, hstorage, hsize, hget, hrow]
  · simp [hnone _ hstorage, hstorage]

end Object

/-- Both ways to a cell look at the kind of the column first and at the row second. -/
theorem read_eq (r : Reader) (storage : Storage) (row : Nat) : r.read storage row =
    if r.column.type.storage = storage then (some (r.column.cells.get row), r.moveTo row) else (none, r) := by
  cases storage with
  | number => exact r.number_eq row
  | text | boolean | instant | timeOfDay | textSet | textList =>
    refine object_eq (fun c hc => ?_) (fun c hc => ?_) r row
    · cases c <;> first | exact ⟨_, rfl, rfl, fun _ => rfl⟩ | cases hc
    · cases c <;> first | rfl | exact absurd rfl hc

@[simp] theorem column_read (r : Reader) (storage : Storage) (row : Nat) :
    (r.read storage row).2.column = r.column := by
  rw [read_eq]
  split <;> simp

end Reader

end Rowwise
