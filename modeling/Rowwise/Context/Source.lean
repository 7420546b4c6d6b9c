import Rowwise.Context.Entry
import Rowwise.Table.Reader
import Rowwise.Table.Table
import Rowwise.Value.Fault

/-!
# Rowwise.Context.Source — where columns come from

A source of columns is a table, to which columns may be added, or a schema, which knows names and types but no values.  A
table keeps a reader for each name and type that has been read, so that reading rows in order costs no seeks.  A column
that is added takes the place of the one with its name.
-/

namespace Rowwise

/-- A table with columns added to it and the readers of its columns. -/
structure TableSource where
  table : Table
  added : List Column := []
  readers : List ((String × ValueType) × Reader) := []
  /-- Each reader is of the column that its name stands for, and is kept under the type of this column. -/
  readers_current : ∀ p ∈ readers, table.columnWith? added p.1.1 = some p.2.column ∧ p.2.column.type = p.1.2 := by simp

namespace TableSource

/-- The column of that name; added columns come first. -/
def column? (s : TableSource) (name : String) : Option Column := s.table.columnWith? s.added name

/-- Adds a column and forgets the readers of its name. -/
def add (s : TableSource) (c : Column) : TableSource :=
  { s with
    added := s.added.filter (fun d => d.name ≠ c.name) ++ [c]
    readers := s.readers.filter fun r => r.1.1 ≠ c.name
    readers_current := by
      intro p hp
      obtain ⟨hp, hne⟩ := List.mem_filter.1 hp
      rw [Table.columnWith?_replace _ _ _ (of_decide_eq_true hne)]
      exact s.readers_current p hp }

/-- The number of seeks that reading the column has cost, if it has been read. -/
def seeks? (s : TableSource) (name : String) : Option Nat :=
  (s.readers.find? fun p => p.1.1 = name).map fun p => p.2.seeks

/-- The source with this reader for a name, which is one of its column. -/
def withReader (s : TableSource) (name : String) (r : Reader) (h : s.column? name = some r.column) : TableSource :=
  { s with
    readers := ((name, r.column.type), r) :: s.readers.filter fun p => p.1 ≠ (name, r.column.type)
    readers_current := by
      intro p hp
      rcases List.mem_cons.1 hp with rfl | hp
      · exact ⟨h, rfl⟩
      · exact s.readers_current p (List.mem_filter.1 hp).1 }

/-- The reader of a name and of the type of its column, or a new one. -/
def readerOf (s : TableSource) (name : String) (c : Column) : Reader :=
  (s.readers.lookup (name, c.type)).getD ⟨c, none, 0⟩

theorem column_readerOf (s : TableSource) {name : String} {c : Column} (h : s.column? name = some c) :
    (s.readerOf name c).column = c := by
  unfold readerOf
  cases hr : s.readers.lookup (name, c.type) with
  | none => rfl
  | some r =>
    obtain ⟨l₁, l₂, hl, -⟩ := List.lookup_eq_some_iff.1 hr
    have hmem : ((name, c.type), r) ∈ s.readers := by rw [hl]; simp
    exact Option.some.inj ((s.readers_current _ hmem).1.symm.trans h)

/-- Reads a column as values of a storage. -/
def read (s : TableSource) (name : String) (storage : Storage) (row : Nat) : Except Defect Value × TableSource :=
  match h : s.column? name with
  | none => (.error (.noColumn name), s)
  | some c =>
    let r := s.readerOf name c
    let s' := s.withReader name (r.read storage row).2 (by rw [Reader.column_read, s.column_readerOf h, h])
    match (r.read storage row).1 with
    | some v => (.ok v, s')
    | none => (.error (.wrongColumn storage c.type name), s')

/-- What listings show of a column. -/
def entryOf (group : String) (c : Column) : Entry := ⟨c.name, .row, group, c.type, c.role⟩

/-- The entries of the columns: those of the table that none takes the place of, then the added ones. -/
def entries (s : TableSource) : List Entry :=
  ((s.table.columns.filter fun c => !s.added.any fun d => d.name = c.name).map (entryOf "table")) ++
    s.added.map (entryOf "additional")

end TableSource

/-- A source of columns. -/
inductive Source where
  | table (s : TableSource)
  | schema (columns : List Entry)

namespace Source

/-- The entries of a schema with these columns. -/
def ofTypes (columns : List (String × ValueType)) : Source :=
  schema (columns.map fun c => ⟨c.1, .row, "table", c.2, none⟩)

/-- The schema of a table. -/
def schemaOf (t : Table) : Source := schema (t.columns.map (TableSource.entryOf "table"))

/-- The type of the column of that name. -/
def type? (s : Source) (name : String) : Option ValueType :=
  match s with
  | table s => (s.column? name).map Column.type
  | schema columns => (columns.find? fun e => e.name = name).map Entry.type

/-- The entries of all columns. -/
def entries : Source → List Entry
  | table s => s.entries
  | schema columns => columns

/-- Reads a column as values of a storage. -/
def read (s : Source) (name : String) (storage : Storage) (row : Nat) : Except Defect Value × Source :=
  match s with
  | table t => ((t.read name storage row).1, table (t.read name storage row).2)
  | schema columns => (.error (.unsupported storage name), schema columns)

end Source

end Rowwise
