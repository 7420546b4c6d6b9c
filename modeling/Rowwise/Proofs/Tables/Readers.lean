import Rowwise.Proofs.Evaluation.Columns

/-!
# Rowwise.Proofs.Tables.Readers — readers are a cache that no host sees

A host adds columns to a table and reads cells of it, in any order.  What a read yields is said by the history alone: the
cell of the column that was last added under the name, or of the table's own.  A table keeps at most one reader for a
name, and the reader counts the jumps between the rows that have been read of its column (`TableSource.reads_current`).
-/

namespace Rowwise

/-! ### Cells -/

/-- The values in the cells from the first row on. -/
def Cells.values : Cells → List Value
  | real xs => xs.toList.map .double
  | integer xs => xs.toList.map .integer
  | text xs => xs.toList.map .text
  | boolean xs => xs.toList.map .boolean
  | instant xs => xs.toList.map .instant
  | timeOfDay xs => xs.toList.map .timeOfDay
  | textSet xs => xs.toList.map .textSet
  | textList xs => xs.toList.map .textList

theorem Cells.get_eq_values (c : Cells) (row : Nat) : c.get row = c.values[row]?.getD (.missing c.type) := by
  cases c with
  | real xs | integer xs | text xs | boolean xs | instant xs | timeOfDay xs | textSet xs | textList xs =>
    simp only [get, values, type, Value.missing, List.getElem?_map, Array.getElem?_toList]
    cases xs[row]? <;> rfl

/-! ### One reader -/

/-- How many of the rows, the latest first, are neither the row read before nor the one after it.  Before any row has been
read, row 0 is the one after. -/
def jumps : List Nat → Nat
  | [] => 0
  | [row] => if row = 0 then 0 else 1
  | row :: last :: rows => (if row = last ∨ row = last + 1 then 0 else 1) + jumps (last :: rows)

namespace Reader

/-- The reader stands where these rows, the latest first, have brought it. -/
structure HasRead (r : Reader) (rows : List Nat) : Prop where
  position : r.position = rows.head?
  seeks : r.seeks = jumps rows

variable {r : Reader} {rows : List Nat}

theorem HasRead.new (c : Column) : HasRead ⟨c, none, 0⟩ [] := ⟨rfl, rfl⟩

theorem HasRead.moveTo (h : r.HasRead rows) {row : Nat} (hrow : row < r.column.cells.size) :
    (r.moveTo row).HasRead (row :: rows) := by
  unfold Reader.moveTo isFree
  rw [if_pos hrow, h.position, h.seeks]
  refine ⟨rfl, ?_⟩
  cases rows with
  | nil => by_cases hzero : row = 0 <;> simp [jumps, hzero]
  | cons last rows =>
    by_cases hnext : row = last ∨ row = last + 1
    · simp [jumps, hnext, or_comm]
    · simp [jumps, hnext, or_comm, Nat.add_comm]

/-- Only a read in range and of the column's storage moves the reader. -/
theorem HasRead.read (h : r.HasRead rows) (storage : Storage) (row : Nat) : (r.read storage row).2.HasRead
    (if r.column.type.storage = storage ∧ row < r.column.cells.size then row :: rows else rows) := by
  rw [Reader.read_eq]
  by_cases hstorage : r.column.type.storage = storage
  · by_cases hrow : row < r.column.cells.size
    · simpa [hstorage, hrow] using h.moveTo hrow
    · simpa [hstorage, hrow, Reader.moveTo] using h
  · simpa [hstorage] using h

end Reader

namespace TableSource

/-! ### Histories -/

/-- What a host does to a table. -/
inductive Step where
  | add (c : Column)
  | read (name : String) (storage : Storage) (row : Nat)

/-- The table after a step. -/
def apply (s : TableSource) : Step → TableSource
  | .add c => s.add c
  | .read name storage row => (s.read name storage row).2

/-- A table after some steps, of which the latest is the first in the list. -/
def after (t : Table) : List Step → TableSource
  | [] => { table := t }
  | step :: earlier => (after t earlier).apply step

/-- The column that a name stands for after some steps: the last one added under the name, or else the table's. -/
def currentColumn (t : Table) (name : String) : List Step → Option Column
  | [] => t.column? name
  | .add c :: earlier => if c.name = name then some c else currentColumn t name earlier
  | .read _ _ _ :: earlier => currentColumn t name earlier

/-- The rows, the latest first, that have been read since a column was last added under the name, each in range of the
current column and as values of its storage; none if no read of the column has been asked for since. -/
def rowsRead? (t : Table) (name : String) : List Step → Option (List Nat)
  | [] => none
  | .add c :: earlier => if c.name = name then none else rowsRead? t name earlier
  | .read n storage row :: earlier =>
    if n = name then
      match currentColumn t name earlier with
      | none => rowsRead? t name earlier
      | some c =>
        let rows := (rowsRead? t name earlier).getD []
        some (if c.type.storage = storage ∧ row < c.cells.size then row :: rows else rows)
    else rowsRead? t name earlier

/-! ### Readers by their names -/

variable {s : TableSource} {t : Table} {name m : String} {c : Column} {r : Reader}

/-- The reader of a name, if it has one. -/
def reader? (s : TableSource) (name : String) : Option Reader :=
  (s.readers.find? fun p => p.1.1 = name).map Prod.snd

theorem seeks?_eq (s : TableSource) (name : String) : s.seeks? name = (s.reader? name).map Reader.seeks := by
  simp [seeks?, reader?, Function.comp_def]

/-- The readers of a name are kept under the type of its column. -/
theorem key_of_mem (h : s.column? name = some c) {p : (String × ValueType) × Reader} (hp : p ∈ s.readers)
    (hname : p.1.1 = name) : p.1 = (name, c.type) := by
  obtain ⟨hcolumn, htype⟩ := s.readers_current p hp
  rw [hname] at hcolumn
  have hc : p.2.column = c := Option.some.inj (hcolumn.symm.trans h)
  exact Prod.ext hname (by rw [← htype, hc])

theorem lookup_eq_reader? (h : s.column? name = some c) : s.readers.lookup (name, c.type) = s.reader? name := by
  have hkeys : ∀ p ∈ s.readers, p.1.1 = name → p.1 = (name, c.type) := fun p hp => key_of_mem h hp
  unfold reader?
  generalize s.readers = readers at hkeys
  induction readers with
  | nil => rfl
  | cons p ps ih =>
    obtain ⟨key, r⟩ := p
    have hps := ih fun q hq => hkeys q (List.mem_cons_of_mem _ hq)
    by_cases hp : key.1 = name
    · obtain rfl : key = (name, c.type) := hkeys _ List.mem_cons_self hp
      simp
    · have hkey : ((name, c.type) == key) = false := beq_false_of_ne fun heq => hp (by rw [← heq])
      simp [List.lookup_cons, hkey, hp, hps]

theorem readerOf_eq (h : s.column? name = some c) : s.readerOf name c = (s.reader? name).getD ⟨c, none, 0⟩ := by
  rw [readerOf, lookup_eq_reader? h]

theorem reader?_add_self (s : TableSource) (c : Column) : (s.add c).reader? c.name = none := by
  simp [reader?, add, List.find?_filter]

theorem reader?_add (s : TableSource) (h : name ≠ c.name) : (s.add c).reader? name = s.reader? name := by
  unfold reader? add
  rw [List.find?_filter]
  congr 2
  funext p
  by_cases hp : p.1.1 = name
  · simp [hp, h]
  · simp [hp]

theorem reader?_withReader_self (h : s.column? name = some r.column) : (s.withReader name r h).reader? name = some r := by
  simp [reader?, withReader]

theorem reader?_withReader (h : s.column? name = some r.column) (hm : m ≠ name) :
    (s.withReader name r h).reader? m = s.reader? m := by
  unfold reader? withReader
  rw [List.find?_cons_of_neg (by simpa using hm.symm), List.find?_filter]
  congr 2
  funext p
  by_cases hp : p.1.1 = m
  · have hkey : p.1 ≠ (name, r.column.type) := fun heq => hm (by rw [← hp, heq])
    simp [hp, hkey]
  · simp [hp]

/-! ### Steps -/

theorem column?_add_self (s : TableSource) (c : Column) : (s.add c).column? c.name = some c := by
  have hnone : ((s.added.filter fun d => d.name ≠ c.name).find? fun d => d.name = c.name) = none := by
    simp [List.find?_filter]
  simp only [column?, add, Table.columnWith?, List.find?_append, hnone]
  simp

theorem column?_add (s : TableSource) (h : name ≠ c.name) : (s.add c).column? name = s.column? name :=
  Table.columnWith?_replace s.table s.added c h

theorem read_of_none (h : s.column? name = none) (storage : Storage) (row : Nat) :
    s.read name storage row = (.error (.noColumn name), s) := by
  unfold TableSource.read
  split
  · rfl
  · rename_i c hc
    rw [h] at hc
    cases hc

/-- A read of a column leaves the reader of its name moved. -/
theorem read_of_some (h : s.column? name = some c) (storage : Storage) (row : Nat) :
    (s.read name storage row).2 = s.withReader name ((s.readerOf name c).read storage row).2
      (by rw [Reader.column_read, s.column_readerOf h, h]) := by
  unfold TableSource.read
  split
  · rename_i hnone
    rw [h] at hnone
    cases hnone
  · rename_i d hd
    obtain rfl : c = d := Option.some.inj (h.symm.trans hd)
    simp only
    split <;> rfl

/-! ### Runs -/

/-- What a table is like after some steps: names stand for their current columns, no two readers are kept under one key,
and the reader of a name stands where the rows read of its column have brought it. -/
structure Follows (t : Table) (steps : List Step) (s : TableSource) : Prop where
  column (name : String) : s.column? name = currentColumn t name steps
  keys : (s.readers.map Prod.fst).Nodup
  reader (name : String) : Option.Rel Reader.HasRead (s.reader? name) (rowsRead? t name steps)

variable {steps : List Step}

theorem Follows.add (h : Follows t steps s) (c : Column) : Follows t (.add c :: steps) (s.add c) where
  column name := by
    by_cases hname : c.name = name
    · subst hname
      simp [currentColumn, column?_add_self]
    · simp [currentColumn, hname, column?_add s (Ne.symm hname), h.column]
  keys := h.keys.sublist (List.filter_sublist.map _)
  reader name := by
    by_cases hname : c.name = name
    · subst hname
      rw [reader?_add_self, rowsRead?, if_pos rfl]
      exact .none
    · rw [reader?_add s (Ne.symm hname), rowsRead?, if_neg hname]
      exact h.reader name

/-- The reader that a read starts from stands where the rows read so far have brought it. -/
theorem Follows.readerOf (h : Follows t steps s) (hc : s.column? name = some c) :
    (s.readerOf name c).HasRead ((rowsRead? t name steps).getD []) := by
  have hreader := h.reader name
  rw [readerOf_eq hc]
  generalize s.reader? name = reader at hreader
  generalize rowsRead? t name steps = rows at hreader
  cases hreader with
  | none => exact .new c
  | some hr => exact hr

theorem Follows.read (h : Follows t steps s) (name : String) (storage : Storage) (row : Nat) :
    Follows t (.read name storage row :: steps) (s.read name storage row).2 := by
  cases hc : s.column? name with
  | none =>
    rw [read_of_none hc]
    refine ⟨h.column, h.keys, fun m => ?_⟩
    by_cases hm : name = m
    · subst hm
      simpa only [rowsRead?, ↓reduceIte, ← h.column, hc] using h.reader name
    · simpa only [rowsRead?, if_neg hm] using h.reader m
  | some c =>
    have hread := (h.readerOf hc).read storage row
    rw [s.column_readerOf hc] at hread
    rw [read_of_some hc]
    refine ⟨h.column, ?_, fun m => ?_⟩
    · simp only [withReader, List.map_cons, List.nodup_cons]
      exact ⟨by simp, h.keys.sublist (List.filter_sublist.map _)⟩
    · by_cases hm : name = m
      · subst hm
        simp only [reader?_withReader_self, rowsRead?, ↓reduceIte, ← h.column, hc]
        exact .some hread
      · simpa only [reader?_withReader _ (Ne.symm hm), rowsRead?, if_neg hm] using h.reader m

theorem follows_after (t : Table) (steps : List Step) : Follows t steps (after t steps) := by
  induction steps with
  | nil => exact ⟨fun name => by simp [after, column?, Table.columnWith?, currentColumn], .nil, fun _ => .none⟩
  | cons step earlier ih =>
    cases step with
    | add c => exact ih.add c
    | read name storage row => exact ih.read name storage row

/-! ### What a host sees -/

/-- What a read yields after some steps: the cell of the current column, which is missing behind its end, if it is asked
for as what the column is made of; a defect otherwise. -/
def cellAfter (t : Table) (name : String) (storage : Storage) (row : Nat) (steps : List Step) : Except Fault Value :=
  match currentColumn t name steps with
  | none => .error (.internal (.noColumn name))
  | some c =>
    if c.type.storage = storage then .ok (c.cells.values[row]?.getD (.missing c.type))
    else .error (.internal (.wrongColumn storage c.type name))

theorem Follows.cell (h : Follows t steps s) (name : String) (storage : Storage) (row : Nat) :
    (s.read name storage row).1.mapError .internal = cellAfter t name storage row steps := by
  rw [read_eq, cellAfter, ← h.column]
  cases s.column? name with
  | none => rfl
  | some c =>
    by_cases hstorage : c.type.storage = storage
    · simp only [if_pos hstorage, Cells.get_eq_values]
      rfl
    · simp only [if_neg hstorage]
      rfl

theorem kind_of_cellAfter {storage : Storage} {row : Nat} {f : Fault}
    (h : cellAfter t name storage row steps = .error f) : f.kind = .internal := by
  unfold cellAfter at h
  split at h
  · cases h
    rfl
  · split at h <;> cases h
    rfl

/-- Two readers of one name would both be kept under the type of its column. -/
theorem Follows.reader_unique (h : Follows t steps s) (name : String) :
    (s.readers.filter fun p => p.1.1 = name).length ≤ 1 := by
  have hkeys : ((s.readers.filter fun p => p.1.1 = name).map Prod.fst).Nodup :=
    h.keys.sublist (List.filter_sublist.map _)
  have hname : ∀ p ∈ s.readers.filter fun p => p.1.1 = name, p ∈ s.readers ∧ p.1.1 = name := by simp
  generalize s.readers.filter (fun p => p.1.1 = name) = readers at hkeys hname
  match readers, hkeys, hname with
  | [], _, _ => simp
  | [_], _, _ => simp
  | p :: q :: rest, hkeys, hname =>
    obtain ⟨hp, hpname⟩ := hname p (by simp)
    obtain ⟨hq, hqname⟩ := hname q (by simp)
    have hcolumn := (s.readers_current p hp).1
    rw [hpname] at hcolumn
    have hsame : p.1 = q.1 := (key_of_mem hcolumn hp hpname).trans (key_of_mem hcolumn hq hqname).symm
    simp [hsame] at hkeys

theorem Follows.seeks?_eq (h : Follows t steps s) (name : String) :
    s.seeks? name = (rowsRead? t name steps).map jumps := by
  have hreader := h.reader name
  rw [TableSource.seeks?_eq]
  generalize s.reader? name = reader at hreader
  generalize rowsRead? t name steps = rows at hreader
  cases hreader with
  | none => rfl
  | some hr => exact congrArg some hr.seeks

/-- The readers are a cache that no host sees: whatever columns have been added and whatever cells been read, a read yields
the cell of the current column, or an internal fault if it is asked for as something else; a name has at most one reader, and
the seeks are the jumps between the rows read since a column was last added under the name. -/
theorem reads_current (t : Table) (steps : List Step) (name : String) :
    (∀ storage row,
      ((after t steps).read name storage row).1.mapError .internal = cellAfter t name storage row steps ∧
      ∀ f, cellAfter t name storage row steps = .error f → f.kind = .internal) ∧
    ((after t steps).readers.filter fun p => p.1.1 = name).length ≤ 1 ∧
    (after t steps).seeks? name = (rowsRead? t name steps).map jumps := by
  have h := follows_after t steps
  exact ⟨fun storage row => ⟨h.cell name storage row, fun _ hf => kind_of_cellAfter hf⟩, h.reader_unique name,
    h.seeks?_eq name⟩

end TableSource

end Rowwise
