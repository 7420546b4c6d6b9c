import Mathlib.Data.List.Chain
import Rowwise.Proofs.Tables.Readers

/-!
# Rowwise.Proofs.Tables.Cursor — a reader after any reads

All ways to read a column share one position.  A read as values of the column's own storage yields the cell of the row, which
is missing behind the end; the position is the row of the last such read in range, and the seeks are the jumps between these
rows.  No other read moves the reader (`Reader.reads_follow_rows`).  So rows one after the other cost nothing, unless one of
them is asked for as values of another storage: that row is passed over, and the next one is a jump
(`Reader.passed_row_costs`).
-/

namespace Rowwise

theorem Cells.length_values (c : Cells) : c.values.length = c.size := by
  cases c <;> simp [values, size]

/-! ### Row after row -/

/-- The row is the last one again or the next one. -/
abbrev StaysOrSteps (last row : Nat) : Prop := row = last ∨ row = last + 1

/-- The first row is row 0, and each other one is the row before it again or the next one. -/
def RowAfterRow : List Nat → Prop
  | [] => True
  | row :: rows => row = 0 ∧ (row :: rows).IsChain StaysOrSteps

instance : DecidablePred RowAfterRow
  | [] => inferInstanceAs (Decidable True)
  | _ :: _ => inferInstanceAs (Decidable (_ ∧ _))

variable {row n : Nat} {rows : List Nat}

/-- Row after row leads behind the end once, and not back. -/
theorem filter_lt_of_isChain (h : (row :: rows).IsChain StaysOrSteps) :
    (row < n → (row :: rows.filter (· < n)).IsChain StaysOrSteps) ∧ (n ≤ row → rows.filter (· < n) = []) := by
  induction rows generalizing row with
  | nil => exact ⟨fun _ => .singleton row, fun _ => rfl⟩
  | cons next rows ih =>
    obtain ⟨hstep, hrest⟩ := List.isChain_cons_cons.1 h
    obtain ⟨hin, hout⟩ := ih hrest
    rcases Nat.lt_or_ge next n with hnext | hnext
    · rw [List.filter_cons_of_pos (by simpa using hnext)]
      exact ⟨fun _ => List.isChain_cons_cons.2 ⟨hstep, hin hnext⟩, fun hrow => by omega⟩
    · rw [List.filter_cons_of_neg (by simpa using hnext), hout hnext]
      exact ⟨fun _ => .singleton row, fun _ => rfl⟩

theorem RowAfterRow.filter_lt (h : RowAfterRow rows) (n : Nat) : RowAfterRow (rows.filter (· < n)) := by
  cases rows with
  | nil => exact trivial
  | cons row rows =>
    obtain ⟨rfl, hchain⟩ := h
    obtain ⟨hin, hout⟩ := filter_lt_of_isChain (n := n) hchain
    rcases Nat.eq_zero_or_pos n with rfl | hn
    · rw [List.filter_cons_of_neg (by simp), hout (Nat.le_refl 0)]
      exact trivial
    · rw [List.filter_cons_of_pos (by simpa using hn)]
      exact ⟨rfl, hin hn⟩

/-- Without a jump from one row to the next, only the first of all could be one. -/
theorem jumps_of_isChain (h : rows.IsChain fun row last => StaysOrSteps last row) (hfirst : ∀ row ∈ rows.getLast?, row = 0) :
    jumps rows = 0 := by
  induction rows with
  | nil => rfl
  | cons row rows ih =>
    cases rows with
    | nil =>
      obtain rfl : row = 0 := hfirst row rfl
      rfl
    | cons last rows =>
      obtain ⟨hstep, hrest⟩ := List.isChain_cons_cons.1 h
      rw [jumps, if_pos hstep, Nat.zero_add]
      exact ih hrest fun row hrow => hfirst row (by rwa [List.getLast?_cons_cons])

theorem RowAfterRow.jumps_reverse (h : RowAfterRow rows) : jumps rows.reverse = 0 := by
  cases rows with
  | nil => rfl
  | cons row rows =>
    obtain ⟨rfl, hchain⟩ := h
    exact jumps_of_isChain (List.isChain_reverse.2 hchain) (by simp)

namespace Reader

/-! ### Reads one after the other -/

/-- A reader of which nothing has been read. -/
def fresh (c : Column) : Reader := ⟨c, none, 0⟩

/-- The reader after some reads, each of a row as values of a storage. -/
def after (r : Reader) : List (Storage × Nat) → Reader
  | [] => r
  | (storage, row) :: reads => after (r.read storage row).2 reads

/-- The rows that are asked for as values of the column's own storage. -/
def fittingRows (c : Column) (reads : List (Storage × Nat)) : List Nat :=
  (reads.filter fun read => c.type.storage = read.1).map Prod.snd

/-- Those of them that the column has. -/
def rowsRead (c : Column) (reads : List (Storage × Nat)) : List Nat := (fittingRows c reads).filter (· < c.cells.size)

variable {r : Reader}

theorem column_after (r : Reader) (reads : List (Storage × Nat)) : (r.after reads).column = r.column := by
  induction reads generalizing r with
  | nil => rfl
  | cons read reads ih => exact (ih _).trans (r.column_read _ _)

theorem HasRead.after (h : r.HasRead rows) (reads : List (Storage × Nat)) :
    (r.after reads).HasRead ((rowsRead r.column reads).reverse ++ rows) := by
  induction reads generalizing r rows with
  | nil => exact h
  | cons read reads ih =>
    obtain ⟨storage, row⟩ := read
    have hread := ih (h.read storage row)
    rw [column_read] at hread
    by_cases hstorage : r.column.type.storage = storage
    · by_cases hrow : row < r.column.cells.size
      · simpa [Reader.after, rowsRead, fittingRows, hstorage, hrow] using hread
      · simpa [Reader.after, rowsRead, fittingRows, hstorage, hrow] using hread
    · simpa [Reader.after, rowsRead, fittingRows, hstorage] using hread

theorem hasRead_fresh (c : Column) (reads : List (Storage × Nat)) :
    ((fresh c).after reads).HasRead (rowsRead c reads).reverse := by
  simpa [fresh] using (HasRead.new c).after reads

/-! ### Single reads -/

/-- A row of the column, asked for as values of its storage. -/
theorem read_of_lt (hrow : row < r.column.cells.size) :
    ∃ v, r.column.cells.values[row]? = some v ∧ (r.read r.column.type.storage row).1 = some v := by
  have hlength : row < r.column.cells.values.length := by rwa [Cells.length_values]
  refine ⟨r.column.cells.values[row], List.getElem?_eq_getElem hlength, ?_⟩
  rw [read_eq, if_pos rfl, Cells.get_eq_values, List.getElem?_eq_getElem hlength]
  rfl

/-- A row behind the end. -/
theorem read_of_ge (hrow : r.column.cells.size ≤ row) :
    r.read r.column.type.storage row = (some (.missing r.column.type), r) := by
  have hvalue : r.column.cells.values[row]? = none := List.getElem?_eq_none (by rwa [Cells.length_values])
  rw [read_eq, if_pos rfl, Cells.get_eq_values, hvalue, moveTo, if_neg (Nat.not_lt.2 hrow)]
  rfl

theorem read_of_ne {storage : Storage} (h : storage ≠ r.column.type.storage) (row : Nat) :
    r.read storage row = (none, r) := by
  rw [read_eq, if_neg h.symm]

/-- After any reads of a column, a read as values of its storage yields the cell of the row, or a missing value behind the end;
a read as other values yields nothing, and neither that one nor a read behind the end changes the reader.  The position is the
row read last, and the seeks are the jumps between the rows read: none if the rows that fit have come one after the other. -/
theorem reads_follow_rows (c : Column) (reads : List (Storage × Nat)) :
    (∀ row, row < c.cells.size →
      ∃ v, c.cells.values[row]? = some v ∧ (((fresh c).after reads).read c.type.storage row).1 = some v) ∧
    (∀ row, c.cells.size ≤ row →
      ((fresh c).after reads).read c.type.storage row = (some (.missing c.type), (fresh c).after reads)) ∧
    (∀ storage row, storage ≠ c.type.storage →
      ((fresh c).after reads).read storage row = (none, (fresh c).after reads)) ∧
    ((fresh c).after reads).position = (rowsRead c reads).getLast? ∧
    ((fresh c).after reads).seeks = jumps (rowsRead c reads).reverse ∧
    (RowAfterRow (fittingRows c reads) → ((fresh c).after reads).seeks = 0) := by
  have hread := hasRead_fresh c reads
  have hcolumn : ((fresh c).after reads).column = c := column_after (fresh c) reads
  generalize (fresh c).after reads = r at hread hcolumn
  subst hcolumn
  refine ⟨fun row => read_of_lt, fun row => read_of_ge, fun storage row h => read_of_ne h row, ?_, hread.seeks, fun h => ?_⟩
  · rw [hread.position, List.head?_reverse]
  · rw [hread.seeks]
    exact (h.filter_lt _).jumps_reverse

/-- Texts one after the other and on behind the end, with a row asked for as a number in between. -/
theorem reads_follow_rows_texts :
    RowAfterRow (fittingRows ⟨"t", .text #[some "a", none], none⟩
      [(.text, 0), (.number, 7), (.text, 1), (.text, 1), (.text, 2), (.text, 3)]) ∧
    ((fresh ⟨"t", .text #[some "a", none], none⟩).after
      [(.text, 0), (.number, 7), (.text, 1), (.text, 1), (.text, 2), (.text, 3)]).seeks = 0 := by
  have hrows : RowAfterRow (fittingRows ⟨"t", .text #[some "a", none], none⟩
      [(.text, 0), (.number, 7), (.text, 1), (.text, 1), (.text, 2), (.text, 3)]) := by decide
  exact ⟨hrows, (reads_follow_rows _ _).2.2.2.2.2 hrows⟩

/-- Row 0 asked for as a text is passed over, so that row 1 of the numbers costs a seek, although the rows come one after the
other. -/
theorem passed_row_costs :
    RowAfterRow ([(Storage.text, 0), (Storage.number, 1)].map Prod.snd) ∧
    ((fresh ⟨"x", .real #[1, 2, 3], none⟩).after [(.text, 0), (.number, 1)]).seeks = 1 := by
  decide

end Reader

end Rowwise
