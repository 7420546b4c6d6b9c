import Rowwise.Eval.Evaluate
import Rowwise.Proofs.Evaluation.Contract

/-!
# Rowwise.Proofs.Evaluation.Columns — columns while a run goes on

Reading changes readers and nothing else of a source, so two worlds of one run have the same columns
(`World.SameColumns`), and what a read yields depends on the columns and the row alone (`Source.read_shape`).  A column
that a name has been resolved to is there at every later row, and its values have its type.
-/

namespace Rowwise

/-! ### Sources without their readers -/

namespace Source

/-- The source with no readers. -/
def shape : Source → Source
  | table s => table { table := s.table, added := s.added }
  | schema columns => schema columns

/-- True for tables. -/
def isTable : Source → Bool
  | table _ => true
  | schema _ => false

@[simp] theorem type?_shape (s : Source) (name : String) : s.shape.type? name = s.type? name := by cases s <;> rfl

@[simp] theorem isTable_shape (s : Source) : s.shape.isTable = s.isTable := by cases s <;> rfl

end Source

theorem TableSource.read_eq (s : TableSource) (name : String) (storage : Storage) (row : Nat) :
    (s.read name storage row).1 =
      match s.column? name with
      | none => .error (.noColumn name)
      | some c => if c.type.storage = storage then .ok (c.cells.get row) else .error (.wrongColumn storage c.type name) := by
  unfold TableSource.read
  split
  · rename_i hnone
    simp only [hnone]
  · rename_i c hsome
    have hcolumn := s.column_readerOf hsome
    simp only [hsome, Reader.read_eq, hcolumn]
    by_cases hst : c.type.storage = storage
    · simp [hst]
    · simp [hst]

theorem TableSource.table_read (s : TableSource) (name : String) (storage : Storage) (row : Nat) :
    (s.read name storage row).2.table = s.table ∧ (s.read name storage row).2.added = s.added := by
  unfold TableSource.read
  split
  · exact ⟨rfl, rfl⟩
  · simp only
    split <;> exact ⟨rfl, rfl⟩

namespace Source

/-- A read changes readers alone. -/
@[simp] theorem shape_read (s : Source) (name : String) (storage : Storage) (row : Nat) :
    (s.read name storage row).2.shape = s.shape := by
  cases s with
  | schema columns => rfl
  | table s =>
    obtain ⟨htable, hadded⟩ := s.table_read name storage row
    simp [read, shape, htable, hadded]

/-- What a read yields does not depend on the readers. -/
theorem read_shape (s : Source) (name : String) (storage : Storage) (row : Nat) :
    (s.shape.read name storage row).1 = (s.read name storage row).1 := by
  cases s with
  | schema columns => rfl
  | table s =>
    simp only [shape, read, TableSource.read_eq]
    rfl

/-- Reading a column of a table as what it is made of yields a value of its type. -/
theorem read_of_type {s : Source} {name : String} {t : ValueType} (hs : s.isTable = true)
    (ht : s.type? name = some t) (row : Nat) : ∃ v, (s.read name t.storage row).1 = .ok v ∧ v.type = t := by
  cases s with
  | schema columns => cases hs
  | table s =>
    obtain ⟨c, hc, rfl⟩ := Option.map_eq_some_iff.1 ht
    refine ⟨c.cells.get row, ?_, by simp [Column.type]⟩
    simp [read, TableSource.read_eq, hc]

end Source

/-! ### Worlds with the same columns -/

/-- The first source with a column of that name is found by the columns alone. -/
theorem sourceOf?_shape (name : String) (i : Nat) (ss : List Source) :
    sourceOf? name i (ss.map Source.shape) = sourceOf? name i ss := by
  induction ss generalizing i with
  | nil => rfl
  | cons s ss ih => simp only [List.map_cons, sourceOf?, Source.type?_shape, ih]

theorem sourceOf?_eq_some {name : String} {i k : Nat} {ss : List Source} {t : ValueType}
    (h : sourceOf? name i ss = some (k, t)) : i ≤ k ∧ ∃ s, ss[k - i]? = some s ∧ s.type? name = some t := by
  induction ss generalizing i with
  | nil => cases h
  | cons s ss ih =>
    simp only [sourceOf?] at h
    split at h
    · rename_i t' ht
      obtain ⟨rfl, rfl⟩ := Prod.mk.inj (Option.some.inj h)
      exact ⟨Nat.le_refl _, s, by simp, ht⟩
    · obtain ⟨hle, s', hs', ht⟩ := ih h
      refine ⟨by omega, s', ?_, ht⟩
      have hsub : k - i = (k - (i + 1)) + 1 := by omega
      rw [hsub, List.getElem?_cons_succ]
      exact hs'

namespace World

/-- The worlds have the same sources with the same columns, whatever has been read of them. -/
def SameColumns (w w' : World) : Prop := w.sources.map Source.shape = w'.sources.map Source.shape

/-- All sources are tables. -/
def Tabular (w : World) : Prop := ∀ s ∈ w.sources, s.isTable = true

/-- A source has a column of that name and type. -/
def HasColumn (w : World) (source : Nat) (name : String) (t : ValueType) : Prop :=
  ∃ s, w.sources[source]? = some s ∧ s.type? name = some t

variable {u w w' : World}

theorem SameColumns.refl (w : World) : w.SameColumns w := rfl

theorem SameColumns.symm (h : w.SameColumns w') : w'.SameColumns w := Eq.symm h

theorem SameColumns.trans (h : u.SameColumns w) (h' : w.SameColumns w') : u.SameColumns w' := Eq.trans h h'

theorem SameColumns.column?_eq (h : w.SameColumns w') (name : String) : w.column? name = w'.column? name := by
  unfold column?
  rw [← sourceOf?_shape, h, sourceOf?_shape]

theorem SameColumns.getElem? (h : w.SameColumns w') {k : Nat} {s : Source} (hs : w.sources[k]? = some s) :
    ∃ s', w'.sources[k]? = some s' ∧ s'.shape = s.shape := by
  have hk : (w'.sources.map Source.shape)[k]? = some s.shape := by
    rw [← h, List.getElem?_map, hs]
    rfl
  rw [List.getElem?_map] at hk
  exact Option.map_eq_some_iff.1 hk

theorem SameColumns.tabular (h : w.SameColumns w') (hw : w.Tabular) : w'.Tabular := by
  intro s hs
  obtain ⟨k, hk⟩ := List.mem_iff_getElem?.1 hs
  obtain ⟨s', hs', hshape⟩ := h.symm.getElem? hk
  rw [← Source.isTable_shape, ← hshape, Source.isTable_shape]
  exact hw s' (List.mem_iff_getElem?.2 ⟨k, hs'⟩)

theorem SameColumns.hasColumn (h : w.SameColumns w') {k : Nat} {name : String} {t : ValueType}
    (hc : w.HasColumn k name t) : w'.HasColumn k name t := by
  obtain ⟨s, hs, ht⟩ := hc
  obtain ⟨s', hs', hshape⟩ := h.getElem? hs
  exact ⟨s', hs', by rw [← Source.type?_shape, hshape, Source.type?_shape, ht]⟩

theorem hasColumn_of_column? {name : String} {k : Nat} {t : ValueType} (h : w.column? name = some (k, t)) :
    w.HasColumn k name t := by
  obtain ⟨-, s, hs, ht⟩ := sourceOf?_eq_some h
  exact ⟨s, hs, ht⟩

/-- What a read of a column yields in the current row. -/
def cell (w : World) (source : Nat) (name : String) (storage : Storage) : Except Defect Value :=
  match w.sources[source]? with
  | none => .error (.noColumn name)
  | some s => (s.read name storage w.row).1

theorem cell_of_hasColumn {k : Nat} {name : String} {t : ValueType} (hw : w.Tabular) (hc : w.HasColumn k name t) :
    ∃ v, w.cell k name t.storage = .ok v ∧ v.type = t := by
  obtain ⟨s, hs, ht⟩ := hc
  obtain ⟨v, hv, htype⟩ := Source.read_of_type (hw s (List.mem_iff_getElem?.2 ⟨k, hs⟩)) ht w.row
  exact ⟨v, by simp [cell, hs, hv], htype⟩

/-- A column of a table is not read as what it is not made of. -/
theorem cell_of_other {k : Nat} {name : String} {t : ValueType} {asked : Storage} (hw : w.Tabular)
    (hc : w.HasColumn k name t) (hne : t.storage ≠ asked) : w.cell k name asked = .error (.wrongColumn asked t name) := by
  obtain ⟨s, hs, ht⟩ := hc
  cases s with
  | schema columns => cases hw _ (List.mem_iff_getElem?.2 ⟨k, hs⟩)
  | table s =>
    obtain ⟨c, hcol, rfl⟩ := Option.map_eq_some_iff.1 ht
    simp [cell, hs, Source.read, TableSource.read_eq, hcol, hne]

/-- What is read of a column has the storage that was asked for. -/
theorem storage_of_cell {k : Nat} {name : String} {asked : Storage} {v : Value} (h : w.cell k name asked = .ok v) :
    v.type.storage = asked := by
  unfold cell at h
  split at h
  · cases h
  · rename_i s _
    cases s with
    | schema columns => cases h
    | table s =>
      simp only [Source.read, TableSource.read_eq] at h
      split at h
      · cases h
      · split at h
        · rename_i hstorage
          cases h
          simpa [Column.type] using hstorage
        · cases h

theorem SameColumns.cell_eq (h : w.SameColumns w') (hrow : w.row = w'.row) (k : Nat) (name : String)
    (storage : Storage) : w.cell k name storage = w'.cell k name storage := by
  unfold cell
  rcases hs : w.sources[k]? with _ | s
  · rcases hs' : w'.sources[k]? with _ | s'
    · rfl
    · obtain ⟨s, hs'', -⟩ := h.symm.getElem? hs'
      rw [hs] at hs''
      cases hs''
  · obtain ⟨s', hs', hshape⟩ := h.getElem? hs
    simp only [hs']
    rw [← s.read_shape, ← s'.read_shape, hshape, hrow]

end World

/-- A world with a table of one row of texts. -/
def World.ofTexts (cells : List (String × String)) : World :=
  { sources := [.table { table := ⟨cells.map fun p => { name := p.1, cells := .text #[some p.2] }, 1⟩ }] }

theorem World.tabular_ofTexts (cells : List (String × String)) : (ofTexts cells).Tabular := by
  intro s hs
  rw [List.mem_singleton.1 hs]
  rfl

/-! ### Reading in a run -/

namespace Run

/-- The world after a column has been read. -/
def afterRead (source : Nat) (name : String) (storage : Storage) (w : World) : World :=
  match w.sources[source]? with
  | none => { w with events := .read source name storage w.row :: w.events }
  | some s =>
    { w with
      events := .read source name storage w.row :: w.events
      sources := w.sources.set source (s.read name storage w.row).2 }

theorem exec_sound {α : Type} (r : Except Defect α) (w : World) :
    exec (sound r) w = (r.mapError fun d => .fault (.internal d), w) := by
  cases r <;> rfl

theorem exec_readColumn (source : Nat) (name : String) (storage : Storage) (w : World) :
    exec (readColumn source name storage) w =
      ((w.cell source name storage).mapError fun d => .fault (.internal d), afterRead source name storage w) := by
  unfold readColumn World.cell afterRead
  rw [exec_bind, exec_world]
  show exec (note _ >>= _) w = _
  rw [exec_bind, exec_note]
  cases hs : w.sources[source]? with
  | none => simp only [exec_sound]
  | some s => simp only [exec_bind, exec_alter, exec_sound]

theorem events_afterRead (source : Nat) (name : String) (storage : Storage) (w : World) :
    (afterRead source name storage w).events = .read source name storage w.row :: w.events := by
  unfold afterRead
  split <;> rfl

theorem sameColumns_afterRead (source : Nat) (name : String) (storage : Storage) (w : World) :
    w.SameColumns (afterRead source name storage w) := by
  unfold afterRead
  split
  · rfl
  · rename_i s hs
    show w.sources.map Source.shape = (w.sources.set source _).map Source.shape
    rw [List.map_set, Source.shape_read]
    apply List.ext_getElem?
    intro i
    rw [List.getElem?_set]
    split
    · rename_i hi
      subst hi
      rw [List.getElem?_map, hs]
      simp [(List.getElem?_eq_some_iff.1 hs).1]
    · rfl

theorem Meets.readColumn {K : Contract} {source : Nat} {name : String} {storage : Storage} {Q : Value → Prop}
    (hread : K.Lets (afterRead source name storage))
    (hcell : ∀ w, K.holds w → ∃ v, w.cell source name storage = .ok v ∧ Q v) :
    Meets K (readColumn source name storage) Q := by
  intro w hw
  obtain ⟨v, hv, hQ⟩ := hcell w hw
  rw [exec_readColumn, hv]
  exact ⟨(hread w hw).1, (hread w hw).2, hQ⟩

end Run

end Rowwise
