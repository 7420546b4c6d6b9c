import Mathlib.Logic.Function.Iterate
import Rowwise.Proofs.Evaluation.Framing
import Rowwise.Proofs.Tables.Readers

/-!
# Rowwise.Proofs.Tables.Retyping — columns that change their types

A parsed expression refers to columns by their names and by the types that they had when it was parsed.  A column that is
added later may take a name over with another type.  No value is read of it as what it is not made of: such a read ends the
evaluation with a defect (`Context.retyped_fails`).  The two types of numbers are made of the same, and columns that are
found by name in a row are read by the types they have there, so neither ends an evaluation
(`Context.retyped_evaluates`).
-/

namespace Rowwise

open Run Node

/-! ### What reads ask for -/

/-- A source has a column of that name that is made of this. -/
def World.Stores (w : World) (source : Nat) (name : String) (storage : Storage) : Prop :=
  ∃ t, w.HasColumn source name t ∧ t.storage = storage

/-- If the event reads a column, it asks for what `asks` allows. -/
def Event.Asks (asks : Nat → String → Storage → Prop) : Event → Prop
  | .read source name storage _ => asks source name storage
  | _ => True

theorem World.HasColumn.unique {w : World} {source : Nat} {name : String} {t t' : ValueType}
    (h : w.HasColumn source name t) (h' : w.HasColumn source name t') : t = t' := by
  obtain ⟨s, hs, ht⟩ := h
  obtain ⟨s', hs', ht'⟩ := h'
  obtain rfl : s = s' := Option.some.inj (hs.symm.trans hs')
  exact Option.some.inj (ht.symm.trans ht')

/-- Runs over the columns of a world that ask columns for what they are made of, if `L` holds, and for nothing otherwise. -/
def Contract.asking (u : World) (L : Prop) : Contract where
  holds := u.SameColumns
  moves w w' := ∃ es, w'.events = es ++ w.events ∧ ∀ e ∈ es, e.Asks fun source name storage => L ∧ u.Stores source name storage
  allows _ := True
  moves_refl := World.Only.refl
  moves_trans := World.Only.trans

variable {w₀ u : World} {c : Context} {L : Prop}

theorem Contract.asking_note (e : World → Event)
    (he : ∀ w, (e w).Asks fun source name storage => L ∧ u.Stores source name storage) {change : World → World}
    (hsources : ∀ w, (change w).sources = w.sources) (hevents : ∀ w, (change w).events = e w :: w.events) :
    (Contract.asking u L).Lets change := by
  intro w hw
  refine ⟨?_, World.Only.of_event (he w) (hevents w)⟩
  show u.sources.map _ = (change w).sources.map _
  rw [hsources]
  exact hw

theorem Contract.usual_asking (u : World) (L : Prop) : (Contract.asking u L).Usual where
  poll _ cancelled := Contract.asking_note (fun _ => .poll cancelled) (fun _ => trivial) (fun _ => rfl) fun _ => rfl
  note {e} he := Contract.asking_note (fun _ => e) (fun _ => by cases e <;> trivial) (fun _ => rfl)
    fun _ => rfl
  streams _ w hw := ⟨hw, World.Only.refl w⟩
  fault _ := trivial
  within _ _ := trivial

/-- Columns that are resolved while the columns are those of `u` are asked for what they are made of. -/
theorem Contract.frames_asking (u : World) (hL : L) : (Contract.asking u L).Frames u.HasColumn where
  poll := (Contract.usual_asking u L).poll
  note := (Contract.usual_asking u L).note
  streams := (Contract.usual_asking u L).streams
  opened := Contract.asking_note (fun _ => .opened) (fun _ => trivial) (fun _ => rfl) fun _ => rfl
  closed := Contract.asking_note (fun _ => .closed) (fun _ => trivial) (fun _ => rfl) fun _ => rfl
  reads {source name type} h w hw := by
    refine ⟨hw.trans (sameColumns_afterRead _ _ _ w), World.Only.of_event ?_ (events_afterRead _ _ _ w)⟩
    exact ⟨hL, type, h, rfl⟩
  found hw hcol := (World.SameColumns.symm hw).hasColumn (World.hasColumn_of_column? hcol)
  halts _ := trivial

/-! ### Reads of retyped columns -/

/-- The defect of a read that asks a column for what it is not made of, within `k` texts given to `eval`. -/
def staleFault (k : Nat) (asked : Storage) (t : ValueType) (name : String) : Fault :=
  (Fault.within Builtin.eval.name)^[k] (.internal (.wrongColumn asked t name))

theorem within_staleFault (k : Nat) (asked : Storage) (t : ValueType) (name : String) :
    (staleFault k asked t name).within Builtin.eval.name = staleFault (k + 1) asked t name :=
  (Function.iterate_succ_apply' _ _ _).symm

/-- Over the columns of `u` the run asks columns for what they are made of in `w₀`, or if `L` holds for what they are made of
in `u`.  If a column is not made of what it is asked for, the run ends with the defect, within at most `k` texts. -/
def Run.FailsStale (w₀ u : World) (L : Prop) (k : Nat) {α : Type} (x : Run α) : Prop :=
  ∀ w, u.SameColumns w → u.SameColumns (x.exec w).2 ∧ ∃ es, (x.exec w).2.events = es ++ w.events ∧
    ∀ source name asked row, .read source name asked row ∈ es →
      (w₀.Stores source name asked ∨ L ∧ u.Stores source name asked) ∧
      ∀ t, u.HasColumn source name t → t.storage ≠ asked →
        ∃ j ≤ k, (x.exec w).1 = .error (.fault (staleFault j asked t name))

namespace Run.FailsStale

variable {k : Nat} {α β : Type} {x : Run α} {f : α → Run β}

/-- What finds its columns while it runs asks for nothing stale. -/
theorem of_asking (h : Meets (.asking u L) x fun _ => True) : FailsStale w₀ u L k x := by
  intro w hw
  obtain ⟨hholds, ⟨es, hes, hasks⟩, -⟩ := h w hw
  refine ⟨hholds, es, hes, fun source name asked row he => ⟨Or.inr (hasks _ he), fun t ht hne => ?_⟩⟩
  obtain ⟨-, t', ht', hstorage⟩ := hasks _ he
  exact absurd (ht.unique ht' ▸ hstorage) hne

theorem bind (hx : FailsStale w₀ u L k x) (hf : ∀ a, FailsStale w₀ u L k (f a)) : FailsStale w₀ u L k (x >>= f) := by
  intro w hw
  obtain ⟨hholds, es, hes, hreads⟩ := hx w hw
  rw [exec_bind]
  rcases hr : exec x w with ⟨halt | a, w'⟩
  · rw [hr] at hholds hes hreads
    refine ⟨hholds, es, hes, fun source name asked row he => ?_⟩
    obtain ⟨hasked, hstale⟩ := hreads source name asked row he
    refine ⟨hasked, fun t ht hne => ?_⟩
    obtain ⟨j, hj, houtcome⟩ := hstale t ht hne
    cases houtcome
    exact ⟨j, hj, rfl⟩
  · -- what the first part has read was not stale, since it has a result
    rw [hr] at hholds hes hreads
    obtain ⟨hholds', fs, hfs, hreads'⟩ := hf a w' hholds
    refine ⟨hholds', fs ++ es, by rw [hfs, hes, List.append_assoc], fun source name asked row he => ?_⟩
    rcases List.mem_append.1 he with he | he
    · exact hreads' source name asked row he
    · obtain ⟨hasked, hstale⟩ := hreads source name asked row he
      refine ⟨hasked, fun t ht hne => ?_⟩
      obtain ⟨j, -, houtcome⟩ := hstale t ht hne
      cases houtcome

/-- A column is asked for what it was made of when the name was resolved. -/
theorem readColumn (hu : u.Tabular) {source : Nat} {name : String} {type : ValueType}
    (h : w₀.HasColumn source name type) : FailsStale w₀ u L k (Run.readColumn source name type.storage) := by
  intro w hw
  rw [exec_readColumn]
  refine ⟨hw.trans (sameColumns_afterRead _ _ _ w), [_], events_afterRead _ _ _ w, fun s n asked row he => ?_⟩
  obtain ⟨rfl, rfl, rfl, -⟩ := by simpa using he
  refine ⟨Or.inl ⟨type, h, rfl⟩, fun t ht hne => ⟨0, Nat.zero_le k, ?_⟩⟩
  rw [World.cell_of_other (hw.tabular hu) (hw.hasColumn ht) hne]
  rfl

theorem inText (h : FailsStale w₀ u L k x) : FailsStale w₀ u L k (Run.inText x) := by
  intro w hw
  obtain ⟨hholds, es, hes, hreads⟩ := h w.opening hw
  rw [exec_inText]
  refine ⟨hholds, .closed :: (es ++ [.opened]), ?_, fun source name asked row he => ?_⟩
  · show Event.closed :: (exec x w.opening).2.events = _
    rw [hes]
    simp [World.opening]
  · exact hreads source name asked row (by simpa using he)

theorem evalText (h : FailsStale w₀ u L k x) :
    FailsStale w₀ u L (k + 1) (Run.nested Builtin.eval.name (Run.inText x)) := by
  intro w hw
  obtain ⟨hholds, es, hes, hreads⟩ := h.inText w hw
  rw [exec_nested]
  refine ⟨hholds, es, hes, fun source name asked row he => ?_⟩
  obtain ⟨hasked, hstale⟩ := hreads source name asked row he
  refine ⟨hasked, fun t ht hne => ?_⟩
  obtain ⟨j, hj, houtcome⟩ := hstale t ht hne
  refine ⟨j + 1, Nat.succ_le_succ hj, ?_⟩
  rw [houtcome, ← within_staleFault]
  rfl

theorem mono {k' : Nat} (h : FailsStale w₀ u L k x) (hk : k ≤ k') : FailsStale w₀ u L k' x := by
  intro w hw
  obtain ⟨hholds, es, hes, hreads⟩ := h w hw
  refine ⟨hholds, es, hes, fun source name asked row he => ?_⟩
  obtain ⟨hasked, hstale⟩ := hreads source name asked row he
  refine ⟨hasked, fun t ht hne => ?_⟩
  obtain ⟨j, hj, houtcome⟩ := hstale t ht hne
  exact ⟨j, Nat.le_trans hj hk, houtcome⟩

/-- Evaluation over the columns of `u` of nodes that were built over those of `w₀`. -/
theorem evaluates (hu : u.Tabular) : c.Evaluates (ReadsHere w₀.HasColumn L) fun k {_} x _ => FailsStale w₀ u L k x where
  pure _ := of_asking (Meets.pure trivial)
  fail _ := of_asking (Meets.fail trivial)
  bind := bind
  poll := of_asking (Meets.poll (Contract.usual_asking u L) trivial)
  step he := of_asking (Meets.note ((Contract.usual_asking u L).note (Event.isNote_of_isStep he)) trivial)
  supplied _ := of_asking (Meets.note ((Contract.usual_asking u L).note rfl) trivial)
  random _ := of_asking ((nextRandom_meets (Contract.usual_asking u L) _).mono fun _ _ => trivial)
  time _ := of_asking (currentTime_meets (Contract.usual_asking u L))
  row _ _ := of_asking currentRow_meets
  scope? _ _ _ := of_asking Meets.scope?
  column := readColumn hu
  columnValue name hL := of_asking ((Contract.frames_asking u hL).columnValue_meets _ name)
  inText h := h.inText.mono (Nat.le_succ _)
  evalText := evalText
  mono := mono

end Run.FailsStale

/-! ### Nodes that find no column in a row -/

/-- All columns of the node were found when it was built: it looks up none by a name that a row yields, and reads no texts of
a row. -/
def Node.IsFixed (n : Node) : Prop := n.ReadsOnly (fun _ _ _ => True) False

theorem Node.ReadsOnly.of_isFixed {C : Nat → String → ValueType → Prop} {n : Node} (h : n.ReadsOnly C True) :
    n.ReadsOnly C (¬ n.IsFixed) := by
  by_cases hfixed : n.IsFixed
  · exact h.meet hfixed (fun _ _ _ hC _ => hC) fun _ hfalse => hfalse.elim
  · exact h.meet h (fun _ _ _ hC _ => hC) fun _ _ => hfixed

/-! ### Adding columns after parsing -/

/-- With one table, the columns are those of the table. -/
theorem World.hasColumn_table {w : World} {s : TableSource} (hw : w.sources.map Source.shape = [(Source.table s).shape])
    {source : Nat} {name : String} {t : ValueType} :
    w.HasColumn source name t ↔ source = 0 ∧ ∃ col, s.column? name = some col ∧ col.type = t := by
  have hsame : w.SameColumns { w with sources := [.table s] } := hw
  constructor
  · intro h
    obtain ⟨s', hs', ht⟩ := hsame.hasColumn h
    obtain ⟨rfl, rfl⟩ := by simpa [List.getElem?_singleton] using hs'
    exact ⟨rfl, Option.map_eq_some_iff.1 ht⟩
  · rintro ⟨rfl, ht⟩
    exact hsame.symm.hasColumn ⟨.table s, rfl, Option.map_eq_some_iff.2 ht⟩

theorem World.stores_table {w : World} {s : TableSource} (hw : w.sources.map Source.shape = [(Source.table s).shape])
    {source : Nat} {name : String} {asked : Storage} :
    w.Stores source name asked ↔ source = 0 ∧ ∃ col, s.column? name = some col ∧ col.type.storage = asked := by
  constructor
  · rintro ⟨t, ht, rfl⟩
    obtain ⟨hzero, col, hcol, rfl⟩ := (hasColumn_table hw).1 ht
    exact ⟨hzero, col, hcol, rfl⟩
  · rintro ⟨hzero, col, hcol, rfl⟩
    exact ⟨_, (hasColumn_table hw).2 ⟨hzero, col, hcol, rfl⟩, rfl⟩

theorem World.tabular_table {w : World} {s : TableSource} (hw : w.sources.map Source.shape = [(Source.table s).shape]) :
    w.Tabular := by
  have hsame : w.SameColumns { w with sources := [.table s] } := hw
  refine hsame.symm.tabular fun s' hs' => ?_
  rw [List.mem_singleton.1 hs']
  rfl

/-- Adding columns takes no name away. -/
theorem TableSource.exists_column_foldl_add (added : List Column) {s : TableSource} {name : String}
    (h : ∃ col, s.column? name = some col) : ∃ col, (added.foldl TableSource.add s).column? name = some col := by
  induction added generalizing s with
  | nil => exact h
  | cons d added ih =>
    refine ih ?_
    by_cases hd : name = d.name
    · subst hd
      exact ⟨d, s.column?_add_self d⟩
    · rw [s.column?_add hd]
      exact h

namespace Context

/-- Over one table, to which columns are added after an expression was parsed, its evaluation reads a column as what it is
made of now, or as what it was made of when the expression was parsed; the former only if it looks up columns by names or
reads texts in the row.  If the column is not made of what is asked for, the evaluation fails with a defect, bare or in
texts given to `eval`. -/
theorem retyped_fails (c : Context) {s : TableSource} {text : String} {w₀ : World} {e : Expression}
    (h₀ : w₀.sources.map Source.shape = [(Source.table s).shape]) (hparse : ((c.parse text).exec w₀).1 = .ok e)
    (added : List Column) {w : World}
    (hw : w.sources.map Source.shape = [(Source.table (added.foldl TableSource.add s)).shape]) (fuel : Nat) :
    ∃ es, ((c.evaluateWithin fuel e.root).exec w).2.events = es ++ w.events ∧
      ∀ source name asked row, .read source name asked row ∈ es →
        ∃ now, (added.foldl TableSource.add s).column? name = some now ∧
          ((∃ before, s.column? name = some before ∧ before.type.storage = asked) ∨
            ¬ e.root.IsFixed ∧ now.type.storage = asked) ∧
          (now.type.storage ≠ asked → ∃ k ≤ e.root.textDepth 0,
            ((c.evaluateWithin fuel e.root).exec w).1 = .error (.fault (staleFault k asked now.type name))) := by
  have hroot : e.root.ReadsOnly w₀.HasColumn True := by
    have houtcome := ((Contract.frames_asking w₀ trivial).parse_meets (c := c) text w₀ (.refl w₀)).2.2
    rwa [hparse] at houtcome
  have hrow : ¬ e.root.IsFixed → ∀ t s, FailsStale w₀ w (¬ e.root.IsFixed) 0 (c.rowText fuel t s) :=
    fun hL t s => .of_asking ((Contract.frames_asking w hL).rowText_meets fuel t s)
  have hvalue : FailsStale w₀ w (¬ e.root.IsFixed) (e.root.textDepth 0) (c.evaluateWithin fuel e.root) := by
    rw [evaluateWithin_eq]
    exact @value_simulates _ _ c (c.rowText fuel) (c.rowText fuel) 0 (FailsStale.evaluates (World.tabular_table hw))
      (fun t _ hL s => hrow hL t s) e.root _ (Nat.le_refl _) hroot.of_isFixed.parts
  obtain ⟨-, es, hes, hreads⟩ := hvalue w (.refl w)
  refine ⟨es, hes, fun source name asked row he => ?_⟩
  obtain ⟨hasked, hstale⟩ := hreads source name asked row he
  rw [World.stores_table h₀, World.stores_table hw] at hasked
  have hcolumn : source = 0 ∧ ∃ now, (added.foldl TableSource.add s).column? name = some now := by
    rcases hasked with ⟨hzero, before, hcol, -⟩ | ⟨-, hzero, now, hcol, -⟩
    · exact ⟨hzero, TableSource.exists_column_foldl_add added ⟨before, hcol⟩⟩
    · exact ⟨hzero, now, hcol⟩
  obtain ⟨rfl, now, hcol⟩ := hcolumn
  refine ⟨now, hcol, ?_, hstale now.type ((World.hasColumn_table hw).2 ⟨rfl, now, hcol, rfl⟩)⟩
  rcases hasked with ⟨-, hbefore⟩ | ⟨hL, -, now', hcol', hstorage⟩
  · exact Or.inl hbefore
  · rw [Option.some.inj (hcol.symm.trans hcol')]
    exact Or.inr ⟨hL, hstorage⟩

/-- A world with one table. -/
def overTable (s : TableSource) : World := { sources := [.table s] }

/-- A table of one row. -/
def oneRow (columns : List Column) : TableSource := { table := ⟨columns, 1⟩ }

theorem retyped_fails_of_text :
    let s := oneRow [⟨"a", .boolean #[some true], none⟩]
    let w := overTable (s.add ⟨"a", .text #[some "x"], none⟩)
    ∃ e, ((({} : Context).parse "[a]").exec (overTable s)).1 = .ok e ∧ ∃ k ≤ e.root.textDepth 0,
      ((({} : Context).evaluate e.root).exec w).1 = .error (.fault (staleFault k .boolean .text "a")) := by
  intro s w
  obtain ⟨e, he, hread⟩ := exists_ok (r := ((({} : Context).parse "[a]").exec (overTable s)).1)
    (p := fun e => decide (.read 0 "a" .boolean 0 ∈ ((({} : Context).evaluate e.root).exec w).2.events)) (by decide +kernel)
  refine ⟨e, he, ?_⟩
  obtain ⟨es, hes, hreads⟩ :=
    @retyped_fails {} s _ (overTable s) e rfl he [⟨"a", .text #[some "x"], none⟩] w rfl evalLimit
  have hmem := of_decide_eq_true hread
  rw [evaluate, hes] at hmem
  obtain ⟨now, hnow, -, hfails⟩ := hreads _ _ _ _ (by simpa [w, overTable] using hmem)
  obtain rfl : (⟨"a", .text #[some "x"], none⟩ : Column) = now := Option.some.inj hnow
  exact hfails (by decide)

/-! ### Retyped columns that are read all the same -/

/-- If the evaluation reads a column that has another type than it had when the expression was parsed, it fails with a bare
defect. -/
def FailsBare (c : Context) (s : TableSource) (text : String) (added : List Column) : Prop :=
  ∀ e, ((c.parse text).exec (overTable s)).1 = .ok e → ∀ outcome w',
    (c.evaluate e.root).exec (overTable (added.foldl TableSource.add s)) = (outcome, w') →
    ∀ name before now, s.column? name = some before → (added.foldl TableSource.add s).column? name = some now →
      now.type ≠ before.type → (∃ asked, .read 0 name asked 0 ∈ w'.events) → ∃ d, outcome = .error (.fault (.internal d))

/-- The evaluation reads the column of that name and does not end with a bare defect. -/
def readsOn (c : Context) (s : TableSource) (added : List Column) (name : String) (e : Expression) : Bool :=
  let (outcome, w') := (c.evaluate e.root).exec (overTable (added.foldl TableSource.add s))
  (w'.events.any fun event => match event with
    | .read 0 n _ 0 => n = name
    | _ => false) &&
  match outcome with
  | .error (.fault (.internal _)) => false
  | _ => true

theorem not_failsBare {c : Context} {s : TableSource} {text : String} {added : List Column} (name : String)
    {before now : Column} (hbefore : s.column? name = some before)
    (hnow : (added.foldl TableSource.add s).column? name = some now) (hne : now.type ≠ before.type)
    (h : (((c.parse text).exec (overTable s)).1.toOption.any (c.readsOn s added name)) = true) :
    ¬ c.FailsBare s text added := by
  obtain ⟨e, he, hp⟩ := exists_ok h
  intro hfails
  unfold readsOn at hp
  rcases hrun : (c.evaluate e.root).exec (overTable (added.foldl TableSource.add s)) with ⟨outcome, w'⟩
  rw [hrun] at hp
  obtain ⟨hread, hout⟩ := Bool.and_eq_true_iff.1 hp
  obtain ⟨event, hmem, hevent⟩ := List.any_eq_true.1 hread
  have hasked : ∃ asked, .read 0 name asked 0 ∈ w'.events := by
    split at hevent
    · exact ⟨_, of_decide_eq_true hevent ▸ hmem⟩
    · cases hevent
  obtain ⟨d, rfl⟩ := hfails e he outcome w' hrun name before now hbefore hnow hne hasked
  cases hout

/-- A column of whole numbers that gives way to one of any numbers is read on as whole numbers; a column found by its name
in the row is read by the type that it has there; and the defect of a read in a text shows as a fault of the text. -/
theorem retyped_evaluates :
    ¬ FailsBare {} (oneRow [⟨"a", .integer #[1], none⟩]) "[a]" [⟨"a", .real #[0.5], none⟩] ∧
    ¬ FailsBare {} (oneRow [⟨"n", .text #[some "a"], none⟩, ⟨"a", .boolean #[some true], none⟩])
      "attribute(n, TYPE_STRING)" [⟨"a", .text #[some "x"], none⟩] ∧
    ¬ FailsBare {} (oneRow [⟨"a", .boolean #[some true], none⟩]) "eval(\"[a]\")" [⟨"a", .text #[some "x"], none⟩] := by
  refine ⟨not_failsBare "a" rfl rfl (by decide) (by decide +kernel), not_failsBare "a" rfl rfl (by decide) (by decide +kernel),
    not_failsBare "a" rfl rfl (by decide) (by decide +kernel)⟩

end Context

end Rowwise
