import Rowwise.Proofs.Constancy.Builders

/-!
# Rowwise.Proofs.Constancy.Lookups — columns and macros found by constant names and by names in a row

A constant name is looked up when the call is built and any other name in each row, among the same columns and macros.  A
column of a schema has no values, so the types must convert where only a table would show that they do not
(`World.ReadsAs`).
-/

namespace Rowwise

/-- A column of that name is one of a table, or its type converts to the target. -/
def World.ReadsAs (w : World) (name : String) (target : ValueType) : Prop :=
  ∀ source type, w.column? name = some (source, type) →
    type.castable target = true ∨ ∃ s, w.sources[source]? = some s ∧ s.isTable = true

theorem World.Tabular.readsAs {w : World} (hw : w.Tabular) (name : String) (target : ValueType) :
    w.ReadsAs name target := by
  intro source type hcolumn
  obtain ⟨s, hs, -⟩ := World.hasColumn_of_column? hcolumn
  exact Or.inr ⟨s, hs, hw s (List.mem_iff_getElem?.2 ⟨source, hs⟩)⟩

/-! ### Columns -/

theorem Value.retag_type (v : Value) : v.retag v.type = v := by cases v <;> rfl

/-- What is read of a column has the type of the column. -/
theorem World.type_of_cell {w : World} {source : Nat} {name : String} {t : ValueType} {v : Value}
    (hc : w.HasColumn source name t) (hv : w.cell source name t.storage = .ok v) : v.type = t := by
  obtain ⟨s, hs, ht⟩ := hc
  simp only [cell, hs] at hv
  cases s with
  | schema columns => cases hv
  | table s =>
    obtain ⟨u, hu, htype⟩ := Source.read_of_type rfl ht w.row
    rw [hu] at hv
    cases hv
    exact htype

namespace Node

open Run

variable {c : Context} {fuel : Nat} {w₀ w₁ : World}

/-- What a column found by its name comes to: a fault if there is none or its type does not convert, else what is read. -/
def columnResult (c : Context) (w₀ w₁ : World) (target : ValueType) (name : String) : Except Halt Value :=
  match w₀.column? name with
  | none => .error (.fault (.unknownName name))
  | some (source, type) =>
    if type.castable target then
      ((w₁.cell source name type.storage).map (Value.converted c.options.zone · target)).mapError fun d =>
        .fault (.internal d)
    else .error (.fault (.type Builtin.columnNamed.name (.unconvertible type target)))

section Columns

variable (hs : c.Steady w₀ w₁)

include hs

theorem hasColumn_of_steady {name : String} {source : Nat} {type : ValueType}
    (h : w₀.column? name = some (source, type)) : w₁.HasColumn source name type :=
  hs.columns.hasColumn (World.hasColumn_of_column? h)

/-- A table would have been read, so where there is a defect the types convert. -/
theorem castable_of_defect {target : ValueType} {name : String} (hreads : w₀.ReadsAs name target) {source : Nat}
    {type : ValueType} (hcolumn : w₀.column? name = some (source, type)) {d : Defect}
    (hcell : w₁.cell source name type.storage = .error d) : type.castable target = true := by
  rcases hreads source type hcolumn with hcast | ⟨s, hsource, htable⟩
  · exact hcast
  · obtain ⟨s', hs', hshape⟩ := hs.columns.getElem? hsource
    obtain ⟨s'', hs'', ht⟩ := hasColumn_of_steady hs hcolumn
    rw [hs'] at hs''
    cases hs''
    rw [← Source.isTable_shape, ← hshape, Source.isTable_shape] at htable
    obtain ⟨u, hu, -⟩ := Source.read_of_type htable ht w₁.row
    simp only [World.cell, hs', hu] at hcell
    cases hcell

theorem columnValue_gives {target : ValueType} {name : String} (hreads : w₀.ReadsAs name target) :
    Gives w₁ (columnValue c target name) (columnResult c w₀ w₁ target name) := by
  refine .get_bind fun v hv => ?_
  unfold columnResult
  rw [hs.column?_eq hv]
  cases hcolumn : w₀.column? name with
  | none => exact .fail _
  | some p =>
    obtain ⟨source, type⟩ := p
    have hread := Gives.readColumn (w := w₁) source name type.storage
    show Gives w₁ (readColumn source name type.storage >>= _) (if _ then _ else _)
    cases hcell : w₁.cell source name type.storage with
    | error d =>
      rw [hcell] at hread
      rw [if_pos (castable_of_defect hs hreads hcolumn hcell)]
      exact hread.error
    | ok v =>
      rw [hcell] at hread
      have htype := World.type_of_cell (hasColumn_of_steady hs hcolumn) hcell
      subst htype
      refine hread.after ?_
      split
      · rename_i hcast
        rw [Value.cast_eq hcast]
        exact .typed _ (.ok _)
      · rename_i hcast
        rw [Value.cast, if_neg hcast]
        exact .typed _ (.error _)

theorem column_gives {name : String} {source : Nat} {type : ValueType} (hcolumn : w₀.column? name = some (source, type)) :
    Gives w₁ ((column source name type).value c (c.rowText fuel))
      ((w₁.cell source name type.storage).mapError fun d => .fault (.internal d)) := by
  have hread := Gives.readColumn (w := w₁) source name type.storage
  rw [value]
  cases hcell : w₁.cell source name type.storage with
  | error d =>
    rw [hcell] at hread
    exact hread.error
  | ok v =>
    rw [hcell] at hread
    have htype := World.type_of_cell (hasColumn_of_steady hs hcolumn) hcell
    subst htype
    have hretag := Gives.pure (w := w₁) (v.retag v.type)
    rw [v.retag_type] at hretag
    refine hread.after ?_
    rwa [v.retag_type]

/-- A column read as one of its type, and perhaps converted. -/
theorem column_comes {target : ValueType} {name : String} {source : Nat} {type : ValueType}
    (hcolumn : w₀.column? name = some (source, type)) :
    Comes c fuel w₀ w₁ (converted c Builtin.columnNamed.name (.column source name type) target)
      (columnResult c w₀ w₁ target name) := by
  have hread : Gives w₁ ((column source name type).value c (c.rowText fuel))
      ((w₁.cell source name type.storage).mapError fun d => .fault (.internal d)) := column_gives hs hcolumn
  unfold converted columnResult
  rw [hcolumn]
  show Comes c fuel w₀ w₁ (if type.castable target then if type = target then _ else _ else _)
    (if type.castable target then _ else _)
  by_cases hcast : type.castable target = true
  · rw [if_pos hcast, if_pos hcast]
    split
    · rename_i htype
      subst htype
      refine .pure ⟨?_, fun hfold => by cases hfold⟩
      cases hcell : w₁.cell source name type.storage with
      | error d =>
        rw [hcell] at hread
        exact hread
      | ok v =>
        rw [hcell] at hread
        have hsame : v.converted c.options.zone type = v :=
          if_pos (World.type_of_cell (hasColumn_of_steady hs hcolumn) hcell)
        show Gives w₁ _ (.ok (v.converted c.options.zone type))
        rw [hsame]
        exact hread
    · unfold fold
      rw [if_neg (by rintro ⟨⟩)]
      refine .pure ⟨?_, fun hfold => by cases hfold⟩
      rw [value]
      cases hcell : w₁.cell source name type.storage with
      | error d =>
        rw [hcell] at hread
        exact hread.error
      | ok v =>
        rw [hcell] at hread
        have htype := World.type_of_cell (hasColumn_of_steady hs hcolumn) hcell
        refine hread.after ?_
        rw [Value.cast_eq (htype.symm ▸ hcast)]
        exact .typed _ (.ok _)
  · rw [if_neg hcast, if_neg hcast]
    exact .fail _

end Columns

/-- The type that a constant names is found, or the call fails, wherever it is built. -/
theorem targetType_gives (function : String) (v : Value) :
    (∃ f, ∀ w, Gives w (targetType function (some (.const v))) (.error (.fault f))) ∨
      ∃ text t, v.text? = some text ∧ ValueType.named? text.toList = some t ∧
        ∀ w, Gives w (targetType function (some (.const v))) (.ok (some t)) := by
  simp only [targetType, constant?]
  cases htext : v.text? with
  | none => exact Or.inl ⟨_, fun w => .fail _⟩
  | some text =>
    cases hnamed : ValueType.named? text.toList with
    | none => exact Or.inl ⟨_, fun w => by simp only [hnamed]; exact .fail _⟩
    | some t =>
      by_cases ht : t ∈ ValueType.targets
      · exact Or.inr ⟨text, t, rfl, hnamed, fun w => by simp only [hnamed, if_pos ht]; exact .pure _⟩
      · exact Or.inl ⟨_, fun w => by simp only [hnamed, if_neg ht]; exact .fail _⟩

theorem columnOf?_gives (name : String) : Gives w₀ (columnOf? name)
    (.ok ((w₀.column? name).map fun (source, type) => .column source name type)) := by
  refine .get_bind fun v hv => ?_
  rw [hv.column?_eq]
  exact .pure _

section Columns

variable (hs : c.Steady w₀ w₁) {n : Node} {v tv : Value} {t : ValueType}

include hs

/-- The node of a constant name. -/
theorem buildColumn_comes {name : String} (hname : v.text? = some name)
    (ht : Gives w₀ (targetType Builtin.columnNamed.name (some (.const tv))) (.ok (some t))) :
    Comes c fuel w₀ w₁ (buildColumn c (.const v) (some (.const tv))) (columnResult c w₀ w₁ t name) := by
  unfold buildColumn
  simp only [constant?, hname]
  refine .bind ht (.bind (columnOf?_gives name) ?_)
  cases hcolumn : w₀.column? name with
  | none =>
    unfold columnResult
    rw [hcolumn]
    exact .fail _
  | some p => exact column_comes hs hcolumn

omit hs in
theorem buildColumn_missing (hname : v.text? = none)
    (ht : Gives w₀ (targetType Builtin.columnNamed.name (some (.const tv))) (.ok (some t))) :
    Comes c fuel w₀ w₁ (buildColumn c (.const v) (some (.const tv)))
      (.error (.fault (.value Builtin.columnNamed.name .attributeMissing))) := by
  unfold buildColumn
  simp only [constant?, hname]
  exact .bind ht (.fail _)

/-- The node of a name that a row supplies. -/
theorem buildColumn_of_row (hn : n.constant? = none) (hgives : Gives w₁ (n.value c (c.rowText fuel)) (.ok v))
    (hreads : ∀ name, v.text? = some name → w₀.ReadsAs name t)
    (ht : Gives w₀ (targetType Builtin.columnNamed.name (some (.const tv))) (.ok (some t))) :
    Comes c fuel w₀ w₁ (buildColumn c n (some (.const tv)))
      (v.text?.elim (.ok (.missing t)) (columnResult c w₀ w₁ t)) := by
  unfold buildColumn
  rw [hn]
  refine .bind ht (.pure ⟨?_, fun hfold => by cases hfold⟩)
  rw [value]
  refine hgives.after ?_
  cases hname : v.text? with
  | none => exact .pure _
  | some name => exact columnValue_gives hs (hreads name hname)

/-- A constant name that is missing is refused, while a row may leave it missing. -/
theorem buildColumn_agreeing {b : Builtin} (hn : Supplies c fuel w₁ n v)
    (hreads : ∀ name text t, v.text? = some name → tv.text? = some text → ValueType.named? text.toList = some t →
      w₀.ReadsAs name t) :
    Agreeing c fuel w₀ w₁ b.Alike (buildColumn c (.const v) (some (.const tv))) (buildColumn c n (some (.const tv))) := by
  rcases targetType_gives Builtin.columnNamed.name tv with ⟨f, hf⟩ | ⟨text, t, htext, ht, hgives⟩
  · exact .same (.failed (hf w₀).error) (.failed (hf w₀).error)
  · rcases hn.constant? with hnone | rfl
    · have hrow := buildColumn_of_row hs hnone hn.gives (fun name hname => hreads name text t hname htext ht) (hgives w₀)
      cases hname : v.text? with
      | none =>
        rw [hname] at hrow
        exact .of_fault (buildColumn_missing hname (hgives w₀)) hrow fun h' hh' => by cases hh'
      | some name =>
        rw [hname] at hrow
        exact .same (buildColumn_comes hs hname (hgives w₀)) hrow
    · cases hname : v.text? with
      | none => exact .same (buildColumn_missing hname (hgives w₀)) (buildColumn_missing hname (hgives w₀))
      | some name => exact .same (buildColumn_comes hs hname (hgives w₀)) (buildColumn_comes hs hname (hgives w₀))

end Columns

/-! ### Macros found by their names -/

/-- What a macro found by its name comes to: its text, or else the default, or a missing text if the name is known. -/
def macroResult (w : World) (name : String) (default : Option Value) : Except Halt Value :=
  match w.scope? name, default with
  | some (some text), _ => .ok (.text (some text))
  | _, some d => .ok d
  | some none, none => .ok (.text none)
  | none, none => .error (.fault (.unknownName name))

theorem scope?_gives (hs : c.Steady w₀ w₁) (name : String) : Gives w₁ (Run.scope? name) (.ok (w₀.scope? name)) := by
  rw [← hs.scope?_eq (.refl w₁)]
  exact .scope? name

theorem macroText_gives (hs : c.Steady w₀ w₁) (name : String) :
    Gives w₁ (macroText name) (match w₀.scope? name with
      | some text => .ok text
      | none => .error (.fault (.unknownName name))) := by
  refine (scope?_gives hs name).after ?_
  cases w₀.scope? name with
  | none => exact .fail _
  | some text => exact .pure _

variable {n : Node} {v : Value} {default : Option Node} {d : Option Value}

/-- The node of a constant name. -/
theorem buildMacro_comes {name : String} (hname : v.text? = some name) (hd : Option.Rel (Supplies c fuel w₁) default d) :
    Comes c fuel w₀ w₁ (buildMacro (.const v) default) (macroResult w₀ name d) := by
  unfold buildMacro macroResult
  simp only [constant?, hname]
  refine .bind (.scope? name) ?_
  cases hd with
  | none =>
    rcases w₀.scope? name with _ | _ | text
    · exact .fail _
    · exact .pure (const_settles _)
    · exact .pure (const_settles _)
  | some hd =>
    rcases w₀.scope? name with _ | _ | text
    · exact .pure hd.settles
    · exact .pure hd.settles
    · exact .pure (const_settles _)

theorem buildMacro_missing (hname : v.text? = none) (default : Option Node) :
    Comes c fuel w₀ w₁ (buildMacro (.const v) default)
      (.error (.fault (.value Builtin.macroNamed.name .macroMissing))) := by
  unfold buildMacro
  simp only [constant?, hname]
  exact .fail _

/-- The node of a name that a row supplies. -/
def macroInRow (name : Node) : Option Node → Node
  | some default => macroOr name default
  | none => macroNamed name

theorem buildMacro_of_row (hn : n.constant? = none) (default : Option Node) :
    buildMacro n default = pure (macroInRow n default) := by
  unfold buildMacro
  rw [hn]
  cases default <;> rfl

theorem macroInRow_gives (hs : c.Steady w₀ w₁) (hn : Gives w₁ (n.value c (c.rowText fuel)) (.ok v))
    (hd : Option.Rel (Supplies c fuel w₁) default d) :
    Gives w₁ ((macroInRow n default).value c (c.rowText fuel)) (match v.text? with
      | none => .ok (.text none)
      | some name => macroResult w₀ name d) := by
  unfold macroResult
  cases hd with
  | none =>
    rw [macroInRow, value]
    refine hn.after ?_
    cases v.text? with
    | none => exact .pure _
    | some name =>
      simp only
      have htext := macroText_gives hs name
      rcases hscope : w₀.scope? name with _ | _ | text <;> rw [hscope] at htext
      · exact htext.error
      · exact htext.after (.pure _)
      · exact htext.after (.pure _)
  | some hd =>
    rw [macroInRow, value]
    refine hn.after ?_
    cases v.text? with
    | none => exact .pure _
    | some name =>
      simp only
      refine (scope?_gives hs name).after ?_
      rcases w₀.scope? name with _ | _ | text
      · exact hd.gives
      · exact hd.gives
      · exact .pure _

/-- A constant name that is missing is refused, while a row may leave it missing. -/
theorem buildMacro_agreeing (hs : c.Steady w₀ w₁) {b : Builtin} (hn : Supplies c fuel w₁ n v)
    (hd : Option.Rel (Supplies c fuel w₁) default d) :
    Agreeing c fuel w₀ w₁ b.Alike (buildMacro (.const v) (d.map .const)) (buildMacro n default) := by
  have hconsts : Option.Rel (Supplies c fuel w₁) (d.map .const) d := by
    cases d with
    | none => exact .none
    | some d => exact .some (.const d)
  rcases hn.constant? with hnone | rfl
  · rw [buildMacro_of_row hnone]
    have hrow : Comes c fuel w₀ w₁ (pure (macroInRow n default)) (match v.text? with
        | none => .ok (.text none)
        | some name => macroResult w₀ name d) :=
      .pure ⟨macroInRow_gives hs hn.gives hd, fun h => by cases default <;> cases h⟩
    cases hname : v.text? with
    | none =>
      rw [hname] at hrow
      exact .of_fault (buildMacro_missing hname _) hrow fun h' hh' => by cases hh'
    | some name =>
      rw [hname] at hrow
      exact .same (buildMacro_comes hname hconsts) hrow
  · cases hname : v.text? with
    | none => exact .same (buildMacro_missing hname _) (buildMacro_missing hname _)
    | some name => exact .same (buildMacro_comes hname hconsts) (buildMacro_comes hname hd)

end Node

end Rowwise
