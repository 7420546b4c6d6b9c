import Mathlib.Logic.Relation
import Rowwise.Eval.Compile
import Rowwise.Proofs.Evaluation.Contract
import Rowwise.Proofs.Tables.Readers

/-!
# Rowwise.Proofs.Tables.Listings — listings and names agree

Sources, stores of macros and contexts each list names and look them up by code of their own.  Listings show for each name
what it stands for (`Context.listings_agree`): the first entry for a value of the row is the column that is found, and a name
stands for what the first of its entries says, be it a column, a variable or a constant.  Hidden constants are the only names
that are not listed.  This holds after any sequence of changes to tables and macros (`World.Updated`).
-/

namespace Rowwise

/-! ### Listings -/

/-- The first entry of that name in a listing that is of this kind. -/
def firstNamed? (es : List Entry) (name : String) (kind : Entry → Bool) : Option Entry :=
  es.find? fun e => kind e && e.name = name

section Listings

variable {es fs : List Entry} {name : String} {kind : Entry → Bool}

theorem firstNamed?_append : firstNamed? (es ++ fs) name kind = (firstNamed? es name kind).or (firstNamed? fs name kind) :=
  List.find?_append

theorem firstNamed?_of_none (h : ∀ e ∈ es, kind e = false) : firstNamed? es name kind = none := by
  refine List.find?_eq_none.2 fun e he => ?_
  simp [h e he]

theorem firstNamed?_of_all (h : ∀ e ∈ es, kind e = true) :
    firstNamed? es name kind = es.find? fun e => e.name = name := by
  induction es with
  | nil => rfl
  | cons e es ih =>
    have htail : firstNamed? es name kind = es.find? fun e => e.name = name := ih fun f hf => h f (List.mem_cons_of_mem e hf)
    by_cases hname : e.name = name
    · simp [firstNamed?, h e List.mem_cons_self, hname]
    · simpa [firstNamed?, hname] using htail

end Listings

/-! ### Columns -/

namespace TableSource

/-- A column that an added one takes the place of is not listed, so the first entry of a name is the column that it stands
for. -/
theorem type_column? (s : TableSource) (name : String) :
    (s.column? name).map Column.type = (s.entries.find? fun e => e.name = name).map Entry.type := by
  have hadded : ((s.added.map (entryOf "additional")).find? fun e => e.name = name) =
      (s.added.find? fun c => c.name = name).map (entryOf "additional") := List.find?_map
  have htable : (((s.table.columns.filter fun c => !s.added.any fun d => d.name = c.name).map (entryOf "table")).find?
      fun e => e.name = name) =
      ((s.table.columns.filter fun c => !s.added.any fun d => d.name = c.name).find? fun c => c.name = name).map
        (entryOf "table") := List.find?_map
  rw [entries, List.find?_append, htable, hadded, column?, Table.columnWith?, Table.column?]
  cases hfind : s.added.find? fun c => c.name = name with
  | some d =>
    have hd : d.name = name := of_decide_eq_true (List.find?_some (p := fun c : Column => decide (c.name = name)) hfind)
    have hreplaced : ((s.table.columns.filter fun c => !s.added.any fun d => d.name = c.name).find? fun c => c.name = name) =
        none := by
      refine List.find?_eq_none.2 fun c hc hname => ?_
      have hkept := (List.mem_filter.1 hc).2
      rw [of_decide_eq_true hname, List.any_eq_true.2 ⟨d, List.mem_of_find?_eq_some hfind, decide_eq_true hd⟩] at hkept
      cases hkept
    rw [hreplaced]
    rfl
  | none =>
    have hkept : ((s.table.columns.filter fun c => !s.added.any fun d => d.name = c.name).find? fun c => c.name = name) =
        s.table.columns.find? fun c => c.name = name := by
      rw [List.find?_filter]
      congr 1
      funext c
      by_cases hname : c.name = name
      · have hnone : (s.added.any fun d => d.name = c.name) = false := by
          refine List.any_eq_false.2 fun d hd => ?_
          rw [hname]
          exact List.find?_eq_none.1 hfind d hd
        simp [hnone]
      · simp [hname]
    rw [hkept, Option.map_none, Option.or_none]
    cases s.table.columns.find? fun c => c.name = name <;> rfl

end TableSource

/-- The type of a column is the one of the first entry of its name. -/
theorem Source.type?_eq (s : Source) (name : String) :
    s.type? name = (s.entries.find? fun e => e.name = name).map Entry.type := by
  cases s with
  | table s => exact s.type_column? name
  | schema columns => rfl

theorem map_sourceOf? (name : String) (i : Nat) (ss : List Source) :
    (sourceOf? name i ss).map Prod.snd = ((ss.flatMap Source.entries).find? fun e => e.name = name).map Entry.type := by
  induction ss generalizing i with
  | nil => rfl
  | cons s ss ih =>
    rw [List.flatMap_cons, List.find?_append, sourceOf?, Source.type?_eq]
    cases (s.entries.find? fun e => e.name = name) with
    | some e => rfl
    | none => exact ih (i + 1)

/-! ### Macros -/

theorem lookup_isSome_iff {name : String} {values : List (String × String)} :
    (values.lookup name).isSome = true ↔ name ∈ values.map Prod.fst := by
  induction values with
  | nil => simp
  | cons p values ih =>
    by_cases hname : name = p.1
    · simp [hname]
    · have hne : (name == p.1) = false := by simpa using hname
      rw [List.lookup_cons, hne, List.map_cons, List.mem_cons, or_iff_right hname]
      exact ih

/-- A store lists the names that it knows. -/
theorem MacroStore.knows_iff (s : MacroStore) (name : String) :
    s.knows name = true ↔ ∃ e ∈ s.entries, e.name = name := by
  have hlisted : (∃ e ∈ s.entries, e.name = name) ↔ name ∈ (TextSet.ofList (s.values.map (·.1) ++ s.predefined)).toList := by
    simp only [entries, List.mem_map]
    exact ⟨fun ⟨e, ⟨n, hn, he⟩, hname⟩ => hname ▸ he ▸ hn, fun hn => ⟨_, ⟨name, hn, rfl⟩, rfl⟩⟩
  rw [hlisted, TextSet.mem_ofList, List.mem_append, knows, Bool.or_eq_true, get?, lookup_isSome_iff]
  simp

/-- The first store that has the name set says what its text is, and a name has none only if no store knows it. -/
theorem scopeText_eq (known : Bool) (name : String) (ms : List MacroStore) :
    scopeText known name ms =
      if known ∨ ∃ m ∈ ms, m.knows name = true then some (ms.findSome? fun m => m.get? name) else none := by
  induction ms generalizing known with
  | nil => cases known <;> rfl
  | cons m ms ih =>
    rw [scopeText, List.findSome?_cons]
    cases hget : m.get? name with
    | some text =>
      have hknows : m.knows name = true := by simp [MacroStore.knows, hget]
      simp [hknows]
    | none =>
      rw [ih]
      simp [or_assoc]

/-! ### Variables and constants -/

section Named

variable {α : Type} {nameOf : α → String} {name : String} {xs : List α}

theorem nameOf_lastNamed? {x : α} (h : Context.lastNamed? nameOf name xs = some x) : nameOf x = name :=
  of_decide_eq_true (List.find?_some (p := fun x => decide (nameOf x = name)) h)

theorem lastNamed?_eq_none (h : name ∉ xs.map nameOf) : Context.lastNamed? nameOf name xs = none := by
  refine List.find?_eq_none.2 fun x hx hname => h ?_
  exact List.mem_map.2 ⟨x, List.mem_reverse.1 hx, of_decide_eq_true hname⟩

/-- Of the members that are listed at most one has the name, and that is the one that the name stands for. -/
theorem find?_lastNamed? (p : α → Bool) (names : List String) :
    ((names.filterMap fun n => Context.lastNamed? nameOf n xs).find? fun x => p x && nameOf x = name) =
      if name ∈ names then (Context.lastNamed? nameOf name xs).filter p else none := by
  induction names with
  | nil => rfl
  | cons n names ih =>
    cases hlast : Context.lastNamed? nameOf n xs with
    | none =>
      rw [List.filterMap_cons, hlast]
      simp only
      rw [ih]
      by_cases hname : n = name
      · subst hname
        simp [hlast]
      · simp [Ne.symm hname]
    | some x =>
      rw [List.filterMap_cons, hlast]
      simp only
      rw [List.find?_cons, ih, nameOf_lastNamed? hlast]
      by_cases hname : n = name
      · subst hname
        cases hp : p x <;> simp [hlast, hp, Option.filter]
      · simp [hname, Ne.symm hname]

theorem find?_byName (p : α → Bool) :
    ((Context.byName nameOf xs).find? fun x => p x && nameOf x = name) = (Context.lastNamed? nameOf name xs).filter p := by
  rw [Context.byName, find?_lastNamed?]
  split
  · rfl
  · rename_i hname
    rw [lastNamed?_eq_none fun hmem => hname (TextSet.mem_ofList.2 hmem)]
    rfl

end Named

/-! ### Changes -/

/-- The source is as it was made, of a table or for type checks. -/
inductive Source.New : Source → Prop where
  | table (t : Table) : New (.table (.after t []))
  | ofTypes (columns : List (String × ValueType)) : New (.ofTypes columns)
  | schemaOf (t : Table) : New (.schemaOf t)

/-- A column is added to a table, or a macro is set or erased. -/
inductive World.Update : World → World → Prop where
  | added {w : World} {i : Nat} {s : TableSource} (column : Column) : w.sources[i]? = some (.table s) →
      Update w { w with sources := w.sources.set i (.table (s.add column)) }
  | set {w : World} {i : Nat} {m : MacroStore} (name text : String) : w.macros[i]? = some m →
      Update w { w with macros := w.macros.set i (m.set name text) }
  | erased {w : World} {i : Nat} {m : MacroStore} (name : String) : w.macros[i]? = some m →
      Update w { w with macros := w.macros.set i (m.erase name) }

/-- The second world comes out of the first by a finite sequence of such changes. -/
def World.Updated : World → World → Prop := Relation.ReflTransGen World.Update

/-- All entries of the source are those of columns. -/
def Source.ListsColumns (s : Source) : Prop :=
  ∀ e ∈ s.entries, e.scope = .row ∧ (e.group = "table" ∨ e.group = "additional")

theorem Source.listsColumns_table (s : TableSource) : (Source.table s).ListsColumns := by
  intro e he
  rcases List.mem_append.1 he with he | he
  · obtain ⟨c, -, rfl⟩ := List.mem_map.1 he
    exact ⟨rfl, Or.inl rfl⟩
  · obtain ⟨c, -, rfl⟩ := List.mem_map.1 he
    exact ⟨rfl, Or.inr rfl⟩

theorem Source.New.listsColumns {s : Source} (h : s.New) : s.ListsColumns := by
  cases h with
  | table t => exact listsColumns_table _
  | ofTypes columns =>
    intro e he
    obtain ⟨c, -, rfl⟩ := List.mem_map.1 he
    exact ⟨rfl, Or.inl rfl⟩
  | schemaOf t =>
    intro e he
    obtain ⟨c, -, rfl⟩ := List.mem_map.1 he
    exact ⟨rfl, Or.inl rfl⟩

namespace World

variable {w w' : World}

/-- A change keeps sources to entries of columns. -/
theorem Update.listsColumns (h : w.Update w') (hw : ∀ s ∈ w.sources, s.ListsColumns) : ∀ s ∈ w'.sources, s.ListsColumns := by
  cases h with
  | added column _ =>
    intro s hs
    rcases List.mem_or_eq_of_mem_set hs with hs | rfl
    · exact hw s hs
    · exact Source.listsColumns_table _
  | set name text _ => exact hw
  | erased name _ => exact hw

theorem Updated.listsColumns (h : w.Updated w') (hw : ∀ s ∈ w.sources, s.New) : ∀ s ∈ w'.sources, s.ListsColumns := by
  induction h with
  | refl => exact fun s hs => (hw s hs).listsColumns
  | tail _ hupdate ih => exact hupdate.listsColumns ih

end World

/-! ### The parts of a listing -/

/-- True for entries of values of the row. -/
def Entry.isOfRow (e : Entry) : Bool := e.scope = .row

/-- True for entries of that group. -/
def Entry.isOf (group : String) (e : Entry) : Bool := e.group = group

/-- All entries are of that group and of values that are the same in each row. -/
def AllWhole (group : String) (es : List Entry) : Prop := ∀ e ∈ es, e.scope = .whole ∧ e.group = group

section Groups

variable {es : List Entry} {name group group' : String}

theorem firstNamed?_of_whole (h : AllWhole group es) : firstNamed? es name Entry.isOfRow = none :=
  firstNamed?_of_none fun e he => by simp [Entry.isOfRow, (h e he).1]

theorem firstNamed?_of_other (h : AllWhole group es) (hne : group ≠ group') :
    firstNamed? es name (Entry.isOf group') = none :=
  firstNamed?_of_none fun e he => by simp [Entry.isOf, (h e he).2, hne]

theorem firstNamed?_of_group (h : AllWhole group es) :
    firstNamed? es name (Entry.isOf group) = es.find? fun e => e.name = name :=
  firstNamed?_of_all fun e he => by simp [Entry.isOf, (h e he).2]

end Groups

namespace Context

/-- The entries of variables. -/
def variableEntries (c : Context) : List Entry :=
  (byName Variable.name c.bindings).map fun v => ⟨v.name, .whole, "variables", v.value.type, none⟩

/-- The entries of constants. -/
def constantEntries (c : Context) : List Entry :=
  ((byName Constant.name (Constant.standard ++ c.constants)).filter fun k => !k.hidden).map fun k =>
    ⟨k.name, .whole, "constants", k.value.type, none⟩

variable (c : Context) (w : World) (name : String)

theorem entries_eq : c.entries w = w.sources.flatMap Source.entries ++ w.macros.flatMap MacroStore.entries ++
    c.variableEntries ++ c.constantEntries := rfl

theorem allWhole_macros : AllWhole "macros" (w.macros.flatMap MacroStore.entries) := by
  intro e he
  obtain ⟨m, -, he⟩ := List.mem_flatMap.1 he
  obtain ⟨n, -, rfl⟩ := List.mem_map.1 he
  exact ⟨rfl, rfl⟩

theorem allWhole_variables : AllWhole "variables" c.variableEntries := by
  intro e he
  obtain ⟨v, -, rfl⟩ := List.mem_map.1 he
  exact ⟨rfl, rfl⟩

theorem allWhole_constants : AllWhole "constants" c.constantEntries := by
  intro e he
  obtain ⟨k, -, rfl⟩ := List.mem_map.1 he
  exact ⟨rfl, rfl⟩

theorem type_variableEntries : (c.variableEntries.find? fun e => e.name = name).map Entry.type =
    (c.variableNamed? name).map fun v => v.value.type := by
  have hkept : ∀ v? : Option Variable, (v?.filter fun _ => true) = v? := fun v? => by cases v? <;> rfl
  have hfind := @find?_byName _ Variable.name name c.bindings fun _ => true
  rw [hkept] at hfind
  rw [variableEntries, List.find?_map, Option.map_map, variableNamed?, ← hfind]
  rfl

/-- The list of constants is kept apart, since the standard ones are many. -/
theorem type_visible (ks : List Constant) :
    ((((byName Constant.name ks).filter fun k => !k.hidden).map fun k =>
      (⟨k.name, .whole, "constants", k.value.type, none⟩ : Entry)).find? fun e => e.name = name).map Entry.type =
      ((lastNamed? Constant.name name ks).filter fun k => !k.hidden).map fun k => k.value.type := by
  rw [List.find?_map, Option.map_map, List.find?_filter, ← find?_byName]
  congr 2
  funext k
  simp

theorem type_constantEntries : (c.constantEntries.find? fun e => e.name = name).map Entry.type =
    ((c.constantNamed? name).filter fun k => !k.hidden).map fun k => k.value.type :=
  type_visible name _

/-- The type that listings give a name: that of the first entry for a value of the row, or else of a variable, or else of a
constant; a hidden constant has its own. -/
def listedType? : Option ValueType :=
  ((((firstNamed? (c.entries w) name Entry.isOfRow).or (firstNamed? (c.entries w) name (Entry.isOf "variables"))).or
    (firstNamed? (c.entries w) name (Entry.isOf "constants"))).map Entry.type).or
    (((c.constantNamed? name).filter Constant.hidden).map fun k => k.value.type)

variable {w} (hw : ∀ s ∈ w.sources, s.ListsColumns)

include hw

/-- In a group of names that stand for one value each there are no columns. -/
theorem firstNamed?_of_sources {group : String} (htable : group ≠ "table") (hadded : group ≠ "additional") :
    firstNamed? (w.sources.flatMap Source.entries) name (Entry.isOf group) = none := by
  refine firstNamed?_of_none fun e he => decide_eq_false ?_
  obtain ⟨s, hs, he⟩ := List.mem_flatMap.1 he
  rcases (hw s hs e he).2 with hgroup | hgroup
  · rw [hgroup]
    exact htable.symm
  · rw [hgroup]
    exact hadded.symm

theorem firstNamed?_ofRow : firstNamed? (c.entries w) name Entry.isOfRow =
    (w.sources.flatMap Source.entries).find? fun e => e.name = name := by
  have hcolumns : ∀ e ∈ w.sources.flatMap Source.entries, e.isOfRow = true := by
    intro e he
    obtain ⟨s, hs, he⟩ := List.mem_flatMap.1 he
    exact decide_eq_true (hw s hs e he).1
  simp only [entries_eq, firstNamed?_append, firstNamed?_of_all hcolumns, firstNamed?_of_whole (allWhole_macros w),
    firstNamed?_of_whole c.allWhole_variables, firstNamed?_of_whole c.allWhole_constants, Option.or_none]

theorem firstNamed?_macros : firstNamed? (c.entries w) name (Entry.isOf "macros") =
    (w.macros.flatMap MacroStore.entries).find? fun e => e.name = name := by
  simp only [entries_eq, firstNamed?_append, firstNamed?_of_sources name hw (by decide : "macros" ≠ "table") (by decide),
    firstNamed?_of_group (allWhole_macros w), firstNamed?_of_other c.allWhole_variables (by decide : "variables" ≠ "macros"),
    firstNamed?_of_other c.allWhole_constants (by decide : "constants" ≠ "macros"), Option.or_none, Option.none_or]

theorem firstNamed?_variables : firstNamed? (c.entries w) name (Entry.isOf "variables") =
    c.variableEntries.find? fun e => e.name = name := by
  simp only [entries_eq, firstNamed?_append, firstNamed?_of_sources name hw (by decide : "variables" ≠ "table") (by decide),
    firstNamed?_of_other (allWhole_macros w) (by decide : "macros" ≠ "variables"), firstNamed?_of_group c.allWhole_variables,
    firstNamed?_of_other c.allWhole_constants (by decide : "constants" ≠ "variables"), Option.or_none, Option.none_or]

theorem firstNamed?_constants : firstNamed? (c.entries w) name (Entry.isOf "constants") =
    c.constantEntries.find? fun e => e.name = name := by
  simp only [entries_eq, firstNamed?_append, firstNamed?_of_sources name hw (by decide : "constants" ≠ "table") (by decide),
    firstNamed?_of_other (allWhole_macros w) (by decide : "macros" ≠ "constants"),
    firstNamed?_of_other c.allWhole_variables (by decide : "variables" ≠ "constants"),
    firstNamed?_of_group c.allWhole_constants, Option.none_or]

/-! ### What names stand for -/

theorem type_column? : (w.column? name).map Prod.snd = (firstNamed? (c.entries w) name Entry.isOfRow).map Entry.type := by
  rw [c.firstNamed?_ofRow name hw, World.column?, map_sourceOf?]

/-- A name is looked up as a column, then as a variable and then as a constant. -/
theorem listedType?_eq : c.listedType? w name =
    (((w.column? name).map Prod.snd).or ((c.variableNamed? name).map fun v => v.value.type)).or
      ((c.constantNamed? name).map fun k => k.value.type) := by
  have hconstants : (((c.constantNamed? name).filter fun k => !k.hidden).map fun k => k.value.type).or
      (((c.constantNamed? name).filter Constant.hidden).map fun k => k.value.type) =
      (c.constantNamed? name).map fun k => k.value.type := by
    cases c.constantNamed? name with
    | none => rfl
    | some k => cases hk : k.hidden <;> simp [Option.filter, hk]
  rw [listedType?, Option.map_or, Option.map_or, ← c.type_column? name hw, c.firstNamed?_variables name hw,
    c.firstNamed?_constants name hw, type_variableEntries, type_constantEntries, Option.or_assoc, hconstants]

/-- A name that is listed, or that of a hidden constant, is resolved to a node of its type, and no other name is. -/
theorem nameNode_type : ((c.nameNode name).exec w).1.map Node.type =
    match c.listedType? w name with
    | some t => .ok t
    | none => .error (.fault (.unknownName name)) := by
  rw [c.listedType?_eq name hw, nameNode, Run.exec_bind]
  show Except.map Node.type (Run.exec _ w).1 = _
  cases hcolumn : w.column? name with
  | some p => rfl
  | none =>
    cases hvariable : c.variableNamed? name with
    | some v => cases hconst : v.isConstant <;> simp [hconst, Except.map, Node.type]
    | none => cases hconstant : c.constantNamed? name <;> simp [Except.map, Node.type]

/-- The text of a macro is that of the first store that has it set, if it is listed at all. -/
theorem scope?_eq : w.scope? name =
    (firstNamed? (c.entries w) name (Entry.isOf "macros")).map fun _ => w.macros.findSome? fun m => m.get? name := by
  have hlisted : (∃ m ∈ w.macros, m.knows name = true) ↔
      (firstNamed? (c.entries w) name (Entry.isOf "macros")).isSome = true := by
    rw [c.firstNamed?_macros name hw]
    simp only [List.find?_isSome, List.mem_flatMap, decide_eq_true_eq, MacroStore.knows_iff]
    exact ⟨fun ⟨m, hm, e, he, hname⟩ => ⟨e, ⟨m, hm, he⟩, hname⟩, fun ⟨e, ⟨m, hm, he⟩, hname⟩ => ⟨m, hm, e, he, hname⟩⟩
  rw [World.scope?, scopeText_eq]
  simp only [hlisted]
  cases firstNamed? (c.entries w) name (Entry.isOf "macros") <;> simp

omit hw

/-- Over tables and schemas, after any sequence of columns added and macros set and erased, listings and names agree.  The type
of a column is that of the first entry for a value of the row.  A name is resolved just if it is listed or that of a hidden
constant, to a node of the type that it has there.  A macro has a text just if it is listed, and this is the one of the first
store that has it set. -/
theorem listings_agree {w₀ : World} (hnew : ∀ s ∈ w₀.sources, s.New) (hupdated : w₀.Updated w) :
    (w.column? name).map Prod.snd = (firstNamed? (c.entries w) name Entry.isOfRow).map Entry.type ∧
    (((c.nameNode name).exec w).1.map Node.type =
      match c.listedType? w name with
      | some t => .ok t
      | none => .error (.fault (.unknownName name))) ∧
    w.scope? name =
      (firstNamed? (c.entries w) name (Entry.isOf "macros")).map fun _ => w.macros.findSome? fun m => m.get? name := by
  have hw : ∀ s ∈ w.sources, s.ListsColumns := hupdated.listsColumns hnew
  exact ⟨c.type_column? name hw, c.nameNode_type name hw, c.scope?_eq name hw⟩

/-- A column is listed with the type of the one that has taken its place, and a macro that was erased without a text. -/
theorem listings_agree_after_updates :
    let t : Table := ⟨[⟨"a", .text #[some "x"], none⟩], 1⟩
    let w₀ : World := { sources := [.ofTypes [("b", .integer)], .table (.after t [])], macros := [{ predefined := ["m"] }] }
    let w₁ : World := { w₀ with sources := w₀.sources.set 1 (.table ((TableSource.after t []).add ⟨"a", .boolean #[], none⟩)) }
    let w₂ : World := { w₁ with macros := w₁.macros.set 0 (MacroStore.set { predefined := ["m"] } "m" "x") }
    let w : World := { w₂ with macros := w₂.macros.set 0 ((MacroStore.set { predefined := ["m"] } "m" "x").erase "m") }
    w₀.Updated w ∧ ((({} : Context).nameNode "a").exec w).1.map Node.type = .ok .boolean ∧ w.scope? "m" = some none := by
  intro t w₀ w₁ w₂ w
  have hupdated : w₀.Updated w :=
    ((Relation.ReflTransGen.single (.added ⟨"a", .boolean #[], none⟩ rfl)).tail (.set "m" "x" rfl)).tail (.erased "m" rfl)
  have hnew : ∀ s ∈ w₀.sources, s.New := by
    simpa [w₀] using ⟨Source.New.ofTypes [("b", .integer)], Source.New.table t⟩
  refine ⟨hupdated, (listings_agree {} "a" hnew hupdated).2.1.trans ?_, (listings_agree {} "m" hnew hupdated).2.2.trans ?_⟩
  · have htype : ({} : Context).listedType? w "a" = some .boolean := by decide +kernel
    rw [htype]
  · decide +kernel

end Context

end Rowwise
