import Rowwise.Proofs.Typing.Soundness

/-!
# Rowwise.Proofs.Typing.Integrality — expressions of whole numbers

Columns, variables and constants of the type of whole numbers are meant to hold whole numbers, infinities and missing numbers.
Where they do, expressions of this type yield nothing else, in any row and through texts and macros
(`Context.evaluation_whole`).  There is one gap: rounding a whole number to digits goes through a power of ten and back, and
the result need not be whole (`Context.evaluation_fractional`).  So what happens on the way has to be exact (`Event.Exact`).
-/

namespace Rowwise

open Run

/-! ### Whole numbers at hand -/

/-- The cells of the type of whole numbers have no fractions. -/
def Cells.HoldWhole : Cells → Prop
  | integer xs => ∀ x ∈ xs, Double.IsIntegral x
  | _ => True

instance : DecidablePred Cells.HoldWhole := fun c => by
  cases c <;> unfold Cells.HoldWhole <;> infer_instance

/-- So it is with the columns that names stand for. -/
def Source.HoldsWhole : Source → Prop
  | table s => ∀ name c, s.column? name = some c → c.cells.HoldWhole
  | schema _ => True

/-- So it is with the columns of all sources. -/
def World.HoldsWhole (w : World) : Prop := ∀ s ∈ w.sources, s.HoldsWhole

/-- The variables and constants of the host that are of the type of whole numbers have no fractions. -/
structure Context.HoldsWhole (c : Context) : Prop where
  bindings : ∀ b ∈ c.bindings, b.value.IsWhole
  constants : ∀ k ∈ c.constants, k.value.IsWhole

theorem Cells.HoldWhole.get {c : Cells} (h : c.HoldWhole) (row : Nat) : (c.get row).IsWhole := by
  cases c with
  | integer xs =>
    show Double.IsIntegral (xs[row]?.getD Double.nan)
    cases hx : xs[row]? with
    | none => exact Double.isIntegral_nan
    | some x => exact h x (Array.mem_of_getElem? hx)
  | _ => trivial

namespace Source

/-- It suffices that all columns are so. -/
theorem holdsWhole_of_columns {s : TableSource} (h : ∀ c ∈ s.added ++ s.table.columns, c.cells.HoldWhole) :
    (table s).HoldsWhole := by
  intro name c hc
  rw [List.forall_mem_append] at h
  rcases Option.or_eq_some_iff.1 hc with hadded | ⟨-, htable⟩
  · exact h.1 c (List.mem_of_find?_eq_some hadded)
  · exact h.2 c (List.mem_of_find?_eq_some htable)

theorem holdsWhole_shape (s : Source) : s.shape.HoldsWhole ↔ s.HoldsWhole := by cases s <;> rfl

/-- What is read of a column as what it is made of is a value of its type. -/
theorem HoldsWhole.isOf_read {s : Source} (h : s.HoldsWhole) {name : String} {t : ValueType} (ht : s.type? name = some t)
    {row : Nat} {v : Value} (hv : (s.read name t.storage row).1 = .ok v) : v.IsOf True t := by
  cases s with
  | schema columns => cases hv
  | table s =>
    obtain ⟨c, hc, rfl⟩ := Option.map_eq_some_iff.1 ht
    simp only [read, TableSource.read_eq, hc, if_pos] at hv
    cases hv
    exact ⟨by simp [Column.type], fun _ => (h name c hc).get row⟩

end Source

namespace World

variable {u w : World}

theorem SameColumns.holdsWhole (h : u.SameColumns w) (hu : u.HoldsWhole) : w.HoldsWhole := by
  intro s hs
  obtain ⟨k, hk⟩ := List.mem_iff_getElem?.1 hs
  obtain ⟨s', hs', hshape⟩ := h.symm.getElem? hk
  rw [← Source.holdsWhole_shape, ← hshape, Source.holdsWhole_shape]
  exact hu s' (List.mem_iff_getElem?.2 ⟨k, hs'⟩)

theorem HoldsWhole.isOf_cell (h : w.HoldsWhole) {k : Nat} {name : String} {t : ValueType} (hc : w.HasColumn k name t)
    {v : Value} (hv : w.cell k name t.storage = .ok v) : v.IsOf True t := by
  obtain ⟨s, hs, ht⟩ := hc
  simp only [cell, hs] at hv
  exact (h s (List.mem_iff_getElem?.2 ⟨k, hs⟩)).isOf_read ht hv

end World

theorem Context.HoldsWhole.offers {c : Context} (h : c.HoldsWhole) {v : Value} (hv : c.Offers v) : v.IsWhole := by
  rcases hv with hv | ⟨b, hb, rfl⟩ | ⟨k, hk, rfl⟩
  · exact hv
  · exact h.bindings b hb
  · exact h.constants k hk

/-! ### Exact runs -/

/-- If the columns are those of `u` and all that happens is exact, the columns stay and a result has the property. -/
def Run.Exactly (u : World) {α : Type} (x : Run α) (Q : α → Prop) : Prop :=
  ∀ w, u.SameColumns w → w.Only Event.Exact (x.exec w).2 →
    u.SameColumns (x.exec w).2 ∧ ∀ a, (x.exec w).1 = .ok a → Q a

namespace Run.Exactly

variable {α β : Type} {u : World} {x : Run α} {f : α → Run β} {P Q : α → Prop} {R : β → Prop}

/-- What holds of a run in any case. -/
theorem of_meets (h : Meets (.columns u true) x Q) : Exactly u x Q := by
  intro w hw _
  obtain ⟨hholds, -, houtcome⟩ := h w hw
  refine ⟨hholds, fun a ha => ?_⟩
  rw [ha] at houtcome
  exact houtcome

theorem note {e : Event} {Q : Unit → Prop} (h : e.Exact → Q ()) : Exactly u (Run.note e) Q :=
  fun _ hw hexact => ⟨hw, fun _ _ => h (hexact.event rfl)⟩

theorem bind (hx : Exactly u x P) (hf : ∀ a, P a → Exactly u (f a) R) : Exactly u (x >>= f) R := by
  intro w hw hexact
  rw [exec_bind] at hexact ⊢
  have hgrows := x.grows w
  rcases hr : x.exec w with ⟨halt | a, v⟩
  · rw [hr] at hexact
    have hends := hx w hw (by rwa [hr])
    rw [hr] at hends
    exact ⟨hends.1, nofun⟩
  · rw [hr] at hexact hgrows
    obtain ⟨hfirst, hrest⟩ := hexact.split hgrows ((f a).grows v)
    obtain ⟨hsame, hresult⟩ := hx w hw (by rwa [hr])
    rw [hr] at hsame hresult
    exact hf a (hresult a rfl) v hsame hrest

theorem mono (hx : Exactly u x P) (h : ∀ a, P a → Q a) : Exactly u x Q := fun w hw hexact =>
  ⟨(hx w hw hexact).1, fun a ha => h a ((hx w hw hexact).2 a ha)⟩

theorem nested (function : String) (hx : Exactly u x Q) : Exactly u (Run.nested function x) Q := by
  intro w hw hexact
  rw [exec_nested] at hexact ⊢
  obtain ⟨hsame, hresult⟩ := hx w hw hexact
  refine ⟨hsame, fun a ha => hresult a ?_⟩
  cases hr : (x.exec w).1 with
  | error halt =>
    rw [hr] at ha
    cases ha
  | ok b =>
    rw [hr] at ha
    exact ha

theorem inText (hx : Exactly u x Q) : Exactly u (Run.inText x) Q := by
  intro w hw hexact
  rw [exec_inText] at hexact ⊢
  exact hx w.opening hw (hexact.inside (x.grows w.opening))

theorem readColumn (hu : u.HoldsWhole) {source : Nat} {name : String} {t : ValueType} (hc : u.HasColumn source name t) :
    Exactly u (Run.readColumn source name t.storage) (Value.IsOf True t) := by
  intro w hw _
  rw [exec_readColumn]
  refine ⟨hw.trans (sameColumns_afterRead source name t.storage w), fun v hv => ?_⟩
  cases hcell : w.cell source name t.storage with
  | error d =>
    rw [hcell] at hv
    cases hv
  | ok v' =>
    rw [hcell] at hv
    cases hv
    exact (hw.holdsWhole hu).isOf_cell (hw.hasColumn hc) hcell

/-- A column that is found by its name in the row is one of those. -/
theorem columnValue (hu : u.HoldsWhole) (c : Context) (target : ValueType) (name : String) :
    Exactly u (columnValue c target name) (Value.IsOf True target) := by
  refine bind (of_meets (Meets.world (Q := u.SameColumns) fun _ hw => hw)) fun w hw => ?_
  cases hcol : w.column? name with
  | none => exact of_meets (Meets.fail rfl)
  | some p =>
    refine bind (readColumn hu (hw.symm.hasColumn (World.hasColumn_of_column? hcol))) fun v hv => ?_
    exact of_meets (Meets.typed (fun _ hcast => hv.cast hcast) fun _ _ => rfl)

theorem relates : Run.Relates fun x _ Q => Exactly u x Q where
  pure h := of_meets (Meets.pure h)
  fail hf := of_meets (Meets.fail (Fault.isDefect_of_ordinary hf))
  bind := bind
  mono := mono
  within function hx := nested function hx
  scope? _ := of_meets Meets.scope?
  newStream _ := of_meets (Meets.newStream (Contract.usual_columns u true))

/-- Runs of nodes keep whole numbers whole. -/
theorem types {c : Context} (hc : c.HoldsWhole) (hu : u.HoldsWhole) :
    Run.Types c (fun x Q => Exactly u x Q) True u.HasColumn False where
  relates := relates
  poll := of_meets (Meets.poll (Contract.usual_columns u true) trivial)
  inText := inText
  offers hv _ := hc.offers hv
  supplied := note fun _ => trivial
  applied _ _ := note fun hexact _ => hexact
  time := of_meets (currentTime_meets (Contract.usual_columns u true))
  random stream := of_meets (nextRandom_meets (Contract.usual_columns u true) stream)
  column hcol := (readColumn hu hcol).mono fun _ hv =>
    ⟨Value.type_retag (congrArg ValueType.storage hv.type), fun hwhole => Value.isWhole_retag (hv.isWhole hwhole) hv.type⟩
  columnOf? _ := of_meets (Meets.columnOf? fun _ source type hw hcol =>
    ⟨source, type, rfl, (World.SameColumns.symm hw).hasColumn (World.hasColumn_of_column? hcol)⟩)
  columnValue := columnValue hu c
  host hhosts := hhosts.elim
  built _ _ := bind (P := fun _ => False) (note id) fun _ hfalse => hfalse.elim

end Run.Exactly

/-! ### Expressions of whole numbers -/

theorem World.Only.of_isExact {w w' : World} (hw : w.events = []) (h : w'.events.all Event.isExact = true) :
    w.Only Event.Exact w' :=
  ⟨w'.events, by rw [hw, List.append_nil], fun e he => Event.exact_of_isExact (List.all_eq_true.1 h e he)⟩

namespace Context

variable {c : Context} {u w : World}

/-- The nodes that a host can have over these columns, as `Obtained`, if all that happens in parsing and building is exact. -/
inductive ObtainedExactly (c : Context) (u : World) : Node → Prop where
  | parsed {w : World} {text : String} {e : Expression} : u.SameColumns w → w.Only Event.Exact ((c.parse text).exec w).2 →
      ((c.parse text).exec w).1 = .ok e → ObtainedExactly c u e.root
  | called {w : World} {name : String} {args : List Node} {e : Expression} : u.SameColumns w →
      w.Only Event.Exact ((c.call name args).exec w).2 → (∀ n ∈ args, ObtainedExactly c u n) →
        ((c.call name args).exec w).1 = .ok e → ObtainedExactly c u e.root

theorem ObtainedExactly.sound (hc : c.HoldsWhole) (hu : u.HoldsWhole) {n : Node} (h : c.ObtainedExactly u n) :
    n.Sound True u.HasColumn False := by
  induction h with
  | @parsed w text e hsame hexact hparse =>
    exact (parse_sound (Exactly.types hc hu) text w hsame hexact).2 e hparse
  | @called w name args e hsame hexact _ hcall ih =>
    exact (call_sound (Exactly.types hc hu) name ih w hsame hexact).2 e hcall

/-- An expression of the type of whole numbers yields a whole number, an infinity or the missing number, in whatever row and
with whatever macros, if columns, variables and constants of this type hold nothing else and all that happens is exact. -/
theorem evaluation_whole (hc : c.HoldsWhole) (hu : u.HoldsWhole) {n : Node} (hn : c.ObtainedExactly u n)
    (htype : n.type = .integer) (hw : u.SameColumns w) {fuel : Nat} {v : Value}
    (hexact : w.Only Event.Exact ((c.evaluateWithin fuel n).exec w).2) (hv : ((c.evaluateWithin fuel n).exec w).1 = .ok v) :
    ∃ x, v = .integer x ∧ Double.IsIntegral x := by
  have hruns : Exactly u (c.evaluateWithin fuel n) (Value.IsOf True n.type) :=
    evaluateWithin_isOf (Exactly.types hc hu) (fun _ => Exactly.of_meets (Meets.throw rfl)) fuel (hn.sound hc hu)
  obtain ⟨hinteger, hwhole⟩ := (hruns w hw hexact).2 v hv
  rw [htype] at hinteger
  cases v with
  | integer x => exact ⟨x, rfl, hwhole trivial⟩
  | _ => cases hinteger

theorem evaluation_whole_of_column :
    let column : Column := { name := "n", cells := .integer #[1234, -7, Double.infinity true] }
    let w : World := { sources := [.table { table := ⟨[column], 3⟩ }] }
    ∃ e, ((({} : Context).parse "round(n, -2) + floor(n / 7) * 2").exec w).1 = .ok e ∧ e.type = .integer ∧
      ∀ row ∈ [0, 1, 2], ∃ x, ((({} : Context).evaluateWithin 1 e.root).exec { w with row := row }).1 = .ok (.integer x) ∧
        Double.IsIntegral x := by
  intro column w
  obtain ⟨e, he, hp⟩ := exists_ok (r := ((({} : Context).parse "round(n, -2) + floor(n / 7) * 2").exec w).1)
    (p := fun e => decide (e.type = .integer) && [0, 1, 2].all fun row =>
      ((({} : Context).evaluateWithin 1 e.root).exec { w with row := row }).1.toOption.isSome &&
        ((({} : Context).evaluateWithin 1 e.root).exec { w with row := row }).2.events.all Event.isExact) (by decide +kernel)
  have hparse : ((({} : Context).parse "round(n, -2) + floor(n / 7) * 2").exec w).2.events.all Event.isExact = true := by
    decide +kernel
  have hw : w.HoldsWhole := by
    intro s hs
    rw [List.mem_singleton.1 hs]
    exact Source.holdsWhole_of_columns (by decide +kernel)
  have hn : ({} : Context).ObtainedExactly w e.root :=
    .parsed (World.SameColumns.refl w) (World.Only.of_isExact rfl hparse) he
  obtain ⟨htype, hrows⟩ := Bool.and_eq_true_iff.1 hp
  refine ⟨e, he, of_decide_eq_true htype, fun row hrow => ?_⟩
  obtain ⟨hvalue, hevents⟩ := Bool.and_eq_true_iff.1 (List.all_eq_true.1 hrows row hrow)
  cases hv : ((({} : Context).evaluateWithin 1 e.root).exec { w with row := row }).1 with
  | error halt =>
    rw [hv] at hvalue
    cases hvalue
  | ok v =>
    obtain ⟨x, rfl, hx⟩ := evaluation_whole ⟨by simp, by simp⟩ hw hn (of_decide_eq_true htype)
      (show w.SameColumns { w with row := row } from rfl) (World.Only.of_isExact rfl hevents) hv
    exact ⟨x, rfl, hx⟩

/-- A hundred thousand is no whole number any more when it has been rounded to hundred thousands: the power of ten that it is
divided by in the end is not exact. -/
theorem evaluation_fractional : ∃ e x, ((({} : Context).parse "round(100000, -5)").exec {}).1 = .ok e ∧ e.type = .integer ∧
    ((({} : Context).evaluateWithin 0 e.root).exec {}).1 = .ok (.integer x) ∧ ¬ Double.IsIntegral x := by
  obtain ⟨e, he, hp⟩ := exists_ok (r := ((({} : Context).parse "round(100000, -5)").exec {}).1)
    (p := fun e => decide (e.type = .integer) &&
      ((({} : Context).evaluateWithin 0 e.root).exec {}).1.toOption.any fun v : Value => !decide v.IsWhole) (by decide +kernel)
  obtain ⟨htype, hvalue⟩ := Bool.and_eq_true_iff.1 hp
  obtain ⟨v, hv, hfraction⟩ := exists_ok hvalue
  have hfraction : ¬ v.IsWhole := by simpa using hfraction
  cases v with
  | integer x => exact ⟨e, x, he, of_decide_eq_true htype, hv, hfraction⟩
  | _ => exact absurd trivial hfraction

end Context

end Rowwise
