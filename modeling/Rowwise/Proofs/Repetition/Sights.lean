import Rowwise.Proofs.Constancy.Results
import Rowwise.Proofs.Evaluation.Carrying

/-!
# Rowwise.Proofs.Repetition.Sights — what a run depends on

What a run yields depends on what it looks at: the types of columns, and as far as a sight lets it (`Sight`) the cells of the
current row and the macros.  In two worlds that are the same in that sight (`World.SameFor`) a run under a calm host ends with
the same outcome, unless it draws random numbers or looks at the time (`Run.Repeats`).  All else that a world holds, its
readers, its random streams, its clock and what has happened, leaves no trace in an outcome.
-/

namespace Rowwise

/-! ### Chance -/

/-- True for the events after which a run cannot be repeated: a random number is drawn, or the time is looked at. -/
def Event.isChance : Event → Bool
  | drawn | timed => true
  | _ => false

namespace World

/-- From the first world to the second nothing was left to chance. -/
def ChanceFree (w w' : World) : Prop := ∃ es, w'.events = es ++ w.events ∧ ∀ e ∈ es, e.isChance = false

variable {u w w' : World}

theorem ChanceFree.split (h : u.ChanceFree w') (hfirst : u.Grows w) (hrest : w.Grows w') :
    u.ChanceFree w ∧ w.ChanceFree w' :=
  Only.split h hfirst hrest

theorem ChanceFree.inside (h : w.ChanceFree w'.closing) (hgrows : w.opening.Grows w') : w.opening.ChanceFree w' :=
  Only.inside h hgrows

end World

/-! ### Sights -/

/-- What a run may look at, besides the types of columns. -/
structure Sight where
  /-- The cells of the current row, and its number. -/
  cells : Prop
  macros : Prop

/-- In this sight the worlds are the same, and the job is cancelled in none of them. -/
structure World.SameFor (σ : Sight) (w w' : World) : Prop where
  uncancelled : w.cancelled = false ∧ w'.cancelled = false
  column? (name : String) : w'.column? name = w.column? name
  cells : σ.cells → w.SameColumns w' ∧ w'.row = w.row
  macros : σ.macros → w'.macros = w.macros

namespace World.SameFor

variable {σ : Sight} {w w' v v' : World}

/-- What worlds agree in is all that a sight can hold. -/
theorem of_agrees (h : w.SameFor σ w') (hv : w.Agrees v) (hv' : w'.Agrees v') : v.SameFor σ v' where
  uncancelled := ⟨hv.cancelled.trans h.uncancelled.1, hv'.cancelled.trans h.uncancelled.2⟩
  column? name := (hv'.column?_eq name).trans ((h.column? name).trans (hv.column?_eq name).symm)
  cells hcells :=
    ⟨(hv.columns.symm.trans (h.cells hcells).1).trans hv'.columns, (hv'.row.trans (h.cells hcells).2).trans hv.row.symm⟩
  macros hmacros := (hv'.macros.trans (h.macros hmacros)).trans hv.macros.symm

theorem scope?_eq (h : w.SameFor σ w') (hmacros : σ.macros) (name : String) : w'.scope? name = w.scope? name := by
  unfold World.scope?
  rw [h.macros hmacros]

end World.SameFor

namespace Node

/-- True for the nodes that look at the current row. -/
def looksAtRow : Node → Bool
  | column _ _ _ | columnNamed _ _ | evalText _ _ => true
  | host f _ =>
    match f.action with
    | .row _ => true
    | _ => false
  | _ => false

/-- True for the nodes that look at macros when they are evaluated: those that look one up by a name found in the row, and
texts of a row. -/
def looksAtMacros : Node → Bool
  | macroNamed _ | macroOr _ _ | evalText _ _ => true
  | _ => false

theorem looksAtMacros_of_looksUpMacro {n : Node} (h : n.looksUpMacro = true) : n.looksAtMacros = true := by
  cases n <;> first | rfl | cases h

end Node

/-- The sight lets the node look at what it looks at. -/
structure Sight.Permits (σ : Sight) (n : Node) : Prop where
  cells : n.looksAtRow = true → σ.cells
  macros : n.looksAtMacros = true → σ.macros

/-! ### Runs that repeat one another -/

/-- Runs that undo nothing that has happened. -/
def Contract.growing : Contract where
  holds _ := True
  moves := World.Grows
  allows _ := True
  moves_refl _ := List.suffix_refl _
  moves_trans := List.IsSuffix.trans

theorem Contract.plain_growing : Contract.growing.Plain where
  poll _ _ _ _ := ⟨trivial, List.suffix_cons _ _⟩
  note _ _ _ := ⟨trivial, List.suffix_cons _ _⟩
  streams _ _ _ := ⟨trivial, List.suffix_refl _⟩
  reads source name storage w _ := ⟨trivial, by
    rw [show Contract.growing.moves = World.Grows from rfl, World.Grows, Run.events_afterRead]
    exact List.suffix_cons _ _⟩
  fault _ := trivial

namespace Run

/-- Two runs have ended with one outcome, in worlds that are the same in this sight. -/
structure EndSame (σ : Sight) {α : Type} (r r' : Except Halt α × World) : Prop where
  outcome : r'.1 = r.1
  worlds : r.2.SameFor σ r'.2

/-- The second run repeats the first one, if that leaves nothing to chance. -/
structure Repeats (σ : Sight) {α : Type} (x y : Run α) (Q : α → Prop) : Prop where
  meets : Meets .growing x Q
  ends {w w' : World} : w.SameFor σ w' → w.ChanceFree (x.exec w).2 → EndSame σ (x.exec w) (y.exec w')

namespace Repeats

variable {σ : Sight} {α β : Type} {x y : Run α} {f g : α → Run β} {P Q : α → Prop} {R : β → Prop}

theorem grows (h : Repeats σ x y Q) (w : World) : w.Grows (x.exec w).2 := (h.meets w trivial).2.1

/-- Runs that leave alone what worlds agree in repeat each other if their outcomes are the same. -/
theorem of_agrees (hmeets : Meets .growing x Q) (hx : ∀ w : World, w.Agrees (x.exec w).2)
    (hy : ∀ w : World, w.Agrees (y.exec w).2) (h : ∀ w w' : World, w.SameFor σ w' → (y.exec w').1 = (x.exec w).1) :
    Repeats σ x y Q :=
  ⟨hmeets, fun {w w'} hw _ => ⟨h w w' hw, hw.of_agrees (hx w) (hy w')⟩⟩

/-- A run that leaves something to chance has no repetition. -/
theorem of_chance {e : Event} (he : e.isChance = true) (hmeets : Meets .growing x Q)
    (hx : ∀ w, (x.exec w).2.events = e :: w.events) : Repeats σ x y Q := by
  refine ⟨hmeets, fun {w w'} _ hfree => ?_⟩
  obtain ⟨es, hes, hfree⟩ := hfree
  rw [hx w] at hes
  obtain rfl : [e] = es := List.append_cancel_right (by simpa using hes)
  rw [hfree e List.mem_cons_self] at he
  cases he

theorem pure {a : α} (h : Q a) : Repeats σ (Pure.pure a) (Pure.pure a) Q :=
  of_agrees (.pure h) .refl .refl fun _ _ _ => rfl

theorem throw {h : Halt} : Repeats σ (throw h : Run α) (throw h) Q :=
  of_agrees (.throw trivial) .refl .refl fun _ _ _ => rfl

theorem fail {f : Fault} : Repeats σ (Run.fail f : Run α) (Run.fail f) Q := throw

/-- The second parts begin in worlds that are the same again, and are free of chance as well. -/
theorem bind (hx : Repeats σ x y P) (hf : ∀ a, P a → Repeats σ (f a) (g a) R) : Repeats σ (x >>= f) (y >>= g) R := by
  refine ⟨hx.meets.bind fun a ha => (hf a ha).meets, fun {w w'} hw hfree => ?_⟩
  have hends := @hx.ends w w' hw
  obtain ⟨-, hgrows, hresult⟩ := hx.meets w trivial
  rw [exec_bind] at hfree
  rw [exec_bind, exec_bind]
  rcases hrx : exec x w with ⟨h | a, v⟩
  · rw [hrx] at hends hfree
    obtain ⟨houtcome, hworlds⟩ := hends hfree
    rcases hry : exec y w' with ⟨h' | b, v'⟩
    · rw [hry] at houtcome hworlds
      cases houtcome
      exact ⟨rfl, hworlds⟩
    · rw [hry] at houtcome
      cases houtcome
  · rw [hrx] at hends hfree hgrows hresult
    have hrest := hf a hresult
    obtain ⟨hfirst, hlast⟩ := hfree.split hgrows (hrest.grows v)
    obtain ⟨houtcome, hworlds⟩ := hends hfirst
    rcases hry : exec y w' with ⟨h' | b, v'⟩
    · rw [hry] at houtcome
      cases houtcome
    · rw [hry] at houtcome hworlds
      cases houtcome
      exact hrest.ends hworlds hlast

theorem mono (hx : Repeats σ x y P) (h : ∀ a, P a → Q a) : Repeats σ x y Q := ⟨hx.meets.mono h, hx.ends⟩

theorem nested (hx : Repeats σ x y Q) (function : String) :
    Repeats σ (Run.nested function x) (Run.nested function y) Q := by
  refine ⟨hx.meets.nested Contract.plain_growing.usual, fun {w w'} hw hfree => ?_⟩
  rw [exec_nested] at hfree
  obtain ⟨houtcome, hworlds⟩ := hx.ends hw hfree
  rw [exec_nested, exec_nested]
  exact ⟨congrArg (Except.mapError _) houtcome, hworlds⟩

theorem inText (hx : Repeats σ x y Q) : Repeats σ (Run.inText x) (Run.inText y) Q := by
  refine ⟨hx.meets.inText ?_ ?_, fun {w w'} hw hfree => ?_⟩
  · exact fun _ _ => ⟨trivial, List.suffix_cons _ _⟩
  · exact fun _ _ => ⟨trivial, List.suffix_cons _ _⟩
  rw [exec_inText] at hfree
  have hopening : w.opening.SameFor σ w'.opening :=
    hw.of_agrees ⟨rfl, rfl, rfl, rfl, rfl⟩ ⟨rfl, rfl, rfl, rfl, rfl⟩
  obtain ⟨houtcome, hworlds⟩ := hx.ends hopening (hfree.inside (hx.grows _))
  rw [exec_inText, exec_inText]
  exact ⟨houtcome, hworlds.of_agrees ⟨rfl, rfl, rfl, rfl, rfl⟩ ⟨rfl, rfl, rfl, rfl, rfl⟩⟩

/-- What is looked up comes to the same in both worlds. -/
theorem look {f : World → Run α} (hview : ∀ w w' : World, w.SameFor σ w' → f w' = f w) (hf : ∀ w, Repeats σ (f w) (f w) Q) :
    Repeats σ (world >>= f) (world >>= f) Q := by
  refine ⟨.bind (.world (Q := fun _ => True) fun _ _ => trivial) fun w _ => (hf w).meets, fun {w w'} hw hfree => ?_⟩
  have hrun : exec (world >>= f) w' = exec (f w) w' := by rw [exec_bind, exec_world, ← hview w w' hw]
  rw [hrun]
  exact (hf w).ends hw hfree

theorem note (e : Event) : Repeats σ (Run.note e) (Run.note e) fun _ => True :=
  of_agrees (.note (fun _ _ => ⟨trivial, List.suffix_cons _ _⟩) trivial) (fun _ => ⟨rfl, rfl, rfl, rfl, rfl⟩)
    (fun _ => ⟨rfl, rfl, rfl, rfl, rfl⟩) fun _ _ _ => rfl

theorem poll {c : Context} (hc : c.Calm) : Repeats σ c.poll c.poll fun _ => True := by
  refine ⟨.poll Contract.plain_growing.usual trivial, fun {w w'} hw _ => ?_⟩
  obtain ⟨polls, events, hexec⟩ := exec_poll_calm hc hw.uncancelled.1
  obtain ⟨polls', events', hexec'⟩ := exec_poll_calm hc hw.uncancelled.2
  rw [hexec, hexec']
  exact ⟨rfl, hw.of_agrees ⟨rfl, rfl, rfl, rfl, rfl⟩ ⟨rfl, rfl, rfl, rfl, rfl⟩⟩

theorem nextRandom (stream : Nat) : Repeats σ (nextRandom stream) (nextRandom stream) fun _ => True :=
  of_chance (e := .drawn) rfl ((nextRandom_meets Contract.plain_growing.usual stream).mono fun _ _ => trivial) fun _ => rfl

theorem newStream (seed : Nat) : Repeats σ (Node.newStream seed) (Node.newStream seed) fun _ => True :=
  of_chance (e := .drawn) rfl (.newStream Contract.plain_growing.usual) fun _ => rfl

theorem currentTime : Repeats σ currentTime currentTime fun _ => True :=
  of_chance (e := .timed) rfl (currentTime_meets Contract.plain_growing.usual) fun _ => rfl

theorem columnOf? (name : String) : Repeats σ (Node.columnOf? name) (Node.columnOf? name) fun _ => True :=
  look (fun w w' hw => by rw [hw.column? name]) fun _ => pure trivial

/-! ### What a sight lets a run look at -/

theorem scope? (hmacros : σ.macros) (name : String) : Repeats σ (Run.scope? name) (Run.scope? name) fun _ => True :=
  look (fun w w' hw => by rw [hw.scope?_eq hmacros name]) fun _ => pure trivial

theorem currentRow (hcells : σ.cells) : Repeats σ currentRow currentRow fun _ => True :=
  look (fun w w' hw => by rw [(hw.cells hcells).2]) fun _ => pure trivial

theorem readColumn (hcells : σ.cells) (source : Nat) (name : String) (storage : Storage) :
    Repeats σ (Run.readColumn source name storage) (Run.readColumn source name storage) fun _ => True := by
  have hagrees : ∀ w : World, w.Agrees ((Run.readColumn source name storage).exec w).2 := by
    intro w
    rw [exec_readColumn]
    exact w.agrees_afterRead source name storage
  refine of_agrees (.readColumn_plain Contract.plain_growing _ _ _) hagrees hagrees fun w w' hw => ?_
  obtain ⟨hcolumns, hrow⟩ := hw.cells hcells
  rw [exec_readColumn, exec_readColumn, hcolumns.cell_eq hrow.symm]

theorem typed (function : String) (r : Except TypeCause α) :
    Repeats σ (Run.typed function r) (Run.typed function r) fun _ => True := by
  cases r with
  | ok a => exact pure trivial
  | error cause => exact fail

theorem columnValue (hcells : σ.cells) {c : Context} (target : ValueType) (name : String) :
    Repeats σ (columnValue c target name) (columnValue c target name) fun _ => True := by
  refine look (fun w w' hw => by rw [hw.column? name]) fun w => ?_
  split
  · exact fail
  · exact (readColumn hcells _ _ _).bind fun v _ => typed _ _

/-! ### Reading and evaluating -/

section Program

variable {c : Context} (hcalm : c.Calm)

include hcalm

theorem evaluates : c.Evaluates σ.Permits fun _ {_} x y => Repeats σ x y fun _ => True where
  pure _ := pure trivial
  fail _ := fail
  bind hx hf := hx.bind fun a _ => hf a
  poll := poll hcalm
  step _ := note _
  supplied _ := note _
  random _ := nextRandom _
  time _ := currentTime
  row h hrow := currentRow (h.cells (by simp [Node.looksAtRow, hrow]))
  scope? name h hlooks := scope? (h.macros (Node.looksAtMacros_of_looksUpMacro hlooks)) name
  column h := readColumn (h.cells rfl) _ _ _
  columnValue name h := columnValue (h.cells rfl) _ name
  inText := inText
  evalText hx := hx.inText.nested _
  mono hx _ := hx

/-- Texts are read with macros in sight. -/
theorem carries (hmacros : σ.macros) : c.Carries σ.Permits (Repeats σ) where
  pure := pure
  fail _ := fail
  bind := bind
  mono := mono
  within function hx := hx.nested function
  scope? := scope? hmacros
  newStream := newStream
  evaluates := evaluates hcalm
  columnOf? := columnOf?
  built _ _ := note _
  exhausted := throw

/-- Texts of a row are read and evaluated with everything in sight. -/
theorem rowText_repeats (hcells : σ.cells) (hmacros : σ.macros) (fuel : Nat) (target : ValueType) (s : String) :
    Repeats σ (c.rowText fuel target s) (c.rowText fuel target s) fun _ => True :=
  (carries hcalm hmacros).rowText_related (fun _ => ⟨fun _ => hcells, fun _ => hmacros⟩) fuel target s

/-- Nodes are evaluated with the cells in sight, and with the macros if any part of the node looks at them. -/
theorem evaluateWithin_repeats (hcells : σ.cells) {n : Node} (hmacros : ∀ m ∈ n.parts, m.looksAtMacros = true → σ.macros)
    (fuel : Nat) : Repeats σ (c.evaluateWithin fuel n) (c.evaluateWithin fuel n) fun _ => True := by
  rw [Context.evaluateWithin_eq]
  exact @Node.value_simulates _ _ c (c.rowText fuel) (c.rowText fuel) 0 (evaluates hcalm)
    (fun target text h s => rowText_repeats hcalm hcells (h.macros rfl) fuel target s) n _ (Nat.le_refl _)
    fun m hm => ⟨fun _ => hcells, hmacros m hm⟩

end Program

end Repeats

end Run

end Rowwise
