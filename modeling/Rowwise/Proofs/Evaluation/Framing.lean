import Rowwise.Eval.Expression
import Rowwise.Proofs.Evaluation.Compiling
import Rowwise.Proofs.Evaluation.Folding
import Rowwise.Proofs.Evaluation.Simulation

/-!
# Rowwise.Proofs.Evaluation.Framing — what reading and evaluation leave alone

Reading and evaluation change readers, random streams, the count of polls and the events of a world.  A contract that lets
these change and allows all halts is met by every text that is read and every node that is evaluated (`Contract.Frames`).
So worlds before and after agree in all else (`Context.evaluateWithin_agrees`).
-/

namespace Rowwise

open Run Node

/-- The contract lets a run do all that reading and evaluation do to a world, and allows all halts.  Columns are read as
what they are made of if they are in `C`, and those that names are resolved to are. -/
structure Contract.Frames (K : Contract) (C : Nat → String → ValueType → Prop) : Prop where
  poll : K.LetsPoll
  note {e : Event} : e.isNote = true → K.Lets fun w => { w with events := e :: w.events }
  streams (change : World → Array (Nat × Nat)) : K.Lets fun w => { w with streams := change w }
  opened : K.Lets fun w => { w with events := .opened :: w.events }
  closed : K.Lets fun w => { w with events := .closed :: w.events }
  reads {source : Nat} {name : String} {type : ValueType} : C source name type →
    K.Lets (afterRead source name type.storage)
  found {w : World} {source : Nat} {name : String} {type : ValueType} : K.holds w →
    w.column? name = some (source, type) → C source name type
  halts (h : Halt) : K.allows h

namespace Contract.Frames

variable {K : Contract} {C : Nat → String → ValueType → Prop} {c : Context}

theorem usual (hK : K.Frames C) : K.Usual where
  poll := hK.poll
  note := hK.note
  streams := hK.streams
  fault _ := hK.halts _
  within _ _ := hK.halts _

theorem ofExcept_meets (hK : K.Frames C) {α : Type} (r : Except Fault α) : Meets K (Run.ofExcept r) fun _ => True :=
  Meets.ofExcept (fun _ _ => trivial) fun _ _ => hK.halts _

theorem readColumn_meets (hK : K.Frames C) {source : Nat} {name : String} {type : ValueType} (h : C source name type) :
    Meets K (Run.readColumn source name type.storage) fun _ => True := by
  intro w hw
  obtain ⟨hholds, hmoves⟩ := hK.reads h w hw
  rw [exec_readColumn]
  refine ⟨hholds, hmoves, ?_⟩
  cases w.cell source name type.storage with
  | ok v => trivial
  | error d => exact hK.halts _

theorem columnValue_meets (hK : K.Frames C) (target : ValueType) (name : String) :
    Meets K (columnValue c target name) fun _ => True := by
  refine Meets.bind (Meets.world (Q := K.holds) fun _ hw => hw) fun w hw => ?_
  split
  · exact Meets.fail (hK.halts _)
  · rename_i source type hcol
    exact Meets.bind (hK.readColumn_meets (hK.found hw hcol)) fun v _ => hK.ofExcept_meets _

theorem evaluates (hK : K.Frames C) : c.Evaluates (ReadsHere C True) fun _ {_} x _ => Meets K x fun _ => True where
  pure _ := Meets.pure trivial
  fail _ := Meets.fail (hK.halts _)
  bind hx hf := hx.bind fun a _ => hf a
  poll := Meets.poll hK.usual trivial
  step he := Meets.note (hK.note (Event.isNote_of_isStep he)) trivial
  supplied _ := Meets.note (hK.note rfl) trivial
  random _ := (nextRandom_meets hK.usual _).mono fun _ _ => trivial
  time _ := currentTime_meets hK.usual
  row _ _ := currentRow_meets
  scope? _ _ _ := Meets.scope?
  column := hK.readColumn_meets
  columnValue name _ := hK.columnValue_meets _ name
  inText h := h.inText hK.opened hK.closed
  evalText h := (h.inText hK.opened hK.closed).nested hK.usual
  mono h _ := h

theorem value_meets (hK : K.Frames C) {eval : ValueType → String → Run Value}
    (heval : ∀ t s, Meets K (eval t s) fun _ => True) {n : Node} (hn : n.ReadsOnly C True) :
    Meets K (n.value c eval) fun _ => True :=
  @value_simulates _ _ c eval eval 0 hK.evaluates (fun t _ _ => heval t) n _ (Nat.le_refl _) hn.parts

theorem fold_meets (hK : K.Frames C) {n : Node} (hn : n.ReadsOnly C True) :
    Meets K (n.fold c) (Node.ReadsOnly C True) := by
  unfold fold
  split
  · exact (hK.value_meets (fun _ _ => Meets.throw (hK.halts _)) hn).bind fun v _ => Meets.pure trivial
  · exact Meets.pure hn

theorem builds (hK : K.Frames C) {read : String → Run Node} (hread : ∀ s, Meets K (read s) (Node.ReadsOnly C True)) :
    c.Builds (fun x _ Q => Meets K x Q) (Node.ReadsOnly C True) (Node.ReadsOnly C True) (fun _ _ => True) read read where
  toRelates := hK.usual.relates
  read := hread
  columnOf? _ := Meets.columnOf? fun _ _ _ hw hcol => hK.found hw hcol
  fold hn _ := (hK.fold_meets hn).mono fun _ hm => ⟨hm, trivial⟩
  typed _ := trivial
  const _ := trivial
  varying _ := trivial
  nested h := marked_readsOnly h h
  spliced h := marked_readsOnly h h
  strict h _ _ := allReadOnly_iff.2 h
  aggregate h _ _ := allReadOnly_iff.2 h
  binomial hn hk := ⟨hn, hk⟩
  choose hc hy hn _ _ := ⟨hc, hy, hn⟩
  convert h _ := h
  evalText h := ⟨trivial, h⟩
  columnNamed h := ⟨trivial, h⟩
  macroNamed h := h
  macroOr hn hd _ := ⟨hn, hd⟩
  refuse _ _ := trivial
  now := trivial
  random _ := trivial
  seeded h := h
  parameter ho hn := ⟨ho, hn⟩
  host _ h := (hK.fold_meets (n := .host _ _) (allReadOnly_iff.2 h)).buildHost hK.usual

theorem readNested_meets (hK : K.Frames C) (budget : Nat) (s : String) :
    Meets K (c.readNested budget s) (Node.ReadsOnly C True) := by
  induction budget generalizing s with
  | zero => exact (Meets.poll (Q := fun _ => True) hK.usual trivial).bind fun _ _ => Meets.fail (hK.halts _)
  | succ budget ih =>
    exact (Meets.poll (Q := fun _ => True) hK.usual trivial).bind fun _ _ =>
      ((hK.builds ih).readWith_related s).inText hK.opened hK.closed

theorem parse_meets (hK : K.Frames C) (s : String) : Meets K (c.parse s) fun e => e.root.ReadsOnly C True :=
  Meets.bind ((hK.builds (hK.readNested_meets _)).readWith_related s) fun _ hn => Meets.pure hn

theorem rowText_meets (hK : K.Frames C) (fuel : Nat) (target : ValueType) (s : String) :
    Meets K (c.rowText fuel target s) fun _ => True := by
  induction fuel generalizing target s with
  | zero => exact Meets.throw (hK.halts _)
  | succ fuel ih =>
    refine Meets.bind ((hK.builds (c := c) (hK.readNested_meets _)).readText_related s) fun inner hinner => ?_
    have hvalue : Meets K (c.evaluateWithin fuel inner) fun _ => True := by
      rw [Context.evaluateWithin_eq]
      exact hK.value_meets ih hinner
    exact ((hvalue.inText hK.opened hK.closed).nested hK.usual).bind fun v _ => hK.ofExcept_meets _

theorem evaluateWithin_meets (hK : K.Frames C) (fuel : Nat) {n : Node} (hn : n.ReadsOnly C True) :
    Meets K (c.evaluateWithin fuel n) fun _ => True := by
  rw [Context.evaluateWithin_eq]
  exact hK.value_meets (hK.rowText_meets fuel) hn

end Contract.Frames

/-! ### Worlds that agree -/

namespace World

/-- The worlds have the same columns, macros, row and time, and the job is cancelled in both or in none. -/
structure Agrees (w w' : World) : Prop where
  columns : w.SameColumns w'
  macros : w'.macros = w.macros
  row : w'.row = w.row
  clock : w'.clock = w.clock
  cancelled : w'.cancelled = w.cancelled

variable {u w w' : World}

theorem Agrees.refl (w : World) : w.Agrees w := ⟨.refl w, rfl, rfl, rfl, rfl⟩

theorem Agrees.trans (h : u.Agrees w) (h' : w.Agrees w') : u.Agrees w' where
  columns := h.columns.trans h'.columns
  macros := h'.macros.trans h.macros
  row := h'.row.trans h.row
  clock := h'.clock.trans h.clock
  cancelled := h'.cancelled.trans h.cancelled

theorem Agrees.scope?_eq (h : w.Agrees w') (name : String) : w'.scope? name = w.scope? name := by
  unfold scope?
  rw [h.macros]

theorem Agrees.column?_eq (h : w.Agrees w') (name : String) : w'.column? name = w.column? name :=
  (h.columns.column?_eq name).symm

theorem agrees_afterRead (source : Nat) (name : String) (storage : Storage) (w : World) :
    w.Agrees (Run.afterRead source name storage w) := by
  refine ⟨sameColumns_afterRead source name storage w, ?_, ?_, ?_, ?_⟩ <;>
  · unfold Run.afterRead
    split <;> rfl

end World

/-- Runs after which the world agrees with the world before. -/
def Contract.agreeing : Contract where
  holds _ := True
  moves := World.Agrees
  allows _ := True
  moves_refl := .refl
  moves_trans := .trans

theorem Contract.frames_agreeing : Contract.agreeing.Frames fun _ _ _ => True where
  poll _ _ _ _ := ⟨trivial, rfl, rfl, rfl, rfl, rfl⟩
  note _ _ _ := ⟨trivial, rfl, rfl, rfl, rfl, rfl⟩
  streams _ _ _ := ⟨trivial, rfl, rfl, rfl, rfl, rfl⟩
  opened _ _ := ⟨trivial, rfl, rfl, rfl, rfl, rfl⟩
  closed _ _ := ⟨trivial, rfl, rfl, rfl, rfl, rfl⟩
  reads _ w _ := ⟨trivial, w.agrees_afterRead _ _ _⟩
  found _ _ := trivial
  halts _ := trivial

theorem Context.parse_agrees (c : Context) (s : String) (w : World) : w.Agrees ((c.parse s).exec w).2 :=
  (Contract.frames_agreeing.parse_meets s w trivial).2.1

/-- Evaluation leaves columns, macros, row and time as they are, and does not cancel the job. -/
theorem Context.evaluateWithin_agrees (c : Context) (fuel : Nat) (n : Node) (w : World) :
    w.Agrees ((c.evaluateWithin fuel n).exec w).2 :=
  (Contract.frames_agreeing.evaluateWithin_meets fuel n.readsOnly_true w trivial).2.1

end Rowwise
