import Mathlib.Logic.Relation
import Rowwise.Proofs.Repetition.Sights

/-!
# Rowwise.Proofs.Repetition.Histories — evaluation has no hidden state

Between two evaluations of an expression others are parsed and evaluated, rows are moved to and time passes
(`Context.Past`).  None of this changes what the expression yields in a row (`Context.evaluation_stateless`), and a change of
macros does so only if the expression looks one up by a name of the row or reads texts of the row.
-/

namespace Rowwise

/-! ### Histories -/

/-- What may happen while expressions are in use: a text is parsed or an expression evaluated, whatever comes of it, or the
world changes in between as `meanwhile` says. -/
inductive Context.Step (c : Context) (meanwhile : World → World → Prop) : World → World → Prop where
  | parsed (s : String) (w : World) : Step c meanwhile w ((c.parse s).exec w).2
  | evaluated (e : Expression) (fuel : Nat) (w : World) : Step c meanwhile w ((c.evaluateWithin fuel e.root).exec w).2
  | changed {w w' : World} : meanwhile w w' → Step c meanwhile w w'

/-- The second world comes out of the first by a finite sequence of such steps. -/
def Context.Past (c : Context) (meanwhile : World → World → Prop) : World → World → Prop :=
  Relation.ReflTransGen (c.Step meanwhile)

/-- Columns stay and the job is not cancelled; macros change only if `macros` holds, and all else may change. -/
structure World.Moves (macros : Prop) (w w' : World) : Prop where
  columns : w.SameColumns w'
  cancelled : w'.cancelled = w.cancelled
  macros : ¬ macros → w'.macros = w.macros

namespace World.Moves

variable {M : Prop} {u w w' : World}

theorem refl (w : World) : w.Moves M w := ⟨.refl w, rfl, fun _ => rfl⟩

theorem trans (h : u.Moves M w) (h' : w.Moves M w') : u.Moves M w' where
  columns := h.columns.trans h'.columns
  cancelled := h'.cancelled.trans h.cancelled
  macros hM := (h'.macros hM).trans (h.macros hM)

theorem of_agrees (h : w.Agrees w') : w.Moves M w' := ⟨h.columns, h.cancelled, fun _ => h.macros⟩

/-- A step does what its change in between may do, since runs leave columns and macros alone. -/
theorem of_step {c : Context} (h : c.Step (Moves M) w w') : w.Moves M w' := by
  cases h with
  | parsed s => exact of_agrees (c.parse_agrees s w)
  | evaluated e fuel => exact of_agrees (c.evaluateWithin_agrees fuel e.root w)
  | changed h => exact h

theorem of_past {c : Context} (h : Relation.ReflTransGen (c.Step (Moves M)) w w') : w.Moves M w' := by
  induction h with
  | refl => exact refl w
  | tail _ hstep ih => exact ih.trans (of_step hstep)

end World.Moves

/-! ### Expressions without chance -/

/-- Runs that leave nothing to chance. -/
def Contract.chanceFree : Contract where
  holds _ := True
  moves := World.ChanceFree
  allows _ := True
  moves_refl := World.Only.refl
  moves_trans := World.Only.trans

/-- True for random numbers, the time and texts of a row. -/
def Node.leavesToChance : Node → Bool
  | random _ | now | evalText _ _ => true
  | _ => false

open Run

namespace Contract

variable {c : Context}

theorem lets_chanceFree {e : Event} (he : e.isChance = false) :
    Contract.chanceFree.Lets fun w => { w with events := e :: w.events } :=
  fun _ _ => ⟨trivial, World.Only.of_event he rfl⟩

theorem readColumn_chanceFree (source : Nat) (name : String) (storage : Storage) :
    Meets .chanceFree (Run.readColumn source name storage) fun _ => True := by
  intro w _
  rw [exec_readColumn]
  refine ⟨trivial, World.Only.of_event rfl (events_afterRead source name storage w), ?_⟩
  cases w.cell source name storage <;> trivial

theorem evaluates_chanceFree :
    c.Evaluates (·.leavesToChance = false) fun _ {_} x _ => Meets .chanceFree x fun _ => True where
  pure _ := Meets.pure trivial
  fail _ := Meets.fail trivial
  bind hx hf := hx.bind fun a _ => hf a
  poll := Meets.poll_of_lets (fun _ _ _ _ => ⟨trivial, World.Only.of_event rfl rfl⟩) trivial trivial
  step {_ e} he := Meets.note (lets_chanceFree (by cases e <;> first | rfl | cases he)) trivial
  supplied _ := Meets.note (lets_chanceFree rfl) trivial
  random h := by cases h
  time h := by cases h
  row _ _ := currentRow_meets
  scope? _ _ _ := Meets.scope?
  column _ := readColumn_chanceFree _ _ _
  columnValue _ _ := by
    refine Meets.bind (P := fun _ => True) (Meets.world fun _ _ => trivial) fun w _ => ?_
    split
    · exact Meets.fail trivial
    · exact (readColumn_chanceFree _ _ _).bind fun v _ => Meets.typed (fun _ _ => trivial) fun _ _ => trivial
  inText hx := hx.inText (lets_chanceFree rfl) (lets_chanceFree rfl)
  evalText hx := (hx.inText (lets_chanceFree rfl) (lets_chanceFree rfl)).nested_of_within fun _ _ => trivial
  mono hx _ := hx

end Contract

/-- Without random numbers, the time and texts of a row in it, an expression leaves nothing to chance. -/
theorem Context.chanceFree_of_parts {c : Context} {n : Node} (h : ∀ m ∈ n.parts, m.leavesToChance = false) (fuel : Nat)
    (w : World) : w.ChanceFree ((c.evaluateWithin fuel n).exec w).2 := by
  rw [evaluateWithin_eq]
  have hvalue := @Node.value_simulates _ _ c (c.rowText fuel) (c.rowText fuel) 0 Contract.evaluates_chanceFree
    (fun _ _ h => by cases h) n _ (Nat.le_refl _) h
  exact (hvalue w trivial).2.1

/-! ### No hidden state -/

/-- What an expression yields in a row, or the fault it fails with, depends on the columns and the row alone, and on the
macros only if a part of it looks at them, as long as its evaluation draws no random numbers and does not look at the time
(`chanceFree_of_parts`).  So nothing that is parsed or evaluated in between changes it, in whatever rows and with whatever
outcomes. -/
theorem Context.evaluation_stateless {c : Context} (hcalm : c.Calm) {e : Expression} {fuel : Nat} {w : World}
    (hw : w.cancelled = false) (hfree : w.ChanceFree ((c.evaluateWithin fuel e.root).exec w).2) :
    (∀ w', w.SameColumns w' → w'.row = w.row → w'.cancelled = false →
      ((∃ m ∈ e.root.parts, m.looksAtMacros = true) → w'.macros = w.macros) →
      ((c.evaluateWithin fuel e.root).exec w').1 = ((c.evaluateWithin fuel e.root).exec w).1) ∧
    ∀ w', c.Past (World.Moves (∀ m ∈ e.root.parts, m.looksAtMacros = false)) w w' → w'.row = w.row →
      ((c.evaluateWithin fuel e.root).exec w').1 = ((c.evaluateWithin fuel e.root).exec w).1 := by
  have hdepends : ∀ w', w.SameColumns w' → w'.row = w.row → w'.cancelled = false →
      ((∃ m ∈ e.root.parts, m.looksAtMacros = true) → w'.macros = w.macros) →
      ((c.evaluateWithin fuel e.root).exec w').1 = ((c.evaluateWithin fuel e.root).exec w).1 := by
    intro w' hcolumns hrow hw' hmacros
    let σ : Sight := ⟨True, ∃ m ∈ e.root.parts, m.looksAtMacros = true⟩
    have hsame : w.SameFor σ w' := ⟨⟨hw, hw'⟩, fun name => (hcolumns.column?_eq name).symm, fun _ => ⟨hcolumns, hrow⟩, hmacros⟩
    have hmacros : ∀ m ∈ e.root.parts, m.looksAtMacros = true → σ.macros := fun m hm hlooks => ⟨m, hm, hlooks⟩
    exact ((Repeats.evaluateWithin_repeats hcalm (show σ.cells from trivial) hmacros fuel).ends hsame hfree).outcome
  refine ⟨hdepends, fun w' hpast hrow => ?_⟩
  obtain ⟨hcolumns, hcancelled, hmacros⟩ := World.Moves.of_past hpast
  refine hdepends w' hcolumns hrow (hcancelled.trans hw) ?_
  rintro ⟨m, hm, hlooks⟩
  refine hmacros fun hnone => ?_
  rw [hnone m hm] at hlooks
  cases hlooks

/-- A text that a row supplies is evaluated as before after another text could not be parsed. -/
theorem Context.evaluation_stateless_after_fault :
    let w := World.ofTexts [("t", "\"x\"")]
    ∃ e, ((({} : Context).parse "eval([t], TYPE_STRING)").exec w).1 = .ok e ∧
      ((({} : Context).evaluateWithin 1 e.root).exec ((({} : Context).parse "1 +").exec w).2).1 =
        ((({} : Context).evaluateWithin 1 e.root).exec w).1 := by
  intro w
  obtain ⟨e, he, hp⟩ := exists_ok (r := ((({} : Context).parse "eval([t], TYPE_STRING)").exec w).1)
    (p := fun e => decide (∀ event ∈ ((({} : Context).evaluateWithin 1 e.root).exec w).2.events, event.isChance = false))
    (by decide +kernel)
  have hfree : w.ChanceFree ((({} : Context).evaluateWithin 1 e.root).exec w).2 :=
    ⟨_, (List.append_nil _).symm, of_decide_eq_true hp⟩
  exact ⟨e, he, (evaluation_stateless (calm_of_no_host rfl) rfl hfree).2 _ (.single (.parsed "1 +" w))
    (parse_agrees {} "1 +" w).row⟩

end Rowwise
