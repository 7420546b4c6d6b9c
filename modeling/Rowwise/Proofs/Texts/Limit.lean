import Rowwise.Eval.Expression
import Rowwise.Proofs.Evaluation.Compiling
import Rowwise.Proofs.Evaluation.Folding
import Rowwise.Proofs.Texts.Nesting

/-!
# Rowwise.Proofs.Texts.Limit — what the limit on nested texts guarantees

Parsing always ends within the limit, since every text takes its budget from the one around it.  A row starts with a new
budget for each of its texts, so the limit holds of an evaluation only as long as these texts stand in no other ones and
have none of their own (`Context.texts_within_limit`).  Evaluation ends unless more texts than any limit are open at once.
-/

namespace Rowwise

open Run Node

variable {c : Context}

/-! ### Reading -/

namespace Node

/-- The node opens at most `b` texts more than those of a row do. -/
def OpensAtMost (b : Nat) (n : Node) : Prop := ∀ e, n.textDepth e ≤ b + e

/-- The same counting a text that the node itself stands in. -/
def OpensInside (b : Nat) (n : Node) : Prop := ∀ e, n.textDepth e + 1 ≤ b + e

variable {b : Nat} {n : Node}

theorem OpensAtMost.inside (h : n.OpensAtMost b) : n.OpensInside (b + 1) := by
  intro e
  have := h e
  omega

theorem OpensInside.marked {mark : Node → Node} (h : n.OpensInside b)
    (hmark : ∀ e, (mark n).textDepth e = n.textDepth e + 1) : (n.marked mark).OpensAtMost b := by
  have hmarked : (mark n).OpensAtMost b := fun e => (hmark e).symm ▸ h e
  cases n <;> first | exact fun e => Nat.zero_le _ | exact hmarked

/-- Folding evaluates constants alone, so it opens no text of a row. -/
theorem OpensAtMost.fold_meets (h : n.OpensAtMost b) : Meets (.nesting b) (n.fold c) (OpensAtMost b) := by
  unfold fold
  split
  · rename_i hfold
    rw [value_of_foldable hfold fun t _ => pure (.missing t)]
    have hvalue := value_simulates ((Approximates.simulation (b + 1)).evaluates c)
      (fun t _ _ _ => Approximates.pure (Value.missing t)) n (h 0) fun _ _ => trivial
    exact Meets.bind hvalue.meets fun v _ => Meets.pure fun e => Nat.zero_le _
  · exact Meets.pure h

end Node

namespace Context

/-- All builders keep to the number of texts that reading keeps to. -/
theorem builds_nesting {b : Nat} {read : String → Run Node}
    (hread : ∀ s, Meets (.nesting b) (read s) (OpensInside b)) :
    c.Builds (fun x _ Q => Meets (.nesting b) x Q) (OpensAtMost b) (OpensInside b) (fun _ _ => True) read read where
  toRelates := (Contract.plain_nesting b).usual.relates
  read := hread
  columnOf? _ := Meets.columnOf? fun _ _ _ _ _ _ => Nat.zero_le _
  fold h _ := h.fold_meets.mono fun _ hm => ⟨hm, trivial⟩
  typed _ := trivial
  const _ _ := Nat.zero_le _
  varying _ _ := Nat.zero_le _
  nested h := h.marked fun _ => rfl
  spliced h := h.marked fun _ => rfl
  strict h _ _ e := textDepthAll_le fun n hn => h n hn e
  aggregate h _ _ e := textDepthAll_le fun n hn => h n hn e
  binomial hn hk e := Nat.max_le.2 ⟨hn e, hk e⟩
  choose hc hy hn _ _ e := Nat.max_le.2 ⟨hc e, Nat.max_le.2 ⟨hy e, hn e⟩⟩
  convert h _ := h
  evalText h e := Nat.max_le.2 ⟨h e, Nat.le_add_left e b⟩
  columnNamed h := h
  macroNamed h := h
  macroOr hn hd _ e := Nat.max_le.2 ⟨hn e, hd e⟩
  refuse _ _ _ := Nat.zero_le _
  now _ := Nat.zero_le _
  random _ _ := Nat.zero_le _
  seeded h := h
  parameter ho hn e := Nat.max_le.2 ⟨ho e, hn e⟩
  host _ h := (OpensAtMost.fold_meets (n := .host _ _) fun e => textDepthAll_le fun n hn => h n hn e).buildHost (Contract.plain_nesting b).usual

/-- A text keeps to its budget, itself included. -/
theorem readNested_nesting (budget : Nat) (s : String) :
    Meets (.nesting budget) (c.readNested budget s) (OpensInside budget) := by
  induction budget generalizing s with
  | zero =>
    exact Meets.bind (P := fun _ => True) (Meets.poll (Contract.plain_nesting 0).usual trivial) fun _ _ =>
      Meets.fail ((Contract.plain_nesting 0).fault _)
  | succ budget ih =>
    refine Meets.bind (P := fun _ => True) (Meets.poll (Contract.plain_nesting (budget + 1)).usual trivial) fun _ _ => ?_
    exact Meets.inText_nesting (((builds_nesting ih).readWith_related s).mono fun _ hn => hn.inside)

theorem parse_nesting (s : String) :
    Meets (.nesting c.options.textLimit) (c.parse s) fun e => e.root.OpensAtMost c.options.textLimit :=
  Meets.bind ((builds_nesting (readNested_nesting _)).readWith_related s) fun _ hn => Meets.pure hn

/-- Reading evaluates no text of a row, so it always ends. -/
theorem parse_not_exhausted (s : String) (w : World) : ((c.parse s).exec w).1 ≠ .error .exhausted := by
  intro hexhausted
  have houtcome := (parse_nesting (c := c) s w trivial).2.2
  rw [hexhausted] at houtcome
  exact houtcome rfl

/-! ### The texts of a row -/

/-- A text of a row opens a budget of texts and then those of its own, whatever its evaluation is compared with. -/
theorem rowText_approximates_of (more : Nat) (hmore : ∀ t s (w : World), w.Grows ((c.rowText more t s).exec w).2)
    (fuel : Nat) (t : ValueType) (s : String) :
    Approximates (c.options.textLimit * fuel) fuel (c.rowText fuel t s) (c.rowText (fuel + more) t s) := by
  induction fuel generalizing t s with
  | zero =>
    rw [Nat.zero_add]
    exact .giveUp (hmore t s)
  | succ fuel ih =>
    have hread : Meets (.nesting (c.options.textLimit * (fuel + 1))) (readText c.readInner s)
        (OpensInside c.options.textLimit) :=
      ((builds_nesting (c := c) (readNested_nesting _)).readText_related s).nesting_mono
        (Nat.le_mul_of_pos_right _ (Nat.succ_pos fuel))
    rw [Nat.succ_add, rowText, rowText]
    refine .after hread fun inner hinner => ?_
    have hdepth := hinner (c.options.textLimit * fuel)
    have hvalue : Approximates (inner.textDepth (c.options.textLimit * fuel)) fuel (c.evaluateWithin fuel inner)
        (c.evaluateWithin (fuel + more) inner) := by
      rw [evaluateWithin_eq, evaluateWithin_eq]
      exact value_simulates ((Approximates.simulation fuel).evaluates c) (fun t _ _ => ih t) inner (Nat.le_refl _)
        fun _ _ => trivial
    have hbound : inner.textDepth (c.options.textLimit * fuel) + 1 ≤ c.options.textLimit * (fuel + 1) := by
      rw [Nat.mul_succ]
      omega
    refine ((hvalue.inText.nestedIn Builtin.eval.name).mono hbound (Nat.le_refl _)).bind fun v => ?_
    exact .refl (Q := fun _ => True) (Meets.typed (fun _ _ => trivial) fun _ _ => by rintro ⟨⟩) _

theorem rowText_approximates (fuel more : Nat) (t : ValueType) (s : String) :
    Approximates (c.options.textLimit * fuel) fuel (c.rowText fuel t s) (c.rowText (fuel + more) t s) := by
  refine rowText_approximates_of more (fun t s w => ?_) fuel t s
  have hself := rowText_approximates_of (c := c) 0 (fun _ _ w => List.suffix_refl w.events) more t s
  exact hself.grows w

/-- With more fuel an evaluation is the same unless it gives up, and then it opens as many texts as it has fuel. -/
theorem evaluateWithin_approximates (fuel more : Nat) {n : Node} {k : Nat}
    (h : n.textDepth (c.options.textLimit * fuel) ≤ k) :
    Approximates k fuel (c.evaluateWithin fuel n) (c.evaluateWithin (fuel + more) n) := by
  rw [evaluateWithin_eq, evaluateWithin_eq]
  exact value_simulates ((Approximates.simulation fuel).evaluates c) (fun t _ _ => rowText_approximates fuel more t) n h
    fun _ _ => trivial

/-! ### The limit -/

/-- The evaluation of the node ends, and at no moment are more than `limit` texts open. -/
def EndsWithin (c : Context) (limit : Nat) (n : Node) (w : World) : Prop :=
  ∃ outcome w', outcome ≠ .error .exhausted ∧ w.Nested limit w' ∧
    ∃ least, ∀ fuel, least ≤ fuel → (c.evaluateWithin fuel n).exec w = (outcome, w')

theorem endsWithin_of_fuel {limit fuel : Nat} {n : Node} {w : World}
    (hends : ((c.evaluateWithin fuel n).exec w).1 ≠ .error .exhausted)
    (hnested : w.Nested limit ((c.evaluateWithin fuel n).exec w).2) : c.EndsWithin limit n w := by
  refine ⟨_, _, hends, hnested, fuel, fun more hmore => ?_⟩
  obtain ⟨d, rfl⟩ := Nat.exists_eq_add_of_le hmore
  exact (evaluateWithin_approximates fuel d (Nat.le_refl _)).agrees w hends

/-- An evaluation ends within a limit just if it keeps to the limit while it may open one text more. -/
theorem endsWithin_iff {limit : Nat} {n : Node} {w : World} :
    c.EndsWithin limit n w ↔ w.Nested limit ((c.evaluateWithin (limit + 1) n).exec w).2 := by
  have happrox := fun more => evaluateWithin_approximates (c := c) (limit + 1) more (Nat.le_refl _) (n := n)
  constructor
  · rintro ⟨outcome, w', hends, hnested, least, hleast⟩
    have hlarge := hleast (limit + 1 + least) (Nat.le_add_left least _)
    by_cases hexhausted : ((c.evaluateWithin (limit + 1) n).exec w).1 = .error .exhausted
    · have hreaches := (happrox least).reaches w hexhausted
      rw [hlarge] at hreaches
      have := hnested.le_of_reaches hreaches
      omega
    · have hagrees := (happrox least).agrees w hexhausted
      rw [hlarge] at hagrees
      rwa [← hagrees]
  · intro hnested
    refine endsWithin_of_fuel (fun hexhausted => ?_) hnested
    have := hnested.le_of_reaches ((happrox 0).reaches w hexhausted)
    omega

/-- Parsing ends and has no more texts open at once than the limit says.  The same holds of an evaluation whose texts of a
row stand in no other text (`textDepth`) and evaluate none themselves, so that one text of fuel is enough.  In any case
each text of a row adds at most a limit's worth of texts, and an evaluation that does not end exceeds the limit. -/
theorem texts_within_limit (c : Context) (s : String) (w : World) :
    ((c.parse s).exec w).1 ≠ .error .exhausted ∧ w.Nested c.options.textLimit ((c.parse s).exec w).2 ∧
      ∀ e, ((c.parse s).exec w).1 = .ok e → ∀ w' : World,
        (c.EndsWithin c.options.textLimit e.root w' ↔
          w'.Nested c.options.textLimit ((c.evaluateWithin (c.options.textLimit + 1) e.root).exec w').2) ∧
        (e.root.textDepth c.options.textLimit ≤ c.options.textLimit →
          ((c.evaluateWithin 1 e.root).exec w').1 ≠ .error .exhausted →
          c.EndsWithin c.options.textLimit e.root w') ∧
        ∀ fuel, w'.Nested (c.options.textLimit * (fuel + 1)) ((c.evaluateWithin fuel e.root).exec w').2 := by
  obtain ⟨-, hnested, houtcome⟩ := parse_nesting (c := c) s w trivial
  refine ⟨fun hexhausted => ?_, hnested, fun e he w' => ⟨endsWithin_iff, fun hdepth hends => ?_, fun fuel => ?_⟩⟩
  · rw [hexhausted] at houtcome
    exact houtcome rfl
  · refine endsWithin_of_fuel hends ((evaluateWithin_approximates 1 0 ?_).nested w')
    rwa [Nat.mul_one]
  · rw [he] at houtcome
    have hdepth := houtcome (c.options.textLimit * fuel)
    refine (evaluateWithin_approximates fuel 0 ?_).nested w'
    rw [Nat.mul_succ]
    omega

/-- A context that differs from the standard one in its limit on texts alone. -/
def limited (limit : Nat) : Context := { options := { textLimit := limit } }

theorem texts_within_limit_one :
    ∃ e, (((limited 1).parse "eval([t], TYPE_STRING)").exec (.ofTexts [("t", "\"x\"")])).1 = .ok e ∧
      (limited 1).EndsWithin 1 e.root (.ofTexts [("t", "\"x\"")]) := by
  obtain ⟨e, he, hp⟩ := exists_ok
    (r := (((limited 1).parse "eval([t], TYPE_STRING)").exec (.ofTexts [("t", "\"x\"")])).1)
    (p := fun e => e.root.textDepth 1 ≤ 1 &&
      (((limited 1).evaluateWithin 1 e.root).exec (.ofTexts [("t", "\"x\"")])).1.toOption.isSome) (by decide +kernel)
  simp only [Bool.and_eq_true, decide_eq_true_eq] at hp
  refine ⟨e, he, ((texts_within_limit _ _ _).2.2 e he _).2.1 hp.1 fun h => ?_⟩
  rw [h] at hp
  cases hp.2

/-- A blank before the bracket hides a call of `eval` in the text of a row, so two texts are open where one is the limit. -/
theorem eval_hidden : ¬ ∀ (c : Context) (s : String) (w : World) (e : Expression),
    ((c.parse s).exec w).1 = .ok e → c.EndsWithin c.options.textLimit e.root w := by
  intro h
  obtain ⟨e, he, hp⟩ := exists_ok
    (r := (((limited 1).parse "eval([t], TYPE_STRING)").exec
      (.ofTexts [("t", "eval ([u], TYPE_STRING)"), ("u", "\"x\"")])).1)
    (p := fun e => !decide (World.Nested 1 (.ofTexts [("t", "eval ([u], TYPE_STRING)"), ("u", "\"x\"")])
      (((limited 1).evaluateWithin 2 e.root).exec (.ofTexts [("t", "eval ([u], TYPE_STRING)"), ("u", "\"x\"")])).2))
    (by decide +kernel)
  simp only [Bool.not_eq_true', decide_eq_false_iff_not] at hp
  exact hp (endsWithin_iff.1 (h _ _ _ e he))

end Context

end Rowwise
