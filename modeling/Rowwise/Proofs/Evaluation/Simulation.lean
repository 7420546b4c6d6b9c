import Rowwise.Proofs.Evaluation.Building
import Rowwise.Proofs.Evaluation.Columns
import Rowwise.Proofs.Evaluation.Folding
import Rowwise.Proofs.Evaluation.Parts
import Rowwise.Proofs.Evaluation.Steps

/-!
# Rowwise.Proofs.Evaluation.Simulation — what holds of every evaluation

Nodes are evaluated by runs that are built in a few ways.  A relation between runs that all of these ways keep
(`Context.Evaluates`) holds between any two evaluations of a node that differ in how the texts of a row are evaluated, if it
holds of these (`Node.value_simulates`).  How many texts stand in each other is counted along (`Node.textDepth`), and what a
node takes from a row and from the world is asked of the relation only if the parts of the node allow it (`Node.parts`).  A
node that can be folded takes nothing from either (`Node.foldable_simulates`).  A relation that does not look into what a
run does outside of texts is given by less (`Run.Simulation`).
-/

namespace Rowwise

/-! ### Runs outside of texts -/

/-- The contract lets a run do all that evaluation does to a world outside of texts, and allows all faults. -/
structure Contract.Plain (K : Contract) : Prop where
  poll : K.LetsPoll
  note {e : Event} : e.isNote = true → K.Lets fun w => { w with events := e :: w.events }
  streams (change : World → Array (Nat × Nat)) : K.Lets fun w => { w with streams := change w }
  reads (source : Nat) (name : String) (storage : Storage) : K.Lets (Run.afterRead source name storage)
  fault (f : Fault) : K.allows (.fault f)

open Run

section Plain

variable {K : Contract} (hK : K.Plain)

include hK

theorem Contract.Plain.usual : K.Usual where
  poll := hK.poll
  note := hK.note
  streams := hK.streams
  fault _ := hK.fault _
  within {h} _ hh := by
    cases h with
    | fault f => exact hK.fault _
    | exhausted => exact hh

theorem Run.Meets.readColumn_plain (source : Nat) (name : String) (storage : Storage) :
    Meets K (Run.readColumn source name storage) fun _ => True := by
  intro w hw
  obtain ⟨hholds, hmoves⟩ := hK.reads source name storage w hw
  rw [exec_readColumn]
  refine ⟨hholds, hmoves, ?_⟩
  cases w.cell source name storage with
  | ok v => trivial
  | error d => exact hK.fault _

theorem columnValue_plain {c : Context} (target : ValueType) (name : String) :
    Meets K (columnValue c target name) fun _ => True := by
  refine Meets.bind (P := fun _ => True) (Meets.world fun _ _ => trivial) fun w _ => ?_
  split
  · exact Meets.fail (hK.fault _)
  · refine Meets.bind (Meets.readColumn_plain hK _ _ _) fun v _ => ?_
    exact Meets.typed (fun _ _ => trivial) fun _ _ => hK.fault _

end Plain

/-! ### Relations that folding keeps -/

/-- A relation between runs that is kept by all that a standard function does when it is given constants. -/
structure Context.Folds (c : Context) (rel : {α : Type} → Run α → Run α → Prop) : Prop where
  pure {α : Type} (a : α) : rel (Pure.pure a) (Pure.pure a)
  fail {α : Type} {f : Fault} : f.aborts = false → rel (Run.fail f : Run α) (Run.fail f)
  bind {α β : Type} {x y : Run α} {f g : α → Run β} : rel x y → (∀ a, rel (f a) (g a)) → rel (x >>= f) (y >>= g)
  poll : rel c.poll c.poll
  applied (f : StrictFunction) (args : List Value) : rel (Run.note (.applied f args)) (Run.note (.applied f args))

namespace Context.Folds

variable {c : Context} {rel : {α : Type} → Run α → Run α → Prop} {α : Type}

theorem valueOf (F : c.Folds rel) (function : String) (r : Except ValueCause α) :
    rel (Run.valueOf function r) (Run.valueOf function r) := by
  cases r with
  | ok a => exact F.pure a
  | error cause => exact F.fail (Fault.aborts_ofCause function cause)

theorem typed (F : c.Folds rel) (function : String) (r : Except TypeCause α) :
    rel (Run.typed function r) (Run.typed function r) := by
  cases r with
  | ok a => exact F.pure a
  | error cause => exact F.fail rfl

theorem sound (F : c.Folds rel) (r : Except Defect α) : rel (Run.sound r) (Run.sound r) := by
  cases r with
  | ok a => exact F.pure a
  | error d => exact F.fail rfl

theorem binomialFrom (F : c.Folds rel) (n : Int) (i : Nat) (result : Float) (factors : Nat) :
    rel (binomialFrom c n i result factors) (binomialFrom c n i result factors) := by
  induction factors generalizing i result with
  | zero => exact F.pure _
  | succ factors ih =>
    have hrest : ∀ r : Float, rel
        (if Double.isInfinite r then Pure.pure r else Rowwise.binomialFrom c n (i + 1) r factors)
        (if Double.isInfinite r then Pure.pure r else Rowwise.binomialFrom c n (i + 1) r factors) := by
      intro r
      split
      · exact F.pure _
      · exact ih _ _
    rw [Rowwise.binomialFrom]
    split
    · exact F.bind F.poll fun _ => hrest _
    · exact hrest _

theorem binomialOf (F : c.Folds rel) (n m : Float) : rel (binomialOf c n m) (binomialOf c n m) := by
  unfold Rowwise.binomialOf
  split
  · exact F.pure _
  · refine F.bind (F.valueOf _ _) fun n => F.bind (F.valueOf _ _) fun m => ?_
    split
    · exact F.fail rfl
    · split
      · exact F.pure _
      · exact F.bind (F.binomialFrom _ _ _ _) fun _ => F.pure _

theorem parameterText (F : c.Folds rel) (operator name : Option String) :
    rel (parameterText c operator name) (parameterText c operator name) := by
  unfold Rowwise.parameterText
  split
  · split
    · exact F.pure _
    · exact F.fail rfl
  · exact F.pure _

end Context.Folds

namespace Node

variable {rel : {α : Type} → Run α → Run α → Prop} {c : Context} {eval eval' : ValueType → String → Run Value}

theorem polledValues_of_constants_simulates (F : c.Folds rel) {ns : List Node} (h : ∀ n ∈ ns, n.isConstant = true) :
    rel (polledValues c eval ns) (polledValues c eval' ns) := by
  induction ns with
  | nil =>
    rw [polledValues, polledValues]
    exact F.pure _
  | cons n ns ih =>
    obtain ⟨v, rfl⟩ := exists_const (h n List.mem_cons_self)
    rw [polledValues, polledValues, value, value]
    refine F.bind F.poll fun _ => F.bind (F.pure _) fun v => ?_
    exact F.bind (ih fun m hm => h m (List.mem_cons_of_mem _ hm)) fun vs => F.pure _

theorem values_of_constants_simulates (F : c.Folds rel) {ns : List Node} (h : ∀ n ∈ ns, n.isConstant = true) :
    rel (values c eval ns) (values c eval' ns) := by
  induction ns with
  | nil =>
    rw [values, values]
    exact F.pure _
  | cons n ns ih =>
    obtain ⟨v, rfl⟩ := exists_const (h n List.mem_cons_self)
    rw [values, values, value, value]
    refine F.bind (F.pure _) fun v => ?_
    exact F.bind (ih fun m hm => h m (List.mem_cons_of_mem _ hm)) fun vs => F.pure _

theorem firstValue_of_constant_simulates (F : c.Folds rel) {function : String} {storage : Storage} {ns : List Node}
    (h : (ns.head?.map isConstant).getD false = true) :
    rel (firstValue c eval function storage ns) (firstValue c eval' function storage ns) := by
  cases ns with
  | nil => cases h
  | cons n ns =>
    obtain ⟨v, rfl⟩ := exists_const h
    rw [firstValue, firstValue, value, value]
    unfold request
    split
    · exact F.pure _
    · exact F.fail rfl

/-- True for calls of functions of the host. -/
def isHost : Node → Bool
  | host _ _ => true
  | _ => false

/-- A standard function that is given constants takes nothing from the row or the world, and runs nothing of the host. -/
theorem standard_foldable_simulates (F : c.Folds rel) {n : Node} (h : n.isFoldable = true) (hn : n.isHost = false) :
    rel (n.value c eval) (n.value c eval') := by
  cases n with
  | const v =>
    rw [value, value]
    exact F.pure _
  | strict f type args =>
    rw [value, value]
    refine F.bind (values_of_constants_simulates F (List.all_eq_true.1 h)) fun vs => ?_
    exact F.bind (F.applied _ _) fun _ => F.valueOf _ _
  | aggregate f type args =>
    rw [value, value]
    exact F.bind (polledValues_of_constants_simulates F (List.all_eq_true.1 h)) fun vs => F.pure _
  | binomial n m =>
    obtain ⟨hfirst, hsecond⟩ := Bool.and_eq_true_iff.1 h
    obtain ⟨v, rfl⟩ := exists_const hfirst
    obtain ⟨u, rfl⟩ := exists_const hsecond
    rw [value, value, value, value, value, value]
    exact F.bind (F.pure _) fun x => F.bind (F.pure _) fun y => F.bind (F.binomialOf _ _) fun _ => F.pure _
  | convert function target n =>
    obtain ⟨v, rfl⟩ := exists_const h
    rw [value, value, value, value]
    exact F.bind (F.pure _) fun v => F.typed _ _
  | parameter operator name =>
    obtain ⟨hfirst, hsecond⟩ := Bool.and_eq_true_iff.1 h
    obtain ⟨v, rfl⟩ := exists_const hfirst
    obtain ⟨u, rfl⟩ := exists_const hsecond
    rw [value, value, value, value, value, value]
    exact F.bind (F.pure _) fun o => F.bind (F.pure _) fun n => F.parameterText _ _
  | host f args => cases hn
  | _ => cases h

end Node

/-! ### Relations that evaluation keeps -/

/-- A relation between runs for each number of texts, which all ways to evaluate nodes with parts in `P` keep: it relates the
runs outside of texts to themselves, and a text takes one more. -/
structure Context.Evaluates (c : Context) (P : Node → Prop) (rel : Nat → {α : Type} → Run α → Run α → Prop) : Prop where
  pure {k : Nat} {α : Type} (a : α) : rel k (Pure.pure a) (Pure.pure a)
  fail {k : Nat} {α : Type} {f : Fault} : f.aborts = false → rel k (Run.fail f : Run α) (Run.fail f)
  bind {k : Nat} {α β : Type} {x y : Run α} {f g : α → Run β} :
    rel k x y → (∀ a, rel k (f a) (g a)) → rel k (x >>= f) (y >>= g)
  poll {k : Nat} : rel k c.poll c.poll
  step {k : Nat} {e : Event} : e.isStep = true → rel k (Run.note e) (Run.note e)
  supplied {k : Nat} {v : Value} : P (.varying v) → rel k (Run.note .supplied) (Run.note .supplied)
  random {k stream : Nat} : P (.random stream) → rel k (nextRandom stream) (nextRandom stream)
  time {k : Nat} : P .now → rel k currentTime currentTime
  row {k : Nat} {f : HostFunction} {args : List Node} {type : ValueType} : P (.host f args) → f.action = .row type →
    rel k currentRow currentRow
  scope? {k : Nat} {n : Node} (name : String) : P n → n.looksUpMacro = true → rel k (Run.scope? name) (Run.scope? name)
  column {k source : Nat} {name : String} {type : ValueType} : P (.column source name type) →
    rel k (Run.readColumn source name type.storage) (Run.readColumn source name type.storage)
  columnValue {k : Nat} {target : ValueType} {n : Node} (name : String) : P (.columnNamed target n) →
    rel k (columnValue c target name) (columnValue c target name)
  inText {k : Nat} {α : Type} {x y : Run α} : rel k x y → rel (k + 1) (Run.inText x) (Run.inText y)
  evalText {k : Nat} {α : Type} {x y : Run α} : rel k x y →
    rel (k + 1) (Run.nested Builtin.eval.name (Run.inText x)) (Run.nested Builtin.eval.name (Run.inText y))
  mono {k k' : Nat} {α : Type} {x y : Run α} : rel k x y → k ≤ k' → rel k' x y

namespace Context.Evaluates

variable {c : Context} {P : Node → Prop} {rel : Nat → {α : Type} → Run α → Run α → Prop} {k : Nat} {α : Type}

theorem folds (E : c.Evaluates P rel) : c.Folds (rel k) where
  pure := E.pure
  fail := E.fail
  bind := E.bind
  poll := E.poll
  applied _ _ := E.step rfl

theorem valueOf (E : c.Evaluates P rel) (function : String) (r : Except ValueCause α) :
    rel k (Run.valueOf function r) (Run.valueOf function r) :=
  E.folds.valueOf function r

theorem typed (E : c.Evaluates P rel) (function : String) (r : Except TypeCause α) :
    rel k (Run.typed function r) (Run.typed function r) :=
  E.folds.typed function r

theorem macroText (E : c.Evaluates P rel) {n : Node} (hn : P n) (hlooks : n.looksUpMacro = true) (name : String) :
    rel k (macroText name) (macroText name) := by
  refine E.bind (E.scope? name hn hlooks) fun text => ?_
  split
  · exact E.pure _
  · exact E.fail rfl

end Context.Evaluates

/-- The same for a relation that does not look into runs outside of texts, as long as they meet all plain contracts. -/
structure Run.Simulation (rel : Nat → {α : Type} → Run α → Run α → Prop) : Prop where
  plain {k : Nat} {α : Type} {x : Run α} : (∀ {K : Contract}, K.Plain → Meets K x fun _ => True) → rel k x x
  bind {k : Nat} {α β : Type} {x y : Run α} {f g : α → Run β} :
    rel k x y → (∀ a, rel k (f a) (g a)) → rel k (x >>= f) (y >>= g)
  nested {k : Nat} {α : Type} {x y : Run α} (function : String) :
    rel k x y → rel k (Run.nested function x) (Run.nested function y)
  inText {k : Nat} {α : Type} {x y : Run α} : rel k x y → rel (k + 1) (Run.inText x) (Run.inText y)
  mono {k k' : Nat} {α : Type} {x y : Run α} : rel k x y → k ≤ k' → rel k' x y

theorem Run.Simulation.evaluates {rel : Nat → {α : Type} → Run α → Run α → Prop} (S : Simulation rel) (c : Context) :
    c.Evaluates (fun _ => True) rel where
  pure _ := S.plain fun _ => Meets.pure trivial
  fail _ := S.plain fun hK => Meets.fail (hK.fault _)
  bind := S.bind
  poll := S.plain fun hK => Meets.poll hK.usual trivial
  step he := S.plain fun hK => Meets.note (hK.note (Event.isNote_of_isStep he)) trivial
  supplied _ := S.plain fun hK => Meets.note (hK.note rfl) trivial
  random _ := S.plain fun hK => (nextRandom_meets hK.usual _).mono fun _ _ => trivial
  time _ := S.plain fun hK => currentTime_meets hK.usual
  row _ _ := S.plain fun _ => currentRow_meets
  scope? _ _ _ := S.plain fun _ => Meets.scope?
  column _ := S.plain fun hK => Meets.readColumn_plain hK _ _ _
  columnValue _ _ := S.plain fun hK => columnValue_plain hK _ _
  inText := S.inText
  evalText h := S.nested _ (S.inText h)
  mono := S.mono

namespace Node

variable {rel : Nat → {α : Type} → Run α → Run α → Prop} {P : Node → Prop} {c : Context}
  {eval eval' : ValueType → String → Run Value} {e k : Nat}

/-! ### Nodes that can be folded -/

/-- A node that can be folded takes nothing from the row or the world. -/
theorem foldable_simulates (E : c.Evaluates P rel) {n : Node} (h : n.isFoldable = true) :
    rel k (n.value c eval) (n.value c eval') := by
  cases n with
  | host f args =>
    rw [value, value]
    refine E.bind (E.step rfl) fun _ => ?_
    cases hf : f.action with
    | probe =>
      simp only [isFoldable, hf] at h
      exact E.bind (E.step rfl) fun _ => E.bind (firstValue_of_constant_simulates E.folds h) fun _ => E.pure _
    | yields type _ v => exact E.folds.sound _
    | relay type =>
      simp only [isFoldable, hf] at h
      exact E.bind (firstValue_of_constant_simulates E.folds h) fun _ => E.pure _
    | fails _ => exact E.fail rfl
    | row _ => simp [isFoldable, hf] at h
  | _ => exact standard_foldable_simulates E.folds h rfl

/-! ### Evaluation -/

mutual

/-- Texts of a row that are related make all evaluations related, with as many texts as the marks of the node say, if the
parts of the node are in `P`. -/
theorem value_simulates (E : c.Evaluates P rel)
    (heval : ∀ target text, P (.evalText target text) → ∀ s, rel e (eval target s) (eval' target s)) :
    ∀ (n : Node) {k : Nat}, n.textDepth e ≤ k → (∀ m ∈ n.parts, P m) → rel k (n.value c eval) (n.value c eval')
  | .const v, _, _, _ => by
    rw [value, value]
    exact E.pure _
  | .varying v, _, _, hP => by
    rw [value, value]
    simp only [parts, List.forall_mem_singleton] at hP
    exact E.bind (E.supplied hP) fun _ => E.pure _
  | .column source name type, _, _, hP => by
    rw [value, value]
    simp only [parts, List.forall_mem_singleton] at hP
    exact E.bind (E.column hP) fun _ => E.pure _
  | .strict f type args, _, h, hP => by
    rw [value, value]
    simp only [parts, List.forall_mem_cons] at hP
    refine E.bind (values_simulates E heval args h hP.2) fun vs => ?_
    exact E.bind (E.step rfl) fun _ => E.valueOf _ _
  | .aggregate f type args, _, h, hP => by
    rw [value, value]
    simp only [parts, List.forall_mem_cons] at hP
    exact E.bind (polledValues_simulates E heval args h hP.2) fun vs => E.pure _
  | .binomial n m, _, h, hP => by
    rw [value, value]
    obtain ⟨hn, hm⟩ := Nat.max_le.1 h
    simp only [parts, List.forall_mem_cons, List.forall_mem_append] at hP
    refine E.bind (value_simulates E heval n hn hP.2.1) fun x => ?_
    refine E.bind (value_simulates E heval m hm hP.2.2) fun y => ?_
    exact E.bind (E.folds.binomialOf _ _) fun _ => E.pure _
  | .choose type condition yes no, _, h, hP => by
    rw [value, value]
    obtain ⟨hc, h⟩ := Nat.max_le.1 h
    obtain ⟨hy, hn⟩ := Nat.max_le.1 h
    simp only [parts, List.forall_mem_cons, List.forall_mem_append] at hP
    refine E.bind (value_simulates E heval condition hc hP.2.1) fun v => ?_
    split
    · exact value_simulates E heval yes hy hP.2.2.1
    · exact value_simulates E heval no hn hP.2.2.2
    · exact E.pure _
  | .convert function target n, _, h, hP => by
    rw [value, value]
    simp only [parts, List.forall_mem_cons] at hP
    exact E.bind (value_simulates E heval n h hP.2) fun v => E.typed _ _
  | .nested n, k + 1, h, hP => by
    rw [value, value]
    simp only [parts, List.forall_mem_cons] at hP
    exact E.evalText (value_simulates E heval n (Nat.le_of_succ_le_succ h) hP.2)
  | .spliced n, k + 1, h, hP => by
    rw [value, value]
    simp only [parts, List.forall_mem_cons] at hP
    exact E.inText (value_simulates E heval n (Nat.le_of_succ_le_succ h) hP.2)
  | .evalText target text, _, h, hP => by
    rw [value, value]
    obtain ⟨htext, he⟩ := Nat.max_le.1 h
    simp only [parts, List.forall_mem_cons] at hP
    refine E.bind (value_simulates E heval text htext hP.2) fun v => ?_
    split
    · exact E.pure _
    · exact E.mono (heval target text hP.1 _) he
  | .columnNamed target name, _, h, hP => by
    rw [value, value]
    simp only [parts, List.forall_mem_cons] at hP
    refine E.bind (value_simulates E heval name h hP.2) fun v => ?_
    split
    · exact E.pure _
    · exact E.columnValue _ hP.1
  | .macroNamed name, _, h, hP => by
    rw [value, value]
    simp only [parts, List.forall_mem_cons] at hP
    refine E.bind (value_simulates E heval name h hP.2) fun v => ?_
    split
    · exact E.pure _
    · exact E.bind (E.macroText hP.1 rfl _) fun _ => E.pure _
  | .macroOr name default, _, h, hP => by
    rw [value, value]
    obtain ⟨hn, hd⟩ := Nat.max_le.1 h
    simp only [parts, List.forall_mem_cons, List.forall_mem_append] at hP
    refine E.bind (value_simulates E heval name hn hP.2.1) fun v => ?_
    split
    · exact E.pure _
    · refine E.bind (E.scope? _ hP.1 rfl) fun text => ?_
      split
      · exact E.pure _
      · exact value_simulates E heval default hd hP.2.2
  | .refuse function cause, _, _, _ => by
    rw [value, value]
    exact E.fail rfl
  | .now, _, _, hP => by
    rw [value, value]
    simp only [parts, List.forall_mem_singleton] at hP
    exact E.bind (E.time hP) fun _ => E.pure _
  | .random stream, _, _, hP => by
    rw [value, value]
    simp only [parts, List.forall_mem_singleton] at hP
    exact E.random hP
  | .seeded seed, _, h, hP => by
    rw [value, value]
    simp only [parts, List.forall_mem_cons] at hP
    exact E.bind (value_simulates E heval seed h hP.2) fun v => E.pure _
  | .parameter operator name, _, h, hP => by
    rw [value, value]
    obtain ⟨ho, hn⟩ := Nat.max_le.1 h
    simp only [parts, List.forall_mem_cons, List.forall_mem_append] at hP
    refine E.bind (value_simulates E heval operator ho hP.2.1) fun o => ?_
    exact E.bind (value_simulates E heval name hn hP.2.2) fun n => E.folds.parameterText _ _
  | .host f args, k, h, hP => by
    rw [value, value]
    simp only [parts, List.forall_mem_cons] at hP
    refine E.bind (E.step rfl) fun _ => ?_
    cases hf : f.action with
    | probe =>
      refine E.bind (E.step rfl) fun _ => ?_
      exact E.bind (firstValue_simulates E heval f.name .number args h hP.2) fun _ => E.pure _
    | yields type _ v => exact E.folds.sound _
    | relay type =>
      exact E.bind (firstValue_simulates E heval f.name type.storage args h hP.2) fun _ => E.pure _
    | fails _ => exact E.fail rfl
    | row _ => exact E.bind (E.row hP.1 hf) fun _ => E.pure _

theorem values_simulates (E : c.Evaluates P rel)
    (heval : ∀ target text, P (.evalText target text) → ∀ s, rel e (eval target s) (eval' target s)) :
    ∀ (ns : List Node) {k : Nat}, textDepthAll e ns ≤ k → (∀ m ∈ allParts ns, P m) →
      rel k (values c eval ns) (values c eval' ns)
  | [], _, _, _ => by
    rw [values, values]
    exact E.pure _
  | n :: ns, _, h, hP => by
    rw [values, values]
    obtain ⟨hn, hns⟩ := Nat.max_le.1 h
    simp only [allParts, List.forall_mem_append] at hP
    refine E.bind (value_simulates E heval n hn hP.1) fun v => ?_
    exact E.bind (values_simulates E heval ns hns hP.2) fun vs => E.pure _

theorem polledValues_simulates (E : c.Evaluates P rel)
    (heval : ∀ target text, P (.evalText target text) → ∀ s, rel e (eval target s) (eval' target s)) :
    ∀ (ns : List Node) {k : Nat}, textDepthAll e ns ≤ k → (∀ m ∈ allParts ns, P m) →
      rel k (polledValues c eval ns) (polledValues c eval' ns)
  | [], _, _, _ => by
    rw [polledValues, polledValues]
    exact E.pure _
  | n :: ns, _, h, hP => by
    rw [polledValues, polledValues]
    obtain ⟨hn, hns⟩ := Nat.max_le.1 h
    simp only [allParts, List.forall_mem_append] at hP
    refine E.bind E.poll fun _ => E.bind (value_simulates E heval n hn hP.1) fun v => ?_
    exact E.bind (polledValues_simulates E heval ns hns hP.2) fun vs => E.pure _

theorem firstValue_simulates (E : c.Evaluates P rel)
    (heval : ∀ target text, P (.evalText target text) → ∀ s, rel e (eval target s) (eval' target s)) (function : String)
    (storage : Storage) : ∀ (ns : List Node) {k : Nat}, textDepthAll e ns ≤ k → (∀ m ∈ allParts ns, P m) →
      rel k (firstValue c eval function storage ns) (firstValue c eval' function storage ns)
  | [], _, _, _ => by
    rw [firstValue, firstValue]
    exact E.fail rfl
  | n :: ns, _, h, hP => by
    rw [firstValue, firstValue]
    simp only [allParts, List.forall_mem_append] at hP
    unfold request
    split
    · exact value_simulates E heval n (Nat.max_le.1 h).1 hP.1
    · exact E.fail rfl

end

end Node

end Rowwise
