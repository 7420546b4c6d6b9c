import Rowwise.Eval.Compile
import Rowwise.Proofs.Evaluation.Contract
import Rowwise.Proofs.Evaluation.Steps
import Rowwise.Proofs.Numbers.Values

/-!
# Rowwise.Proofs.Evaluation.Building — what every built node has

A property of nodes that constants and columns have and that every kind of node passes on from its parts, all nodes that
are built have; and a relation between runs that the ways to build nodes keep holds between any two runs that build a node
and differ in how they read the texts within the expression (`Context.Builds`).  To meet a contract is one such relation
(`Contract.Usual.relates`).  Each builder stands behind checks of arity and types; what they establish is given to
the node that is built, and no builder misses an argument.
-/

namespace Rowwise

/-! ### Checks of constants -/

namespace ConstantCheck

theorem judged_proper {α : Type} {x : Except ValueCause α} (h : Proper (fun _ => True) x) :
    Proper (fun _ => True) (judged x) :=
  h.map fun _ _ => trivial

theorem onText_proper {α : Type} (constants : List (Option Value)) (place : Nat) {read : String → Except ValueCause α}
    (h : ∀ s, Proper (fun _ => True) (read s)) : Proper (fun _ => True) (onText constants place read) := by
  unfold onText
  split
  · exact judged_proper (h _)
  · trivial

theorem checkField_proper (constants : List (Option Value)) (place unitPlace : Nat) (ofDay : Bool) :
    Proper (fun _ => True) (checkField constants place unitPlace ofDay) := by
  unfold checkField
  split
  · split
    · trivial
    · show Proper _ (if _ then _ else _)
      split
      · exact (readUnitOfDay_proper false _).bind fun unit _ => judged_proper (onCalendar_proper _)
      · exact (readUnit_proper _).bind fun unit _ => judged_proper (onCalendar_proper _)
  · trivial

/-- The place of a pattern must be one of an argument. -/
theorem run_proper {constants : List (Option Value)} {check : ConstantCheck}
    (h : ∀ place whole, check = .regex place whole → place < constants.length) :
    Proper (fun _ => True) (check.run constants) := by
  cases check with
  | unit place => exact onText_proper constants place readUnit_proper
  | unitOfDay place days => exact onText_proper constants place (readUnitOfDay_proper days)
  | zone place => exact onText_proper constants place readZone_proper
  | locale place => exact onText_proper constants place readLocale_proper
  | datePattern place => exact onText_proper constants place (readItems_proper .posix)
  | field place unitPlace ofDay => exact checkField_proper constants place unitPlace ofDay
  | regex place whole =>
    rw [run, if_pos (h place whole rfl)]
    exact onText_proper constants place (readPattern_proper whole)

theorem forM_proper (constants : List (Option Value)) (checks : List ConstantCheck)
    (h : ∀ place whole, .regex place whole ∈ checks → place < constants.length) :
    Proper (fun _ => True) (checks.forM fun check => check.run constants) := by
  induction checks with
  | nil => trivial
  | cons check checks ih =>
    refine (run_proper fun place whole hc => h place whole (hc ▸ List.mem_cons_self)).bind fun _ _ => ?_
    exact ih fun place whole hc => h place whole (List.mem_cons_of_mem _ hc)

end ConstantCheck

namespace Node

/-! ### What the checks establish -/

theorem numeric_of_params {i : Nat} {args : List Node} (h : badParam? i [.number] (args.map type) = none) :
    ∀ t ∈ args.map type, t.isNumeric = true :=
  badParam?_last.1 h

theorem length_of_takes {f : NumberFunction} {n : Nat} (h : f.takes n = true) : n = 1 ∨ n = 2 := by
  match n, h with
  | 0, h => cases f <;> exact absurd h Bool.false_ne_true
  | 1, _ => exact Or.inl rfl
  | 2, _ => exact Or.inr rfl
  | n + 3, h => cases f <;> exact absurd h Bool.false_ne_true

theorem powerType_numeric (base exponent : Node) : (powerType base exponent).isNumeric = true := by
  unfold powerType
  split
  · split <;> rfl
  · rfl

/-- The type of the results of a function of values, for nodes as its arguments. -/
def strictType (f : StrictFunction) (args : List Node) : ValueType :=
  match f, args with
  | .number .power, [base, exponent] => powerType base exponent
  | .number f, args => f.result (args.map type)
  | .join, _ => .text
  | .text f, _ => f.result
  | .calendar f, _ => f.result
  | _, _ => .boolean

theorem checks_within (f : TextFunction) {n : Nat} (harity : f.signature.arity.accepts n = true) {place : Nat}
    {whole : Bool} (h : .regex place whole ∈ f.checks) : place < n := by
  cases f with
  | replaceAll =>
    have hn := length_of_exact harity
    simp [TextFunction.checks] at h
    omega
  | wholeMatch | partMatch =>
    have hn := length_of_exact harity
    simp [TextFunction.checks] at h
    omega
  | _ => simp [TextFunction.checks] at h

end Node

theorem Context.mem_of_function? {c : Context} {name : String} {f : Callable} (h : c.function? name = some f) :
    f ∈ c.callables :=
  List.mem_reverse.1 (List.mem_of_find?_eq_some h)

theorem Context.mem_of_builtin {c : Context} {b : Builtin} (h : .builtin b ∈ c.callables) :
    b ∈ Builtin.standard ++ Builtin.ofHost := by
  simp only [callables, List.mem_append, List.mem_map, Callable.builtin.injEq, exists_eq_right, reduceCtorEq,
    and_false, exists_false, or_false] at h ⊢
  refine h.imp id fun hhost => ?_
  split at hhost
  · simpa using hhost
  · cases hhost

/-- The value is as values of its type are meant to be, or the context has it under a name. -/
def Context.Offers (c : Context) (v : Value) : Prop :=
  v.IsWhole ∨ (∃ b ∈ c.bindings, b.value = v) ∨ ∃ k ∈ c.constants, k.value = v

/-! ### Relations that building keeps -/

/-- A relation between runs, with a property of their results, which the ways to build nodes keep. -/
structure Run.Relates (rel : {α : Type} → Run α → Run α → (α → Prop) → Prop) : Prop where
  pure {α : Type} {a : α} {Q : α → Prop} : Q a → rel (Pure.pure a) (Pure.pure a) Q
  fail {α : Type} {f : Fault} {Q : α → Prop} : f.isOrdinary = true → rel (Run.fail f) (Run.fail f) Q
  bind {α β : Type} {x y : Run α} {f g : α → Run β} {P : α → Prop} {Q : β → Prop} :
    rel x y P → (∀ a, P a → rel (f a) (g a) Q) → rel (x >>= f) (y >>= g) Q
  mono {α : Type} {x y : Run α} {P Q : α → Prop} : rel x y P → (∀ a, P a → Q a) → rel x y Q
  within {α : Type} {x y : Run α} {Q : α → Prop} (function : String) :
    rel x y Q → rel (Run.nested function x) (Run.nested function y) Q
  scope? (name : String) : rel (Run.scope? name) (Run.scope? name) fun _ => True
  newStream (seed : Nat) : rel (Node.newStream seed) (Node.newStream seed) fun _ => True

namespace Run.Relates

variable {rel : {α : Type} → Run α → Run α → (α → Prop) → Prop} {α : Type} {Q : α → Prop}

theorem valueOf_proper (S : Relates rel) {function : String} {r : Except ValueCause α} (h : Proper Q r) :
    rel (Run.valueOf function r) (Run.valueOf function r) Q := by
  cases r with
  | ok a => exact S.pure h
  | error cause => exact S.fail (Fault.isOrdinary_ofCause h function)

end Run.Relates

theorem Run.Meets.newStream {K : Contract} (hK : K.Usual) {seed : Nat} : Meets K (Node.newStream seed) fun _ => True := by
  refine Meets.bind (P := fun _ => True) (Meets.note (hK.note rfl) trivial) fun _ _ => ?_
  refine Meets.bind (P := fun _ => True) (Meets.world fun _ _ => trivial) fun w _ => ?_
  exact Meets.bind (P := fun _ => True) (Meets.alter (hK.streams _) trivial) fun _ _ => Meets.pure trivial

/-- To meet a contract is a relation, although the other run does not matter. -/
theorem Contract.Usual.relates {K : Contract} (hK : K.Usual) : Run.Relates fun x _ Q => Run.Meets K x Q where
  pure h := Run.Meets.pure h
  fail hf := Run.Meets.fail (hK.fault (Fault.isDefect_of_ordinary hf))
  bind hx hf := hx.bind hf
  mono h hQ := h.mono hQ
  within _ h := h.nested hK
  scope? _ := Run.Meets.scope?
  newStream _ := Run.Meets.newStream hK

theorem Run.Meets.buildHost {K : Contract} (hK : K.Usual) {c : Context} {f : HostFunction} {args : List Node}
    {P : Node → Prop} (h : Meets K ((Node.host f args).fold c) P) : Meets K (Node.buildHost c f args) P :=
  Meets.bind (P := fun _ => True) (Meets.note (hK.note rfl) trivial) fun _ _ => h

theorem Run.Meets.columnOf? {K : Contract} {P : Node → Prop} {s : String}
    (h : ∀ w source type, K.holds w → w.column? s = some (source, type) → P (.column source s type)) :
    Meets K (Node.columnOf? s) fun n? => ∀ n, n? = some n → P n := by
  refine Meets.bind (Meets.world (Q := K.holds) fun _ hw => hw) fun w hw => Meets.pure ?_
  intro n hn
  obtain ⟨⟨source, type⟩, hcol, rfl⟩ := Option.map_eq_some_iff.1 hn
  exact h w source type hw hcol

/-- Two ways to read texts within the expression are related and yield nodes with the property `R`.  Then the nodes of standard
functions are built by related runs and have the property `P`; `T` says what is known of the types of nodes. -/
structure Context.BuildsStandard (c : Context) (rel : {α : Type} → Run α → Run α → (α → Prop) → Prop) (P R : Node → Prop)
    (T : ValueType → Node → Prop) (read read' : String → Run Node) : Prop extends Run.Relates rel where
  read (s : String) : rel (read s) (read' s) R
  columnOf? (s : String) : rel (Node.columnOf? s) (Node.columnOf? s) fun n? => ∀ n, n? = some n → P n
  fold {n : Node} {t : ValueType} : P n → T t n → rel (n.fold c) (n.fold c) fun m => P m ∧ T t m
  typed (n : Node) : T n.type n
  const {v : Value} : c.Offers v → P (.const v)
  varying {v : Value} : c.Offers v → P (.varying v)
  nested {n : Node} : R n → P (n.marked .nested)
  spliced {n : Node} : R n → P (n.marked .spliced)
  strict {f : StrictFunction} {type : ValueType} {args : List Node} :
    (∀ n ∈ args, P n) → type = Node.strictType f args → f.Fits type (args.map Node.type) → P (.strict f type args)
  aggregate {f : Aggregate} {type : ValueType} {args : List Node} :
    (∀ n ∈ args, P n) → type = f.result (args.map Node.type) → f.Fits type → P (.aggregate f type args)
  binomial {n k : Node} : P n → P k → P (.binomial n k)
  choose {type : ValueType} {condition yes no : Node} :
    P condition → P yes → P no → T type yes → T type no → P (.choose type condition yes no)
  convert {function : String} {target : ValueType} {n : Node} :
    P n → n.type.castable target = true → P (.convert function target n)
  evalText {target : ValueType} {text : Node} : P text → P (.evalText target text)
  columnNamed {target : ValueType} {name : Node} : P name → P (.columnNamed target name)
  macroNamed {name : Node} : P name → P (.macroNamed name)
  macroOr {name default : Node} : P name → P default → default.type = .text → P (.macroOr name default)
  refuse (function : String) (cause : TypeCause) : P (.refuse function cause)
  now : P .now
  random (stream : Nat) : P (.random stream)
  seeded {seed : Node} : P seed → P (.seeded seed)
  parameter {operator name : Node} : P operator → P name → P (.parameter operator name)

/-- The same of all nodes, also those that functions of the host build. -/
structure Context.Builds (c : Context) (rel : {α : Type} → Run α → Run α → (α → Prop) → Prop) (P R : Node → Prop)
    (T : ValueType → Node → Prop) (read read' : String → Run Node) : Prop
    extends Context.BuildsStandard c rel P R T read read' where
  host {f : HostFunction} {args : List Node} : f ∈ c.functions → (∀ n ∈ args, P n) →
    rel (Node.buildHost c f args) (Node.buildHost c f args) P

section Relates

variable {c : Context} {rel : {α : Type} → Run α → Run α → (α → Prop) → Prop} {read read' : String → Run Node}

/-- A relation that says nothing about nodes is kept by the builders of standard functions if folding and looking up columns
keep it. -/
theorem Run.Relates.buildsStandard (S : Run.Relates rel) (hread : ∀ s, rel (read s) (read' s) fun _ => True)
    (hcolumn : ∀ s, rel (Node.columnOf? s) (Node.columnOf? s) fun _ => True)
    (hfold : ∀ n : Node, rel (n.fold c) (n.fold c) fun _ => True) :
    c.BuildsStandard rel (fun _ => True) (fun _ => True) (fun _ _ => True) read read' where
  toRelates := S
  read := hread
  columnOf? s := S.mono (hcolumn s) fun _ _ _ _ => trivial
  fold {n _} _ _ := S.mono (hfold n) fun _ _ => ⟨trivial, trivial⟩
  typed _ := trivial
  const _ := trivial
  varying _ := trivial
  nested _ := trivial
  spliced _ := trivial
  strict _ _ _ := trivial
  aggregate _ _ _ := trivial
  binomial _ _ := trivial
  choose _ _ _ _ _ := trivial
  convert _ _ := trivial
  evalText _ := trivial
  columnNamed _ := trivial
  macroNamed _ := trivial
  macroOr _ _ _ := trivial
  refuse _ _ := trivial
  now := trivial
  random _ := trivial
  seeded _ := trivial
  parameter _ _ := trivial

/-- It is kept by all builders if noting the calls of the host keeps it too. -/
theorem Run.Relates.builds (S : Run.Relates rel) (hread : ∀ s, rel (read s) (read' s) fun _ => True)
    (hcolumn : ∀ s, rel (Node.columnOf? s) (Node.columnOf? s) fun _ => True)
    (hfold : ∀ n : Node, rel (n.fold c) (n.fold c) fun _ => True)
    (hbuilt : ∀ f isConstant, rel (Run.note (.built f isConstant)) (Run.note (.built f isConstant)) fun _ => True) :
    c.Builds rel (fun _ => True) (fun _ => True) (fun _ _ => True) read read' where
  toBuildsStandard := S.buildsStandard hread hcolumn hfold
  host _ _ := S.bind (hbuilt _ _) fun _ _ => hfold _

end Relates

namespace Context.BuildsStandard

open Run Node

variable {c : Context} {rel : {α : Type} → Run α → Run α → (α → Prop) → Prop} {P R : Node → Prop}
  {T : ValueType → Node → Prop} {read read' : String → Run Node} (B : c.BuildsStandard rel P R T read read')

include B

/-! ### Steps of building -/

theorem checkParams_related (function : String) (args : List Node) (params : List Param) :
    rel (checkParams function args params) (checkParams function args params) fun _ =>
      badParam? 1 params (args.map type) = none := by
  unfold checkParams
  split
  · exact B.fail rfl
  · rename_i h
    exact B.pure h

theorem checkConstants_related {function : String} {args : List Node} {checks : List ConstantCheck}
    (h : ∀ place whole, .regex place whole ∈ checks → place < args.length) :
    rel (checkConstants function args checks) (checkConstants function args checks) fun _ => True :=
  B.valueOf_proper (ConstantCheck.forM_proper _ _ (by simpa using h))

theorem converted_related {n : Node} (h : P n) (function : String) (target : ValueType) :
    rel (converted c function n target) (converted c function n target) fun m => P m ∧ T target m := by
  unfold converted
  split
  · rename_i hcast
    split
    · rename_i htype
      exact B.pure ⟨h, htype ▸ B.typed n⟩
    · exact B.fold (B.convert h hcast) (B.typed (.convert function target n))
  · exact B.fail rfl

theorem convertedIf_related {n : Node} (h : P n) (function : String) (target : Option ValueType) :
    rel (convertedIf c function n target) (convertedIf c function n target) P := by
  cases target with
  | none => exact B.pure h
  | some t => exact B.mono (B.converted_related h function t) fun _ hm => hm.1

theorem targetType_related (function : String) (n? : Option Node) :
    rel (targetType function n?) (targetType function n?) fun _ => True := by
  unfold targetType
  split
  · exact B.pure trivial
  · split
    · exact B.fail rfl
    · split
      · exact B.fail rfl
      · split
        · exact B.fail rfl
        · split
          · exact B.pure trivial
          · exact B.fail rfl

/-! ### Builders -/

theorem buildChoose_related {condition yes no : Node} (hc : P condition) (hy : P yes) (hn : P no) :
    rel (buildChoose c condition yes no) (buildChoose c condition yes no) P := by
  refine B.bind (B.converted_related hy _ _) fun yes' hyes => B.bind (B.converted_related hn _ _) fun no' hno => ?_
  split
  · split
    · exact B.pure hyes.1
    · exact B.pure hno.1
    · exact B.pure (B.const (.inl (Value.isWhole_missing _)))
  · exact B.pure (B.choose hc hyes.1 hno.1 hyes.2 hno.2)

theorem buildOrder_related (o : Order) {a b : Node} (ha : P a) (hb : P b) : rel (buildOrder o a b) (buildOrder o a b) P := by
  unfold buildOrder
  simp only
  split
  · split
    · exact B.fail rfl
    · exact B.pure (B.refuse _ _)
  · split
    · exact B.fail rfl
    · split
      · exact B.pure (B.const (.inl trivial))
      · exact B.pure (B.strict (by simpa using ⟨ha, hb⟩) rfl StrictFunction.fits_order)

theorem readText_related (s : String) : rel (readText read s) (readText read' s) R := by
  unfold readText
  simp only
  split
  · exact B.fail rfl
  · exact B.within _ (B.read s)

theorem buildEval_related {text : Node} (ht : P text) (typeNode : Option Node) :
    rel (buildEval c read text typeNode) (buildEval c read' text typeNode) P := by
  refine B.bind (B.targetType_related _ typeNode) fun target _ => ?_
  split
  · split
    · exact B.pure (B.const (.inl (Value.isWhole_missing _)))
    · exact B.bind (B.readText_related _) fun n hn => B.convertedIf_related (B.nested hn) _ target
  · split
    · exact B.pure (B.evalText ht)
    · exact B.fail rfl

theorem buildColumn_related {nameNode : Node} (hn : P nameNode) (typeNode : Option Node) :
    rel (buildColumn c nameNode typeNode) (buildColumn c nameNode typeNode) P := by
  refine B.bind (B.targetType_related _ typeNode) fun target _ => ?_
  split
  · split
    · exact B.fail rfl
    · refine B.bind (B.columnOf? _) fun n? hcol => ?_
      split
      · exact B.convertedIf_related (hcol _ rfl) _ target
      · exact B.fail rfl
  · split
    · exact B.pure (B.columnNamed hn)
    · exact B.fail rfl

theorem buildMacro_related {nameNode : Node} (hn : P nameNode) {default : Option Node}
    (hd : ∀ n, default = some n → P n ∧ n.type = .text) :
    rel (buildMacro nameNode default) (buildMacro nameNode default) P := by
  unfold buildMacro
  split
  · split
    · exact B.fail rfl
    · refine B.bind (B.scope? _) fun text _ => ?_
      split
      · exact B.pure (B.const (.inl trivial))
      · exact B.pure (hd _ rfl).1
      · exact B.pure (B.const (.inl trivial))
      · exact B.fail rfl
  · split
    · exact B.pure (B.macroOr hn (hd _ rfl).1 (hd _ rfl).2)
    · exact B.pure (B.macroNamed hn)

theorem buildRandom_related (host : Host) {seed : Option Node} (hs : ∀ n, seed = some n → P n) :
    rel (buildRandom host seed) (buildRandom host seed) P := by
  unfold buildRandom
  simp only
  split
  · exact B.pure (B.seeded (hs _ rfl))
  · exact B.bind (B.newStream _) fun _ _ => B.pure (B.random _)

theorem number_holds {f : NumberFunction} {args : List Node} (h : ∀ n ∈ args, P n)
    (htakes : f.takes args.length = true) (hnumeric : ∀ t ∈ args.map type, t.isNumeric = true)
    (htype : f.result (args.map type) = strictType (.number f) args) : P (Node.number f args) :=
  B.strict h htype (StrictFunction.fits_number (by simpa using htakes) (f.result_numeric hnumeric))

/-! ### Calls -/

/-- A named function of numbers. -/
theorem buildNumber_related {f : NumberFunction} (hf : f ∈ Builtin.numbers) {args : List Node}
    (harity : f.signature.arity.accepts args.length = true) (h : ∀ n ∈ args, P n) :
    rel (buildStandard c read (.number f) args) (buildStandard c read' (.number f) args) P := by
  have htakes := NumberFunction.takes_of_accepts hf harity
  refine B.bind (B.checkParams_related _ args _) fun _ hparams => ?_
  have hnumber := B.number_holds h htakes (numeric_of_params hparams)
  rcases length_of_takes htakes with hlen | hlen
  · obtain ⟨x, rfl⟩ := List.length_eq_one_iff.1 hlen
    cases f <;> exact B.pure (hnumber rfl)
  · obtain ⟨x, y, rfl⟩ := List.length_eq_two.1 hlen
    cases f with
    | power => exact B.pure (B.strict h rfl (StrictFunction.fits_number rfl (powerType_numeric x y)))
    | _ => exact B.pure (hnumber rfl)

theorem buildPlus_related {args : List Node} (harity : Builtin.plus.signature.arity.accepts args.length = true)
    (h : ∀ n ∈ args, P n) : rel (buildStandard c read .plus args) (buildStandard c read' .plus args) P := by
  match args, harity with
  | [n], _ => exact B.bind (B.checkParams_related _ _ _) fun _ _ => B.pure (h n List.mem_cons_self)
  | [a, b], _ =>
    show rel (if _ then _ else _) (if _ then _ else _) _
    split
    · exact B.pure (B.strict h rfl StrictFunction.fits_join)
    · exact B.bind (B.checkParams_related _ _ _) fun _ hparams =>
        B.pure (B.number_holds h rfl (numeric_of_params hparams) rfl)

theorem buildMinus_related {args : List Node} (harity : Builtin.minus.signature.arity.accepts args.length = true)
    (h : ∀ n ∈ args, P n) : rel (buildStandard c read .minus args) (buildStandard c read' .minus args) P := by
  match args, harity with
  | [n], _ =>
    exact B.bind (B.checkParams_related _ _ _) fun _ hparams => B.pure (B.number_holds h rfl (numeric_of_params hparams) rfl)
  | [a, b], _ =>
    exact B.bind (B.checkParams_related _ _ _) fun _ hparams => B.pure (B.number_holds h rfl (numeric_of_params hparams) rfl)

theorem buildText_related {f : TextFunction} {args : List Node} (harity : f.signature.arity.accepts args.length = true)
    (h : ∀ n ∈ args, P n) :
    rel (buildStandard c read (.text f) args) (buildStandard c read' (.text f) args) P := by
  refine B.bind (B.checkParams_related _ args _) fun _ hparams => ?_
  refine B.bind (B.checkConstants_related fun place whole hc => checks_within f harity hc) fun _ _ => ?_
  exact B.pure (B.strict h rfl (StrictFunction.fits_text (by simpa using harity) hparams))

theorem buildCalendar_related {f : CalendarFunction} {args : List Node}
    (harity : f.signature.arity.accepts args.length = true) (h : ∀ n ∈ args, P n) :
    rel (buildStandard c read (.calendar f) args) (buildStandard c read' (.calendar f) args) P := by
  refine B.bind (B.checkParams_related _ args _) fun _ hparams => ?_
  refine B.bind (B.checkConstants_related fun place whole hc => ?_) fun _ _ => ?_
  · cases f <;> simp [CalendarFunction.checks] at hc
  · exact B.pure (B.strict h rfl (StrictFunction.fits_calendar (by simpa using harity) hparams))

theorem buildAggregate_related {f : Aggregate} {args : List Node} (h : ∀ n ∈ args, P n) :
    rel (buildStandard c read (.aggregate f) args) (buildStandard c read' (.aggregate f) args) P := by
  refine B.bind (B.checkParams_related _ args _) fun _ hparams => ?_
  have hjoin : ((args.map type).foldl ValueType.join .integer).isNumeric = true :=
    NumberFunction.foldl_join_numeric _ rfl
  cases f with
  | concat => exact B.pure (B.aggregate h rfl Aggregate.fits_concat)
  | mean => exact B.pure (B.aggregate h rfl (Aggregate.fits_number (by decide) rfl))
  | least | greatest | sum => exact B.pure (B.aggregate h rfl (Aggregate.fits_number (by decide) hjoin))

theorem buildStandard_related {b : Builtin} (hb : b ∈ Builtin.standard ++ Builtin.ofHost) {args : List Node}
    (harity : b.signature.arity.accepts args.length = true) (h : ∀ n ∈ args, P n) :
    rel (buildStandard c read b args) (buildStandard c read' b args) P := by
  cases b with
  | plus => exact B.buildPlus_related harity h
  | minus => exact B.buildMinus_related harity h
  | number f =>
    have hf : f ∈ Builtin.numbers := by simpa [Builtin.standard, Builtin.ofHost] using hb
    exact B.buildNumber_related hf harity h
  | order o =>
    have hlen : args.length = 2 := by cases o <;> exact length_of_exact harity
    obtain ⟨x, y, rfl⟩ := List.length_eq_two.1 hlen
    exact B.bind (B.checkParams_related _ _ _) fun _ _ => B.buildOrder_related o (h x (by simp)) (h y (by simp))
  | equality negated =>
    have hlen : args.length = 2 := by cases negated <;> exact length_of_exact harity
    exact B.bind (B.checkParams_related _ _ _) fun _ _ =>
      B.pure (B.strict h rfl (StrictFunction.fits_equality (by simpa using hlen)))
  | logic l =>
    exact B.bind (B.checkParams_related _ _ _) fun _ _ =>
      B.pure (B.strict h rfl (StrictFunction.fits_logic (by rw [List.length_map]; exact harity)))
  | isMissing =>
    have hlen := length_of_exact harity
    exact B.bind (B.checkParams_related _ _ _) fun _ _ =>
      B.pure (B.strict h rfl (StrictFunction.fits_isMissing (by simpa using hlen)))
  | text f => exact B.buildText_related harity h
  | calendar f => exact B.buildCalendar_related harity h
  | aggregate f => exact B.buildAggregate_related h
  | binomial =>
    obtain ⟨n, k, rfl⟩ := List.length_eq_two.1 (length_of_exact harity)
    exact B.bind (B.checkParams_related _ _ _) fun _ _ =>
      B.pure (B.binomial (h n (by simp)) (h k (by simp)))
  | choose =>
    obtain ⟨x, y, z, rfl⟩ := List.length_eq_three.1 (length_of_exact harity)
    exact B.bind (B.checkParams_related _ _ _) fun _ _ =>
      B.buildChoose_related (h x (by simp)) (h y (by simp)) (h z (by simp))
  | eval =>
    match args, harity with
    | text :: rest, _ =>
      exact B.bind (B.checkParams_related _ _ _) fun _ _ => B.buildEval_related (h text (by simp)) _
  | columnNamed =>
    match args, harity with
    | name :: rest, _ =>
      exact B.bind (B.checkParams_related _ _ _) fun _ _ => B.buildColumn_related (h name (by simp)) _
  | macroNamed =>
    match args, harity with
    | name :: rest, _ =>
      refine B.bind (B.checkParams_related _ _ _) fun _ hparams => B.buildMacro_related (h name (by simp)) fun n hn => ?_
      have hmem : n ∈ name :: rest := List.mem_cons_of_mem _ (List.mem_of_head? hn)
      exact ⟨h n hmem, of_decide_eq_true (badParam?_last.1 hparams _ (List.mem_map_of_mem hmem))⟩
  | now => exact B.bind (B.checkParams_related _ _ _) fun _ _ => B.pure B.now
  | random =>
    exact B.bind (B.checkParams_related _ _ _) fun _ _ =>
      B.buildRandom_related _ fun n hn => h n (List.mem_of_head? hn)
  | parameter =>
    obtain ⟨o, p, rfl⟩ := List.length_eq_two.1 (length_of_exact harity)
    exact B.bind (B.checkParams_related _ _ _) fun _ _ =>
      B.pure (B.parameter (h o (by simp)) (h p (by simp)))

end Context.BuildsStandard

namespace Context.Builds

open Run Node

variable {c : Context} {rel : {α : Type} → Run α → Run α → (α → Prop) → Prop} {P R : Node → Prop}
  {T : ValueType → Node → Prop} {read read' : String → Run Node} (B : c.Builds rel P R T read read')

include B

theorem build_related {f : Callable} (hf : f ∈ c.callables) {args : List Node} (h : ∀ n ∈ args, P n) :
    rel (build c read f args) (build c read' f args) P := by
  show rel (if _ then _ else _) (if _ then _ else _) _
  split
  · exact B.fail rfl
  · rename_i harity
    have harity : f.signature.arity.accepts args.length = true := by simpa using harity
    cases f with
    | builtin b =>
      refine B.bind (B.buildStandard_related (mem_of_builtin hf) harity h) fun n hn => ?_
      exact B.mono (B.fold hn (B.typed n)) fun _ hm => hm.1
    | host f => exact B.host (by simpa [callables] using hf) h

theorem callWith_related (name : String) {args : List Node} (h : ∀ n ∈ args, P n) :
    rel (c.callWith read name args) (c.callWith read' name args) P := by
  unfold callWith
  split
  · rename_i f hf
    exact B.build_related (mem_of_function? hf) h
  · exact B.fail rfl

end Context.Builds

end Rowwise
