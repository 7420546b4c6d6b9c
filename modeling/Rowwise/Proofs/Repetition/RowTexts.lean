import Mathlib
import Rowwise.Proofs.Constancy.Folding
import Rowwise.Proofs.Repetition.Sights
import Rowwise.Proofs.Texts.Limit
import Rowwise.Proofs.Typing.Soundness

/-!
# Rowwise.Proofs.Repetition.RowTexts — a text of a row means what it means as a constant

A call of `eval` reads a constant text when it is parsed, and converts the node that it gets by its type; a text that a row
supplies it reads in the row, and converts the value that it gets.  Both come to the same (`Context.eval_row_eq_constant`): the
text is read to the same node whatever the row is, and what a node yields has the type of the node.
-/

namespace Rowwise

open Run Node

variable {c : Context} {w₀ w₁ w₂ : World} {target : ValueType} {s : String} {n : Node} {fuel : Nat}

/-! ### Calls of `eval` -/

namespace Context

/-- What a call of `eval` builds of a constant text. -/
def builtText (c : Context) (target : ValueType) : Option String → Run Node
  | none => return .const (.missing target)
  | some s => do converted c Builtin.eval.name ((← readText c.readInner s).marked .nested) target

/-- What a call of `eval` does in a row that supplies a text. -/
def suppliedText (c : Context) (fuel : Nat) (target : ValueType) : Option String → Run Value
  | none => return .missing target
  | some s => c.rowText fuel target s

/-- What is left to do with the node of a text: its value is found within the text and converted. -/
def textValue (c : Context) (fuel : Nat) (target : ValueType) (n : Node) : Run Value := do
  let v ← Run.nested Builtin.eval.name (Run.inText (c.evaluateWithin fuel n))
  Run.typed Builtin.eval.name (v.cast c.options.zone target)

theorem rowText_succ (fuel : Nat) (target : ValueType) (s : String) :
    c.rowText (fuel + 1) target s = readText c.readInner s >>= c.textValue fuel target := rfl

/-- The text calls `eval`, and in the world its arguments are read to the node and to the name of the type. -/
def CallsEval (c : Context) (text : String) (w : World) (n : Node) (target : ValueType) : Prop :=
  ∃ args, Expr.parse c.options.nestingLimit text = .ok (.call Builtin.eval.name args) ∧
    ((c.compileAll c.readInner args).exec w).1 = .ok [n, .const (.text (some target.name))]

theorem targetType_name (htarget : target ∈ ValueType.targets) (function : String) :
    targetType function (some (.const (.text (some target.name)))) = pure (some target) := by
  have hnamed : ValueType.named? target.name.toList = some target := by
    revert htarget
    cases target <;> decide
  simp only [targetType, constant?, Value.text?, hnamed, if_pos htarget]

/-- A call of `eval` with the name of a type passes all checks. -/
theorem callWith_eval (heval : c.function? Builtin.eval.name = some (.builtin .eval)) (htype : n.type = .text) :
    c.callWith c.readInner Builtin.eval.name [n, .const (.text (some target.name))] =
      buildEval c c.readInner n (some (.const (.text (some target.name)))) >>= fun m => m.fold c := by
  have hcall : c.callWith c.readInner Builtin.eval.name [n, .const (.text (some target.name))] =
      buildStandard c c.readInner .eval [n, .const (.text (some target.name))] >>= fun m => m.fold c := by
    rw [callWith, heval]
    rfl
  have hstandard : buildStandard c c.readInner .eval [n, .const (.text (some target.name))] =
      checkParams Builtin.eval.name [n, .const (.text (some target.name))] Builtin.eval.params >>= fun _ =>
        buildEval c c.readInner n (some (.const (.text (some target.name)))) := rfl
  have hparams : checkParams Builtin.eval.name [n, .const (.text (some target.name))] Builtin.eval.params = pure () := by
    simp [checkParams, Builtin.params, badParam?, Param.accepts, htype, Node.type, Value.type]
  rw [hcall, hstandard, hparams, pure_bind]

theorem callWith_eval_row (heval : c.function? Builtin.eval.name = some (.builtin .eval))
    (htarget : target ∈ ValueType.targets) (htype : n.type = .text) (hn : n.isConstant = false) :
    c.callWith c.readInner Builtin.eval.name [n, .const (.text (some target.name))] = pure (.evalText target n) := by
  have hconst : n.constant? = none := by simpa [isConstant] using hn
  rw [callWith_eval heval htype, buildEval, targetType_name htarget, pure_bind]
  simp only [hconst, pure_bind]
  rfl

/-- What a constant text is read to has been folded already, if it is converted at all. -/
theorem callWith_eval_const (heval : c.function? Builtin.eval.name = some (.builtin .eval))
    (htarget : target ∈ ValueType.targets) (s? : Option String) :
    c.callWith c.readInner Builtin.eval.name [.const (.text s?), .const (.text (some target.name))] =
      c.builtText target s? := by
  rw [callWith_eval heval rfl, buildEval, targetType_name htarget, pure_bind]
  cases s? with
  | none => simp [constant?, Value.text?, builtText, fold, isFoldable, value]
  | some s =>
    have hfold : ∀ m : Node, (converted c Builtin.eval.name (m.marked .nested) target >>= fun m' => m'.fold c) =
        converted c Builtin.eval.name (m.marked .nested) target := by
      intro m
      unfold converted
      split
      · split
        · rw [pure_bind, fold_marked]
        · exact fold_fold _
      · rfl
    simp only [constant?, Value.text?, builtText, convertedIf, bind_assoc, hfold]

/-! ### Nodes of texts -/

/-- Whatever the sources and functions of the host are, what comes out of a node has its type. -/
theorem types_agreeing : Run.Types c (fun x Q => Meets .agreeing x Q) False (fun _ _ _ => True) True :=
  Contract.types_agreeing.runs fun _ _ => trivial

theorem builds_agreeing : c.Builds (fun x _ Q => Meets .agreeing x Q) (Sound False (fun _ _ _ => True) True)
    (Sound False (fun _ _ _ => True) True) (fun t n => n.type = t) c.readInner c.readInner :=
  builds_sound types_agreeing (readNested_sound types_agreeing _)

theorem evaluateWithin_agreeing (hn : n.Sound False (fun _ _ _ => True) True) :
    Meets .agreeing (c.evaluateWithin fuel n) (Value.IsOf False n.type) :=
  evaluateWithin_isOf types_agreeing (fun _ => Meets.throw trivial) fuel hn

/-- What a node of a text yields has the type of the node. -/
theorem type_of_text (hn : n.Sound False (fun _ _ _ => True) True) {w : World} {v : Value}
    (hv : ((Run.nested Builtin.eval.name (Run.inText (c.evaluateWithin fuel n))).exec w).1 = .ok v) : v.type = n.type := by
  have hnested : Meets .agreeing (Run.nested Builtin.eval.name (Run.inText (c.evaluateWithin fuel n)))
      (Value.IsOf False n.type) :=
    (types_agreeing (c := c)).nested _ ((types_agreeing (c := c)).inText (evaluateWithin_agreeing hn))
  have houtcome := (hnested w trivial).2.2
  rw [hv] at houtcome
  exact houtcome.type

/-- The node of a text is converted when it is built if its type can be converted, and yields then what is left to do in a
row. -/
theorem converted_comes (hn : n.Sound False (fun _ _ _ => True) True) (hcast : n.type.castable target = true) (v : World) :
    ∃ m, (converted c Builtin.eval.name (n.marked .nested) target).exec v = (.ok m, v) ∧
      ∀ fuel w, ((c.evaluateWithin fuel m).exec w).1 = ((c.textValue fuel target n).exec w).1 := by
  have hcast' : (n.marked .nested).type.castable target = true := by cases n <;> exact hcast
  cases hconst : n.isConstant with
  | true =>
    obtain ⟨u, rfl⟩ := exists_const hconst
    have hcast : u.cast c.options.zone target = .ok (u.converted c.options.zone target) := Value.cast_eq hcast
    refine ⟨.const (u.converted c.options.zone target), ?_, fun fuel w => ?_⟩
    · unfold converted
      rw [if_pos hcast']
      split
      · rename_i htype
        have htype : u.type = target := htype
        rw [Value.converted, if_pos htype]
        rfl
      · have hfold : (Node.convert Builtin.eval.name target (.const u)).isFoldable = true := rfl
        rw [show (Node.const u).marked Node.nested = .const u from rfl, fold, if_pos hfold, value, value, pure_bind, hcast]
        rfl
    · rw [evaluateWithin_eq, textValue, evaluateWithin_eq, value, value, exec_bind, exec_nested, exec_inText]
      simp only [exec_pure, Except.mapError, hcast]
      rfl
  | false =>
    rw [marked_of_not_constant hconst] at hcast' ⊢
    unfold converted
    rw [if_pos hcast']
    split
    · rename_i htype
      refine ⟨.nested n, rfl, fun fuel w => ?_⟩
      rw [evaluateWithin_eq, value, textValue, exec_bind, evaluateWithin_eq]
      rcases hr : (Run.nested Builtin.eval.name (Run.inText (n.value c (c.rowText fuel)))).exec w with ⟨h | v, w'⟩
      · rfl
      · have hyields : ((Run.nested Builtin.eval.name (Run.inText (c.evaluateWithin fuel n))).exec w).1 = .ok v := by
          rw [evaluateWithin_eq, hr]
        have htyped : v.type = n.type := type_of_text hn hyields
        have hself : v.cast c.options.zone target = .ok v := by
          rw [Value.cast_eq (by rw [htyped]; exact hcast), Value.converted, if_pos (htyped.trans htype)]
        simp only [hself]
        rfl
    · refine ⟨.convert Builtin.eval.name target (.nested n), ?_, fun fuel w => ?_⟩
      · have hfold : (Node.convert Builtin.eval.name target (.nested n)).isFoldable = false := rfl
        rw [fold, hfold]
        rfl
      · rw [evaluateWithin_eq, value, value, textValue, evaluateWithin_eq]

/-- A node whose type does not convert has no value that does. -/
theorem textValue_not_ok (hn : n.Sound False (fun _ _ _ => True) True) (hcast : ¬ n.type.castable target = true) (w : World)
    (v : Value) : ((c.textValue fuel target n).exec w).1 ≠ .ok v := by
  rw [textValue, exec_bind]
  rcases hr : (Run.nested Builtin.eval.name (Run.inText (c.evaluateWithin fuel n))).exec w with ⟨h | u, w'⟩
  · simp
  · have htyped : u.type = n.type := type_of_text hn (by rw [hr])
    have hrefused : u.cast c.options.zone target = .error (.unconvertible u.type target) := by
      rw [Value.cast, htyped, if_neg hcast]
    simp only [hrefused]
    intro hok
    cases hok

/-! ### In the row and before -/

theorem Steady.left (h : c.Steady w₁ w₀) : c.Steady w₁ w₁ :=
  ⟨h.calm, ⟨h.uncancelled.1, h.uncancelled.1⟩, .refl w₁, rfl⟩

theorem Steady.sameFor (h : c.Steady w₁ w₀) {cells : Prop} (hrow : cells → w₀.row = w₁.row) : w₁.SameFor ⟨cells, True⟩ w₀ where
  uncancelled := h.uncancelled
  column? name := (h.columns.column?_eq name).symm
  cells hcells := ⟨h.columns, hrow hcells⟩
  macros _ := h.macros

/-- Texts are read without a look at any cell. -/
theorem readText_repeats (hcalm : c.Calm) (s : String) :
    Repeats ⟨False, True⟩ (readText c.readInner s) (readText c.readInner s) fun _ => True :=
  have hcarries : c.Carries (Sight.Permits ⟨False, True⟩) (Repeats ⟨False, True⟩) := Repeats.carries hcalm trivial
  (hcarries.builds (hcarries.readNested_related _)).readText_related s

theorem textValue_repeats (hcalm : c.Calm) (fuel : Nat) (target : ValueType) (n : Node) :
    Repeats ⟨True, True⟩ (c.textValue fuel target n) (c.textValue fuel target n) fun _ => True :=
  ((Repeats.evaluateWithin_repeats hcalm trivial (fun _ _ _ => trivial) fuel).inText.nested _).bind fun _ _ => .typed _ _

/-- A text comes to the same value read in the row and read in another world with the same columns and macros. -/
theorem builtText_agrees (hcalm : c.Calm) (hread : w₁.SameFor ⟨False, True⟩ w₀) (hrow : w₁.SameFor ⟨True, True⟩ w₂)
    (hfree : w₁.ChanceFree ((c.rowText (fuel + 1) target s).exec w₁).2) (v : Value) :
    ((c.rowText (fuel + 1) target s).exec w₁).1 = .ok v ↔
      c.outcome fuel (do return ⟨← c.builtText target (some s)⟩) w₀ w₂ = .ok v := by
  have hreading := readText_repeats hcalm s
  obtain ⟨-, hagrees, hsound⟩ := (builds_agreeing (c := c)).readText_related s w₁ trivial
  have hgrows := hreading.grows w₁
  have hends := fun hfree => hreading.ends hread hfree
  rw [rowText_succ, exec_bind] at hfree ⊢
  unfold outcome
  rw [builtText]
  simp only [exec_bind]
  rcases hr : (readText c.readInner s).exec w₁ with ⟨h | n, u⟩
  · -- the text cannot be read, in the row or before
    rw [hr] at hfree hends
    obtain ⟨houtcome, -⟩ := hends hfree
    rcases hr₀ : (readText c.readInner s).exec w₀ with ⟨h₀ | n₀, u₀⟩
    · simp
    · rw [hr₀] at houtcome
      cases houtcome
  · rw [hr] at hfree hends hgrows hagrees hsound
    obtain ⟨hfirst, hrest⟩ := hfree.split hgrows ((textValue_repeats hcalm fuel target n).grows u)
    obtain ⟨houtcome, -⟩ := hends hfirst
    rcases hr₀ : (readText c.readInner s).exec w₀ with ⟨h₀ | n₀, u₀⟩
    · rw [hr₀] at houtcome
      cases houtcome
    · rw [hr₀] at houtcome
      cases houtcome
      by_cases hcast : n.type.castable target = true
      · obtain ⟨m, hm, hvalue⟩ := converted_comes (c := c) hsound hcast u₀
        have hsame := ((textValue_repeats hcalm fuel target n).ends (hrow.of_agrees hagrees (.refl w₂)) hrest).outcome
        simp only [hm, exec_pure, hvalue, hsame]
      · have hrefused : ∃ f, (converted c Builtin.eval.name (n.marked .nested) target) = Run.fail f := by
          refine ⟨_, if_neg ?_⟩
          cases n <;> exact hcast
        obtain ⟨f, hf⟩ := hrefused
        simp [hf, textValue_not_ok hsound hcast]

/-! ### The two calls compared -/

/-- A call of `eval` is built of its arguments in a world that agrees with the one in which the text was begun. -/
theorem parse_callsEval {text : String} {w : World} (h : c.CallsEval text w n target) :
    ∃ v, w.Agrees v ∧ n.Sound False (fun _ _ _ => True) True ∧ (c.parse text).exec w =
      (do return ⟨← c.callWith c.readInner Builtin.eval.name [n, .const (.text (some target.name))]⟩ :
        Run Expression).exec v := by
  obtain ⟨args, hparse, hargs⟩ := h
  obtain ⟨-, hagrees, hsound⟩ := (builds_agreeing (c := c)).compileAll_related args (fun _ _ => .const False.elim) w trivial
  rcases hr : (c.compileAll c.readInner args).exec w with ⟨r, v⟩
  rw [hr] at hargs hagrees hsound
  subst hargs
  refine ⟨v, hagrees, hsound n List.mem_cons_self, ?_⟩
  have hcompile : c.parse text = do
      let args ← c.compileAll c.readInner args
      return ⟨← c.callWith c.readInner Builtin.eval.name args⟩ := by
    have hread : c.readWith c.readInner text = c.compile c.readInner (.call Builtin.eval.name args) := by
      rw [readWith, hparse]
      rfl
    rw [parse, hread, compile, bind_assoc]
  rw [hcompile, exec_bind, hr]

/-- More fuel changes no outcome. -/
theorem outcome_fuel {x : Run Expression} (h : c.outcome fuel x w₀ w₁ ≠ .error .exhausted) (more : Nat) :
    c.outcome (fuel + more) x w₀ w₁ = c.outcome fuel x w₀ w₁ := by
  unfold outcome at h ⊢
  split
  · rename_i e he
    rw [he] at h
    rw [(evaluateWithin_approximates fuel more (Nat.le_refl _)).agrees w₁ h]
  · rfl

theorem outcome_row (heval : c.function? Builtin.eval.name = some (.builtin .eval)) (htarget : target ∈ ValueType.targets)
    {text : String} {x : Node} {s? : Option String} {w : World} (hcalls : c.CallsEval text w x target)
    (hx : x.isConstant = false) (hs : ((c.evaluateWithin fuel x).exec w₁).1 = .ok (.text s?)) :
    ∃ u, w₁.Agrees u ∧ c.outcome fuel (c.parse text) w w₁ = ((c.suppliedText fuel target s?).exec u).1 := by
  obtain ⟨v, -, hsound, hparse⟩ := parse_callsEval hcalls
  have htype : x.type = .text := by
    have hagreeing : Meets .agreeing (c.evaluateWithin fuel x) (Value.IsOf False x.type) := evaluateWithin_agreeing hsound
    have hvalue := (hagreeing w₁ trivial).2.2
    rw [hs] at hvalue
    exact hvalue.type.symm
  have hexec : (c.parse text).exec w = (.ok ⟨.evalText target x⟩, v) := by
    rw [hparse, callWith_eval_row heval htarget htype hx]
    rfl
  refine ⟨_, c.evaluateWithin_agrees fuel x w₁, ?_⟩
  rw [evaluateWithin_eq] at hs ⊢
  rw [outcome, hexec]
  simp only [evaluateWithin_eq, value, exec_bind]
  rcases hr : (x.value c (c.rowText fuel)).exec w₁ with ⟨r, u⟩
  rw [hr] at hs
  subst hs
  cases s? <;> rfl

theorem outcome_constant (heval : c.function? Builtin.eval.name = some (.builtin .eval))
    (htarget : target ∈ ValueType.targets) {text : String} {s? : Option String}
    (hcalls : c.CallsEval text w₀ (.const (.text s?)) target) :
    ∃ v, w₀.Agrees v ∧ ∀ fuel w₂, c.outcome fuel (c.parse text) w₀ w₂ =
      c.outcome fuel (do return ⟨← c.builtText target s?⟩) v w₂ := by
  obtain ⟨v, hagrees, -, hparse⟩ := parse_callsEval hcalls
  refine ⟨v, hagrees, fun fuel w₂ => ?_⟩
  rw [outcome, hparse, callWith_eval_const heval htarget]
  rfl

/-- Outcomes that are the same values fail together, if both runs end. -/
theorem faults_iff {r r' : Except Halt Value} (h : ∀ v, r = .ok v ↔ r' = .ok v) (hr : r ≠ .error .exhausted)
    (hr' : r' ≠ .error .exhausted) : (∃ f, r = .error (.fault f)) ↔ ∃ f, r' = .error (.fault f) := by
  rcases r with (f | _) | v
  · rcases r' with (f' | _) | v'
    · simp
    · exact absurd rfl hr'
    · exact absurd ((h v').2 rfl) nofun
  · exact absurd rfl hr
  · simp [(h v).1 rfl]

/-- `eval` of a text that a row supplies yields in that row what `eval` of the constant text yields there, and fails, when it
is parsed or evaluated, just if that does: as long as columns and macros stay and the job is not cancelled, no random number
is drawn and the time not looked at in the text, and both evaluations end. -/
theorem eval_row_eq_constant (heval : c.function? Builtin.eval.name = some (.builtin .eval))
    (htarget : target ∈ ValueType.targets) {row constant : String} {x : Node} {s? : Option String} {w : World}
    (hrow : c.CallsEval row w x target) (hx : x.isConstant = false) (hconstant : c.CallsEval constant w₀ (.const (.text s?)) target)
    (hparsed : c.Steady w₁ w₀) (hevaluated : c.Steady w₁ w₂) (hsameRow : w₂.row = w₁.row) {fuel fuel' : Nat}
    (hs : ((c.evaluateWithin fuel x).exec w₁).1 = .ok (.text s?))
    (hfree : ∀ s, s? = some s → w₁.ChanceFree ((c.rowText fuel target s).exec w₁).2)
    (hends : c.outcome fuel (c.parse row) w w₁ ≠ .error .exhausted)
    (hends' : c.outcome fuel' (c.parse constant) w₀ w₂ ≠ .error .exhausted) :
    (∀ v, c.outcome fuel (c.parse row) w w₁ = .ok v ↔ c.outcome fuel' (c.parse constant) w₀ w₂ = .ok v) ∧
      ((∃ f, c.outcome fuel (c.parse row) w w₁ = .error (.fault f)) ↔
        ∃ f, c.outcome fuel' (c.parse constant) w₀ w₂ = .error (.fault f)) := by
  have hvalues : ∀ v, c.outcome fuel (c.parse row) w w₁ = .ok v ↔ c.outcome fuel' (c.parse constant) w₀ w₂ = .ok v := by
    obtain ⟨u, hu, hrowOutcome⟩ := outcome_row heval htarget hrow hx hs
    obtain ⟨v₀, hv₀, hconstantOutcome⟩ := outcome_constant heval htarget hconstant
    cases s? with
    | none =>
      intro v
      have hbuilt : c.outcome fuel' (do return ⟨← c.builtText target none⟩) v₀ w₂ = .ok (.missing target) := by
        simp only [outcome, builtText, pure_bind, exec_pure, evaluateWithin_eq, value]
      rw [hrowOutcome, hconstantOutcome, hbuilt]
      rfl
    | some s =>
      have hhere : w₁.SameFor ⟨True, True⟩ u := (hparsed.left.sameFor fun _ => rfl).of_agrees (.refl w₁) hu
      have houtcome := ((Repeats.rowText_repeats hparsed.calm trivial trivial fuel target s).ends hhere (hfree s rfl)).outcome
      have hrowEnds : ((c.rowText fuel target s).exec w₁).1 ≠ .error .exhausted := by
        rw [← houtcome]
        exact fun hexhausted => hends (hrowOutcome.trans hexhausted)
      -- both runs have ended, so they may be compared with as much fuel as both have together
      have hfuel := (rowText_approximates fuel (fuel' + 1) target s).agrees w₁ hrowEnds
      have hfuel' := outcome_fuel hends' fuel
      rw [Nat.add_comm] at hfuel'
      intro v
      rw [hrowOutcome, ← hfuel', hconstantOutcome]
      show ((c.rowText fuel target s).exec u).1 = _ ↔ _
      rw [houtcome, ← hfuel]
      exact builtText_agrees hparsed.calm ((hparsed.sameFor False.elim).of_agrees (.refl w₁) hv₀)
        (hevaluated.sameFor fun _ => hsameRow) (hfuel ▸ hfree s rfl) v
  exact ⟨hvalues, faults_iff hvalues hends hends'⟩

theorem eval_row_eq_constant_quoted :
    let w := World.ofTexts [("t", "\"x\"")]
    (∀ v, ({} : Context).outcome 1 (({} : Context).parse "eval([t], TYPE_STRING)") w w = .ok v ↔
      ({} : Context).outcome 1 (({} : Context).parse "eval(\"\\\"x\\\"\", TYPE_STRING)") w w = .ok v) ∧
    ((∃ f, ({} : Context).outcome 1 (({} : Context).parse "eval([t], TYPE_STRING)") w w = .error (.fault f)) ↔
      ∃ f, ({} : Context).outcome 1 (({} : Context).parse "eval(\"\\\"x\\\"\", TYPE_STRING)") w w = .error (.fault f)) := by
  intro w
  have hrow : ({} : Context).CallsEval "eval([t], TYPE_STRING)" w (.column 0 "t" .text) .text :=
    ⟨[.column "t", .name "TYPE_STRING"], by cbv, by rfl⟩
  have hconstant : ({} : Context).CallsEval "eval(\"\\\"x\\\"\", TYPE_STRING)" w (.const (.text (some "\"x\""))) .text :=
    ⟨[.text "\"x\"", .name "TYPE_STRING"], by cbv, by rfl⟩
  have hsteady : ({} : Context).Steady w w := ⟨calm_of_no_host rfl, ⟨rfl, rfl⟩, .refl w, rfl⟩
  have hfree : ∀ event ∈ ((({} : Context).rowText 1 .text "\"x\"").exec w).2.events, event.isChance = false := by
    decide +kernel
  have hends : ({} : Context).outcome 1 (({} : Context).parse "eval([t], TYPE_STRING)") w w ≠ .error .exhausted := by
    decide +kernel
  have hends' : ({} : Context).outcome 1 (({} : Context).parse "eval(\"\\\"x\\\"\", TYPE_STRING)") w w ≠
      .error .exhausted := by
    decide +kernel
  refine eval_row_eq_constant (by decide +kernel) (by decide) hrow rfl hconstant hsteady hsteady rfl rfl ?_ hends hends'
  rintro s ⟨⟩
  exact ⟨_, (List.append_nil _).symm, hfree⟩

end Context

end Rowwise
