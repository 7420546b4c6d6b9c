import Rowwise.Proofs.Constancy.Lookups

/-!
# Rowwise.Proofs.Constancy.Folding — constant folding agrees with evaluation in a row

A call whose arguments are all constant is folded when it is built, and constants are checked early.  Both do what a row
would do: what such a call yields, the call yields whichever arguments the row supplies, and where one of these fails, the
constant call fails in the same kind of way (`Context.call_folds`).
-/

namespace Rowwise

namespace Node

open Run

variable {c : Context} {fuel : Nat} {w₀ w₁ : World} {read : String → Run Node}
  {args : List Node} {vs : List Value}

/-- What the agreement needs of a call of `attribute`: a type, which is constant, and a column that can be read as it. -/
structure NamesColumn (w : World) (args : List Node) (vs : List Value) : Prop where
  typed : args.length ≠ 1
  constant (n : Node) : args[1]? = some n → n.isConstant = true
  reads (name text : String) (t : ValueType) : vs[0]? = some (.text (some name)) → vs[1]? = some (.text (some text)) →
    ValueType.named? text.toList = some t → w.ReadsAs name t

/-! ### All builders -/

section Builders

variable (hs : c.Steady w₀ w₁) (h : SuppliesAll c fuel w₁ args vs)

include hs h

theorem buildText_agreeing {f : TextFunction} (harity : f.signature.arity.accepts vs.length = true) :
    Agreeing c fuel w₀ w₁ (Builtin.text f).Alike (buildStandard c read (.text f) (vs.map .const))
      (buildStandard c read (.text f) args) :=
  .checked h fun hparams => checked_agreeing hs (fun place whole hc => checks_within f harity hc)
    (StrictFunction.fits_text (by simpa using harity) hparams) h

theorem buildCalendar_agreeing {f : CalendarFunction} (harity : f.signature.arity.accepts vs.length = true) :
    Agreeing c fuel w₀ w₁ (Builtin.calendar f).Alike (buildStandard c read (.calendar f) (vs.map .const))
      (buildStandard c read (.calendar f) args) := by
  refine .checked h fun hparams => checked_agreeing hs (fun place whole hc => ?_)
    (StrictFunction.fits_calendar (by simpa using harity) hparams) h
  cases f <;> simp [CalendarFunction.checks] at hc

theorem aggregate_agreeing {b : Builtin} {f : Aggregate} {type : ValueType} :
    Agreeing c fuel w₀ w₁ b.Alike (pure (.aggregate f type (vs.map .const))) (pure (.aggregate f type args)) :=
  .same (.pure (aggregate_settles hs (.consts vs))) (.pure (aggregate_settles hs h))

theorem buildAggregate_agreeing (f : Aggregate) :
    Agreeing c fuel w₀ w₁ (Builtin.aggregate f).Alike (buildStandard c read (.aggregate f) (vs.map .const))
      (buildStandard c read (.aggregate f) args) := by
  refine .checked h fun _ => ?_
  cases f with
  | concat | mean => exact aggregate_agreeing hs h
  | least | greatest | sum =>
    show Agreeing _ _ _ _ _ (pure (.aggregate _ (((vs.map Node.const).map type).foldl _ _) _))
      (pure (.aggregate _ ((args.map type).foldl _ _) _))
    rw [h.types_eq, SuppliesAll.types_consts]
    exact aggregate_agreeing hs h

theorem buildColumnNamed_agreeing (hcolumn : NamesColumn w₀ args vs)
    (harity : Builtin.columnNamed.signature.arity.accepts vs.length = true) :
    Agreeing c fuel w₀ w₁ Builtin.columnNamed.Alike (buildStandard c read .columnNamed (vs.map .const))
      (buildStandard c read .columnNamed args) := by
  rcases h with _ | ⟨hn, _ | ⟨ht, _ | ⟨_, _⟩⟩⟩
  · cases harity
  · exact absurd rfl hcolumn.typed
  · obtain rfl := ht.eq_const_of_constant (hcolumn.constant _ rfl)
    refine .checked (.cons hn (.cons ht .nil)) fun _ => buildColumn_agreeing hs hn fun name text t hname htext hnamed => ?_
    refine hcolumn.reads name text t ?_ ?_ hnamed
    · exact congrArg some (Value.eq_of_text? hname)
    · exact congrArg some (Value.eq_of_text? htext)
  · have := length_of_between harity
    simp at this

theorem buildMacroNamed_agreeing (harity : Builtin.macroNamed.signature.arity.accepts vs.length = true) :
    Agreeing c fuel w₀ w₁ Builtin.macroNamed.Alike (buildStandard c read .macroNamed (vs.map .const))
      (buildStandard c read .macroNamed args) := by
  rcases h with _ | ⟨hn, hrest⟩
  · cases harity
  · refine .checked (.cons hn hrest) fun _ => ?_
    rcases hrest with _ | ⟨hd, _⟩
    · exact buildMacro_agreeing hs hn .none
    · exact buildMacro_agreeing hs hn (.some hd)

theorem buildStandard_agreeing {b : Builtin} (hb : b ∈ Builtin.standard ++ Builtin.ofHost)
    (hfixed : b ≠ .random ∧ b ≠ .now ∧ b ≠ .eval) (hcolumn : b = .columnNamed → NamesColumn w₀ args vs)
    (harity : b.signature.arity.accepts vs.length = true) :
    Agreeing c fuel w₀ w₁ b.Alike (buildStandard c read b (vs.map .const)) (buildStandard c read b args) := by
  cases b with
  | plus => exact buildPlus_agreeing hs harity h
  | minus => exact buildMinus_agreeing hs harity h
  | number f =>
    have hf : f ∈ Builtin.numbers := by simpa [Builtin.standard, Builtin.ofHost] using hb
    exact buildNumber_agreeing hs hf harity h
  | order o =>
    have hlen : vs.length = 2 := by cases o <;> exact length_of_exact harity
    obtain ⟨v, u, rfl⟩ := List.length_eq_two.1 hlen
    rcases h with _ | ⟨hn, _ | ⟨hm, _ | _⟩⟩
    exact .checked (.cons hn (.cons hm .nil)) fun _ => buildOrder_agreeing hs o hn hm
  | equality negated => exact .checked h fun _ => strict_agreeing hs h
  | logic l => exact .checked h fun _ => strict_agreeing hs h
  | isMissing => exact .checked h fun _ => strict_agreeing hs h
  | text f => exact buildText_agreeing hs h harity
  | calendar f => exact buildCalendar_agreeing hs h harity
  | aggregate f => exact buildAggregate_agreeing hs h f
  | binomial =>
    obtain ⟨v, u, rfl⟩ := List.length_eq_two.1 (length_of_exact harity)
    rcases h with _ | ⟨hn, _ | ⟨hm, _ | _⟩⟩
    obtain ⟨r, hr⟩ := binomial_settles hs v u
    exact .checked (.cons hn (.cons hm .nil)) fun _ => .same (.pure (hr _ _ (.const v) (.const u))) (.pure (hr _ _ hn hm))
  | choose =>
    obtain ⟨x, y, z, rfl⟩ := List.length_eq_three.1 (length_of_exact harity)
    rcases h with _ | ⟨hc, _ | ⟨hy, _ | ⟨hn, _ | _⟩⟩⟩
    exact .checked (.cons hc (.cons hy (.cons hn .nil))) fun _ =>
      .same (buildChoose_comes (.const x) (.const y) (.const z)) (buildChoose_comes hc hy hn)
  | eval => exact absurd rfl hfixed.2.2
  | columnNamed => exact buildColumnNamed_agreeing hs h (hcolumn rfl) harity
  | macroNamed => exact buildMacroNamed_agreeing hs h harity
  | now => exact absurd rfl hfixed.2.1
  | random => exact absurd rfl hfixed.1
  | parameter =>
    obtain ⟨v, u, rfl⟩ := List.length_eq_two.1 (length_of_exact harity)
    rcases h with _ | ⟨hn, _ | ⟨hm, _ | _⟩⟩
    obtain ⟨r, hr⟩ := parameter_settles hs v u
    exact .checked (.cons hn (.cons hm .nil)) fun _ => .same (.pure (hr _ _ (.const v) (.const u))) (.pure (hr _ _ hn hm))

end Builders

/-! ### Folding -/

/-- What a settled node comes to does not depend on whether it is folded. -/
theorem Settles.fold_gives {n : Node} {r : Except Halt Value} (h : Settles c fuel w₀ w₁ n r) :
    (∃ m, Gives w₀ (n.fold c) (.ok m) ∧ Gives w₁ (m.value c (c.rowText fuel)) r) ∨
      ∃ halt, r = .error halt ∧ Gives w₀ (n.fold c) (.error halt) := by
  unfold fold
  by_cases hfold : n.isFoldable = true
  · rw [if_pos hfold, value_of_foldable hfold (c.rowText fuel)]
    have hvalue := h.folded hfold
    cases r with
    | ok v => exact Or.inl ⟨.const v, hvalue.after (.pure _), const_gives v⟩
    | error halt => exact Or.inr ⟨halt, rfl, hvalue.error⟩
  · rw [if_neg hfold]
    exact Or.inl ⟨n, .pure n, h.row⟩

end Node

namespace Context

open Run Node

variable {c : Context} {w₀ w₁ : World} {fuel : Nat}

/-- What a run that builds an expression in the first world comes to in the second. -/
def outcome (c : Context) (fuel : Nat) (x : Run Expression) (w₀ w₁ : World) : Except Halt Value :=
  match (x.exec w₀).1 with
  | .ok e => ((c.evaluateWithin fuel e.root).exec w₁).1
  | .error h => .error h

theorem outcome_of_comes {x : Run Node} {r : Except Halt Value} (h : Comes c fuel w₀ w₁ x r) :
    c.outcome fuel (do return ⟨← (do let n ← x; n.fold c)⟩) w₀ w₁ = r := by
  have hrun : ∀ {s : Except Halt Node}, Gives w₀ (do let n ← x; n.fold c) s →
      ((do return ⟨← (do let n ← x; n.fold c)⟩ : Run Expression).exec w₀).1 = s.map Expression.mk := by
    intro s hs
    cases s with
    | ok n => exact (hs.after (f := fun n => pure (Expression.mk n)) (.pure _) w₀ (.refl w₀)).1
    | error halt => exact (hs.error (f := fun n => pure (Expression.mk n)) w₀ (.refl w₀)).1
  unfold outcome
  cases h with
  | failed hx => rw [hrun hx.error, Except.map]
  | built hx hsettles =>
    rcases hsettles.fold_gives with ⟨m, hfold, hvalue⟩ | ⟨halt, rfl, hfold⟩
    · rw [hrun (hx.after hfold), Except.map]
      simp only [evaluateWithin_eq]
      exact (hvalue w₁ (.refl w₁)).1
    · rw [hrun (hx.after hfold), Except.map]

theorem call_arity {b : Builtin} (hb : c.function? b.name = some (.builtin b)) {args : List Node}
    (harity : b.signature.arity.accepts args.length = false) :
    c.outcome fuel (c.call b.name args) w₀ w₁ =
      .error (.fault (.arity b.name b.signature.arity args.length)) := by
  unfold outcome call callWith
  rw [hb]
  unfold build
  simp only [Callable.signature, harity]
  rfl

theorem call_eq {b : Builtin} (hb : c.function? b.name = some (.builtin b)) {args : List Node}
    (harity : b.signature.arity.accepts args.length = true) :
    c.call b.name args = do return ⟨← (do let n ← buildStandard c c.readInner b args; n.fold c)⟩ := by
  unfold call callWith
  rw [hb]
  unfold build
  simp only [Callable.signature, harity]
  rfl

/-- Constant arguments and arguments that a row supplies come to the same: what the call yields when all arguments are
constant, it yields whichever of them are; and a fault, when it is built or evaluated, has the kind of a fault of the
constant call. -/
theorem call_folds {b : Builtin} (hb : c.function? b.name = some (.builtin b))
    (hfixed : b ≠ .random ∧ b ≠ .now ∧ b ≠ .eval) (hs : c.Steady w₀ w₁) {args : List Node} {vs : List Value}
    (hargs : SuppliesAll c fuel w₁ args vs) (hcolumn : b = .columnNamed → NamesColumn w₀ args vs) :
    Kept b.Alike (c.outcome fuel (c.call b.name (vs.map .const)) w₀ w₁) (c.outcome fuel (c.call b.name args) w₀ w₁) := by
  have hlength : args.length = (vs.map Node.const).length := by rw [List.length_map, hargs.length_eq]
  cases harity : b.signature.arity.accepts args.length with
  | false =>
    rw [call_arity hb harity, call_arity hb (hlength ▸ harity), hlength]
    exact ⟨(fun v hv => by cases hv), fun h hh => ⟨h, hh, rfl⟩⟩
  | true =>
    rw [call_eq hb harity, call_eq hb (hlength ▸ harity)]
    have hagreeing : Agreeing c fuel w₀ w₁ b.Alike (buildStandard c c.readInner b (vs.map .const))
        (buildStandard c c.readInner b args) :=
      buildStandard_agreeing hs hargs (mem_of_builtin (mem_of_function? hb)) hfixed hcolumn (by rwa [← hargs.length_eq])
    obtain ⟨constant, marked, hconstant, hmarked, hkept⟩ := hagreeing
    rwa [outcome_of_comes hconstant, outcome_of_comes hmarked]

/-- What a column comes to that is found by its name, as one of the type that a constant names. -/
def columnIn (w : World) (name : Node) (type : String) : Except Halt Value :=
  ({} : Context).outcome 1 (({} : Context).call "attribute" [name, .const (.text (some type))]) w w

theorem call_folds_attribute :
    Kept Builtin.columnNamed.Alike (columnIn (.ofTexts [("t", "7")]) (.const (.text (some "t"))) "integer")
      (columnIn (.ofTexts [("t", "7")]) (.varying (.text (some "t"))) "integer") := by
  refine call_folds (b := .columnNamed) (by decide +kernel) (by decide) ⟨?_, ⟨rfl, rfl⟩, rfl, rfl⟩
    (.cons (.varying _) (.cons (.const _) .nil)) fun _ => ⟨by decide, ?_, ?_⟩
  · intro host hhost
    cases hhost
  · intro n hn
    cases hn
    rfl
  · intro name _ t _ _ _
    exact (World.tabular_ofTexts _).readsAs name t

/-- A column of a schema whose type does not convert fails by its type if its name is constant, and by a defect in a row
that supplies the name. -/
theorem schema_not_folded :
    Supplies {} 1 { sources := [.ofTypes [("a", .integer)]] } (.varying (.text (some "a")))
        (.text (some "a")) ∧
      ¬ Kept Builtin.columnNamed.Alike
        (columnIn { sources := [.ofTypes [("a", .integer)]] } (.const (.text (some "a"))) "local_time")
        (columnIn { sources := [.ofTypes [("a", .integer)]] } (.varying (.text (some "a"))) "local_time") := by
  refine ⟨.varying _, fun h => ?_⟩
  obtain ⟨halt, hconstant, hkind⟩ := h.fault (.fault (.internal (.unsupported .number "a"))) (by decide +kernel)
  have hfault : columnIn { sources := [.ofTypes [("a", .integer)]] } (.const (.text (some "a"))) "local_time" =
      .error (.fault (.type "attribute" (.unconvertible .integer .timeOfDay))) := by decide +kernel
  rw [hfault] at hconstant
  cases hconstant
  cases hkind

end Context

end Rowwise
