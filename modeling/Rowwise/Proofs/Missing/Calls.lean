import Rowwise.Proofs.Comparing.Calls
import Rowwise.Proofs.Typing.Conversion

/-!
# Rowwise.Proofs.Missing.Calls — missing arguments give missing results

A function of mathematics, or of texts unless it joins any number of them, yields the missing value of its type in every row in
which one of its arguments is missing, whatever is wrong with the others: patterns, counts and ranges are judged only if no
argument is missing (`Context.missing_passes`).  Rounding to a number of digits is the exception: a fraction of digits is a
fault also where the number is missing (`Context.missing_refused`).
-/

namespace Rowwise

namespace Builtin

/-- The functions of mathematics, and those of texts but the one that joins any number of them. -/
def PassesMissing (b : Builtin) : Prop := b.signature.group = "math" ∨ b.signature.group = "text" ∧ b ≠ .aggregate .concat

/-- The function rounds to a number of digits that is there but not whole. -/
def RoundsToFraction (b : Builtin) (vs : List Value) : Prop :=
  ∃ f, b = .number f ∧ f.RoundsToFraction (vs.map Value.toNumber)

/-- Only functions of numbers round. -/
theorem not_roundsToFraction {b : Builtin} (h : ∀ f, b ≠ .number f) (vs : List Value) : ¬ b.RoundsToFraction vs := by
  rintro ⟨f, rfl, -⟩
  exact h f rfl

/-- The values of the arguments of a call, from left to right; for functions of any number of arguments the host may cancel
before each. -/
def argumentValues (b : Builtin) (c : Context) (eval : ValueType → String → Run Value) (args : List Node) : Run (List Value) :=
  match b with
  | .aggregate _ => Node.polledValues c eval args
  | _ => Node.values c eval args

theorem least_of_passesMissing {b : Builtin} (h : b.PassesMissing) : 1 ≤ b.signature.arity.least := by
  have hgroup : b.signature.group = "math" ∨ b.signature.group = "text" := h.imp_right And.left
  cases b with
  | number f => cases f <;> decide
  | text f => cases f <;> decide
  | aggregate f =>
    cases f with
    | concat => exact absurd rfl (h.resolve_left (by decide)).2
    | _ => decide
  | binomial => decide
  | order o => cases o <;> exact absurd hgroup (by decide)
  | equality negated => cases negated <;> exact absurd hgroup (by decide)
  | logic l => cases l <;> exact absurd hgroup (by decide)
  | calendar f => cases f <;> exact absurd hgroup (by decide)
  | _ => exact absurd hgroup (by decide)

end Builtin

/-! ### Values of functions -/

theorem Value.isMissing_toNumber {v : Value} (h : v.isMissing = true) : Double.isMissing v.toNumber = true := by
  cases v <;> first | exact h | exact Double.isMissing_nan

theorem Value.exists_missing_toNumber {vs : List Value} (h : ∃ v ∈ vs, v.isMissing = true) :
    ∃ x ∈ vs.map Value.toNumber, Double.isMissing x = true := by
  obtain ⟨v, hv, hmissing⟩ := h
  exact ⟨v.toNumber, List.mem_map_of_mem hv, isMissing_toNumber hmissing⟩

theorem Value.number_nan {t : ValueType} (h : t.isNumeric = true) : number t Double.nan = missing t := by
  cases t <;> first | rfl | exact absurd h (by decide)

/-- Functions of texts look at the texts only if all are there. -/
theorem TextFunction.run_of_missing (f : TextFunction) {vs : List Value} (harity : f.signature.arity.accepts vs.length = true)
    (h : ∃ v ∈ vs, v.isMissing = true) : f.run vs = .ok (.missing f.result) := by
  have hany : vs.any Value.isMissing = true := List.any_eq_true.2 h
  unfold run
  split
  · rename_i v
    have hv : v.isMissing = true := by simpa using hany
    rw [Value.isMissing_iff_missing.1 hv, Value.toText?_missing]
    rfl
  · exact absurd hany Bool.false_ne_true
  · rw [if_pos hany]

namespace Node

open Run

variable {c : Context} {b : Builtin} {args : List Node} {read : String → Run Node}

/-- A node that is not folded and passes missing values of the arguments on, but fails for fractions of digits. -/
structure Passes (c : Context) (b : Builtin) (args : List Node) (n : Node) : Prop where
  row : n.isFoldable = false
  missing {eval : ValueType → String → Run Value} {w w' : World} {vs : List Value} :
    (b.argumentValues c eval args).exec w = (.ok vs, w') → vs.map Value.type = args.map Node.type →
      (∃ v ∈ vs, v.isMissing = true) → ¬ b.RoundsToFraction vs → ((n.value c eval).exec w).1 = .ok (.missing n.type)
  fraction {eval : ValueType → String → Run Value} {w w' : World} {vs : List Value} :
    (b.argumentValues c eval args).exec w = (.ok vs, w') → b.RoundsToFraction vs →
      ∃ digits, ((n.value c eval).exec w).1 = .error (.fault (.value b.name (.notWhole "number of digits" digits)))

/-- What a call is built to, if it passes missing values on. -/
def BuildsPassing (c : Context) (read : String → Run Node) (b : Builtin) (args : List Node) : Prop :=
  ∃ n, buildStandard c read b args = pure n ∧ Passes c b args n

theorem checkParams_bind {params : List Param} (h : badParam? 1 params (args.map type) = none) (function : String)
    (x : Run Node) : (checkParams function args params >>= fun _ => x) = x := by
  rw [checkParams, h, pure_bind]

theorem all_isConstant_eq_false (hargs : args ≠ []) (hrow : ∀ n ∈ args, n.isConstant = false) :
    args.all isConstant = false := by
  obtain ⟨n, ns, rfl⟩ := List.exists_cons_of_ne_nil hargs
  rw [List.all_cons, hrow n List.mem_cons_self, Bool.false_and]

theorem strict_fails {eval : ValueType → String → Run Value} {w w₁ : World} {f : StrictFunction} {type : ValueType}
    {vs : List Value} {cause : ValueCause} (h : (values c eval args).exec w = (.ok vs, w₁))
    (hv : f.run c.options.zone type vs = .error cause) :
    (((strict f type args).value c eval).exec w).1 = .error (.fault (.ofCause f.name cause)) := by
  rw [value, exec_bind, h]
  simp only
  rw [exec_bind, exec_note, hv]
  rfl

/-- Two nodes yield their values one after the other. -/
theorem values_pair {eval : ValueType → String → Run Value} {n k : Node} {w w' : World} {vs : List Value}
    (h : (values c eval [n, k]).exec w = (.ok vs, w')) :
    ∃ x y w₁, vs = [x, y] ∧ (n.value c eval).exec w = (.ok x, w₁) ∧ (k.value c eval).exec w₁ = (.ok y, w') := by
  rw [values, exec_bind] at h
  rcases hn : (n.value c eval).exec w with ⟨_ | x, w₁⟩
  · rw [hn] at h
    cases h
  rw [hn, values, values] at h
  simp only [exec_bind, exec_pure] at h
  rcases hk : (k.value c eval).exec w₁ with ⟨_ | y, w₂⟩
  · rw [hk] at h
    cases h
  rw [hk] at h
  cases h
  exact ⟨x, y, w₁, rfl, rfl, hk⟩

theorem binomialOf_missing {x y : Float} (h : (Double.isMissing x || Double.isMissing y) = true) :
    binomialOf c x y = pure Double.nan := by
  rw [binomialOf, if_pos h]

section Row

variable (hrow : ∀ n ∈ args, n.isConstant = false)

include hrow

/-! ### Numbers -/

theorem buildNumber_passes {f : NumberFunction} (hf : f ∈ Builtin.numbers) (hgroup : f.signature.group = "math")
    (harity : f.signature.arity.accepts args.length = true) (hparams : badParam? 1 [.number] (args.map type) = none) :
    BuildsPassing c read (.number f) args := by
  have htakes := NumberFunction.takes_of_accepts hf harity
  have hnumeric := f.result_numeric (numeric_of_params hparams)
  have hpower : f ≠ .power := by
    rintro rfl
    exact absurd hgroup (by decide)
  have hargs : args ≠ [] := by
    rintro rfl
    rcases length_of_takes htakes with h | h <;> cases h
  have hbuilt : buildStandard c read (.number f) args = pure (number f args) := by
    rcases length_of_takes htakes with hlength | hlength
    · obtain ⟨x, rfl⟩ := List.length_eq_one_iff.1 hlength
      cases f <;> exact checkParams_bind hparams _ _
    · obtain ⟨x, y, rfl⟩ := List.length_eq_two.1 hlength
      cases f with
      | power => exact absurd rfl hpower
      | _ => exact checkParams_bind hparams _ _
  refine ⟨number f args, hbuilt, all_isConstant_eq_false hargs hrow, fun {eval w w' vs} hvs htypes hmissing hround => ?_,
    fun {eval w w' vs} hvs hround => ?_⟩
  · have hlength : vs.length = args.length := by simpa using congrArg List.length htypes
    have hrun : f.run (vs.map Value.toNumber) = .ok Double.nan := by
      refine NumberFunction.run_of_missing hgroup ?_ (Value.exists_missing_toNumber hmissing) fun h => hround ⟨f, rfl, h⟩
      rwa [List.length_map, hlength]
    refine strict_yields hvs ?_
    show (f.run (vs.map Value.toNumber) >>= fun x => pure (Value.number _ x)) = _
    rw [hrun]
    exact congrArg Except.ok (Value.number_nan hnumeric)
  · obtain ⟨_, ⟨⟩, hround⟩ := hround
    obtain ⟨digits, -, hrun⟩ := NumberFunction.run_of_fraction hround
    have hfails : (StrictFunction.number f).run c.options.zone (f.result (args.map type)) vs =
        .error (.notWhole "number of digits" digits) := by
      show (f.run (vs.map Value.toNumber) >>= fun x => pure (Value.number _ x)) = _
      rw [hrun]
      rfl
    exact ⟨digits, strict_fails hvs hfails⟩

theorem buildAggregate_passes {f : Aggregate} (hf : f ≠ .concat) (hargs : args ≠ [])
    (hparams : badParam? 1 [.number] (args.map type) = none) : BuildsPassing c read (.aggregate f) args := by
  have hbuilt : ∃ t : ValueType, t.isNumeric = true ∧ buildStandard c read (.aggregate f) args = pure (.aggregate f t args) := by
    have hjoin : ((args.map type).foldl ValueType.join .integer).isNumeric = true := NumberFunction.foldl_join_numeric _ rfl
    cases f with
    | concat => exact absurd rfl hf
    | mean => exact ⟨.double, rfl, checkParams_bind hparams _ _⟩
    | least | greatest | sum => exact ⟨_, hjoin, checkParams_bind hparams _ _⟩
  obtain ⟨t, ht, hbuilt⟩ := hbuilt
  refine ⟨.aggregate f t args, hbuilt, all_isConstant_eq_false hargs hrow, fun hvs _ hmissing _ => ?_,
    fun _ h => absurd h (Builtin.not_roundsToFraction (by simp) _)⟩
  have hpolled : exec (polledValues c _ args) _ = (.ok _, _) := hvs
  rw [value, exec_bind, hpolled]
  exact congrArg Except.ok
    ((Aggregate.run_of_missing hf t (Value.exists_missing_toNumber hmissing)).trans (Value.number_nan ht))

theorem buildBinomial_passes {n k : Node} (hargs : args = [n, k]) (hparams : badParam? 1 [.number] (args.map type) = none) :
    BuildsPassing c read .binomial args := by
  subst hargs
  have hconst : n.isConstant = false := hrow n List.mem_cons_self
  refine ⟨.binomial n k, checkParams_bind hparams _ _, by simp [isFoldable, hconst], fun hvs _ hmissing _ => ?_,
    fun _ h => absurd h (Builtin.not_roundsToFraction (by simp) _)⟩
  obtain ⟨x, y, w₁, rfl, hn, hk⟩ := values_pair hvs
  have hone : (Double.isMissing x.toNumber || Double.isMissing y.toNumber) = true := by
    obtain ⟨v, hv, hv'⟩ := hmissing
    have hnumber := Value.isMissing_toNumber hv'
    rcases List.mem_cons.1 hv with rfl | hv
    · rw [hnumber, Bool.true_or]
    · rw [← List.mem_singleton.1 hv, hnumber, Bool.or_true]
  rw [value, exec_bind, hn]
  simp only [exec_bind, hk, binomialOf_missing hone, exec_pure]
  rfl

/-! ### Texts -/

theorem buildText_passes {f : TextFunction} (harity : f.signature.arity.accepts args.length = true) (hargs : args ≠ [])
    (hparams : badParam? 1 (Builtin.text f).params (args.map type) = none) : BuildsPassing c read (.text f) args := by
  have hnone : ∀ p ∈ args.map constant?, p = none := by
    intro p hp
    obtain ⟨n, hn, rfl⟩ := List.mem_map.1 hp
    exact Option.isSome_eq_false_iff.1 (hrow n hn) |> Option.isNone_iff_eq_none.1
  have hregex : ∀ check ∈ f.checks, ∃ place whole, check = .regex place whole ∧ place < (args.map constant?).length := by
    intro check hcheck
    have hkind : ∃ place whole, check = .regex place whole := by
      cases f <;> simp [TextFunction.checks] at hcheck <;> exact ⟨_, _, hcheck⟩
    obtain ⟨place, whole, rfl⟩ := hkind
    exact ⟨place, whole, rfl, by rw [List.length_map]; exact checks_within f harity hcheck⟩
  have hbuilt : buildStandard c read (.text f) args = pure (.strict (.text f) f.result args) := by
    refine (checkParams_bind hparams _ _).trans ?_
    show (checkConstants _ args f.checks >>= fun _ => pure _) = _
    rw [checkConstants, ConstantCheck.forM_of_none hnone hregex]
    rfl
  refine ⟨_, hbuilt, all_isConstant_eq_false hargs hrow, fun {eval w w' vs} hvs htypes hmissing _ => ?_,
    fun _ h => absurd h (Builtin.not_roundsToFraction (by simp) _)⟩
  have hlength : vs.length = args.length := by simpa using congrArg List.length htypes
  exact strict_yields hvs (f.run_of_missing (hlength ▸ harity) hmissing)

/-! ### All functions that pass missing values on -/

theorem buildStandard_passes (hb : b ∈ Builtin.standard ++ Builtin.ofHost) (hgroup : b.PassesMissing)
    (harity : b.signature.arity.accepts args.length = true) (hparams : badParam? 1 b.params (args.map type) = none) :
    BuildsPassing c read b args := by
  have hargs : args ≠ [] := by
    rintro rfl
    have hleast : b.signature.arity.least ≤ 0 := of_decide_eq_true (Bool.and_eq_true_iff.1 harity).1
    have := Builtin.least_of_passesMissing hgroup
    omega
  have hname : b.signature.group = "math" ∨ b.signature.group = "text" := hgroup.imp_right And.left
  cases b with
  | number f =>
    have hf : f ∈ Builtin.numbers := by simpa [Builtin.standard, Builtin.ofHost] using hb
    have hmath : f.signature.group = "math" := hname.resolve_right fun h => by cases f <;> exact absurd h (by decide)
    exact buildNumber_passes hrow hf hmath harity hparams
  | text f => exact buildText_passes hrow harity hargs hparams
  | aggregate f =>
    have hconcat : f ≠ .concat := by
      rintro rfl
      exact (hgroup.resolve_left (by decide)).2 rfl
    refine buildAggregate_passes hrow hconcat hargs ?_
    cases f <;> first | exact hparams | exact absurd rfl hconcat
  | binomial =>
    obtain ⟨n, k, hpair⟩ := List.length_eq_two.1 (length_of_exact harity)
    exact buildBinomial_passes hrow hpair hparams
  | order o => cases o <;> exact absurd hname (by decide)
  | equality negated => cases negated <;> exact absurd hname (by decide)
  | logic l => cases l <;> exact absurd hname (by decide)
  | calendar f => cases f <;> exact absurd hname (by decide)
  | _ => exact absurd hname (by decide)

end Row

end Node

namespace Context

open Run Node

/-- A call of a function of mathematics, or of texts other than `concat`, on nodes of accepted types none of which is constant can
be built everywhere.  In a row in which one of its arguments is missing it yields the missing value of its type, unless it rounds
to a fraction of digits: that is a fault, also if the number to be rounded is missing. -/
theorem missing_passes {c : Context} {b : Builtin} (hb : c.function? b.name = some (.builtin b)) (hgroup : b.PassesMissing)
    {args : List Node} (harity : b.signature.arity.accepts args.length = true)
    (hparams : badParam? 1 b.params (args.map Node.type) = none) (hrow : ∀ n ∈ args, n.isConstant = false) :
    ∃ e : Expression, (∀ w, (c.call b.name args).exec w = (.ok e, w)) ∧ e.isConstant = false ∧
      ∀ fuel w vs w', (b.argumentValues c (c.rowText fuel) args).exec w = (.ok vs, w') →
        vs.map Value.type = args.map Node.type → (∃ v ∈ vs, v.isMissing = true) →
          (¬ b.RoundsToFraction vs → ((c.evaluateWithin fuel e.root).exec w).1 = .ok (.missing e.type)) ∧
          (b.RoundsToFraction vs → ∃ digits, ((c.evaluateWithin fuel e.root).exec w).1 =
            .error (.fault (.value b.name (.notWhole "number of digits" digits)))) := by
  have hpassing : BuildsPassing c c.readInner b args :=
    buildStandard_passes hrow (mem_of_builtin (mem_of_function? hb)) hgroup harity hparams
  obtain ⟨n, hbuilt, hpasses⟩ := hpassing
  have hconst : n.isConstant = false := by
    cases n <;> first | rfl | exact absurd hpasses.row Bool.false_ne_true.symm
  refine ⟨⟨n⟩, fun w => ?_, hconst, fun fuel w vs w' hvs htypes hmissing => ?_⟩
  · rw [call_eq hb harity, hbuilt, pure_bind, fold, hpasses.row]
    rfl
  · rw [evaluateWithin_eq]
    exact ⟨hpasses.missing hvs htypes hmissing, hpasses.fraction hvs⟩

/-- A missing text has no character at a place that no text has. -/
theorem missing_passes_char : ∃ e : Expression,
    (∀ w, (({} : Context).call "char" [.varying (.text none), .varying (.double (-2.5))]).exec w = (.ok e, w)) ∧
      ∀ w, ((e.evaluate {}).exec w).1 = .ok (.missing e.type) := by
  have hchar : ({} : Context).function? (Builtin.text .char).name = some (.builtin (.text .char)) := by decide +kernel
  have hrow : ∀ n ∈ [Node.varying (.text none), .varying (.double (-2.5))], n.isConstant = false := by
    simp [Node.isConstant, Node.constant?]
  obtain ⟨e, hbuilt, -, hvalue⟩ := missing_passes hchar (Or.inr ⟨rfl, by decide⟩) rfl rfl hrow
  refine ⟨e, hbuilt, fun w => ?_⟩
  obtain ⟨w₂, hvs⟩ := (yieldInTurn_varying {} w (.text none) (.double (-2.5))).values
  exact (hvalue evalLimit w _ w₂ hvs rfl ⟨.text none, List.mem_cons_self, rfl⟩).1
    (Builtin.not_roundsToFraction (by simp) _)

/-- A missing number to be rounded, and half a digit. -/
def halfDigit : Context := { bindings := [⟨"x", .missing .double, false⟩, ⟨"d", .double 0.5, false⟩] }

/-- A missing number cannot be rounded to half a digit. -/
theorem missing_refused : ∃ e : Expression, ((halfDigit.parse "round(x, d)").exec {}).1 = .ok e ∧
    ((e.evaluate halfDigit).exec {}).1 = .error (.fault (.value "round" (.notWhole "number of digits" 0.5))) := by
  obtain ⟨e, he, hfault⟩ := exists_ok (r := ((halfDigit.parse "round(x, d)").exec {}).1)
    (p := fun e => decide (((e.evaluate halfDigit).exec {}).1 =
      .error (.fault (.value "round" (.notWhole "number of digits" 0.5))))) (by decide +kernel)
  exact ⟨e, he, of_decide_eq_true hfault⟩

end Context

end Rowwise
