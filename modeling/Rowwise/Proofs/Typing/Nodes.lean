import Rowwise.Proofs.Evaluation.Building
import Rowwise.Proofs.Evaluation.Columns
import Rowwise.Proofs.Evaluation.Framing

/-!
# Rowwise.Proofs.Typing.Nodes — sound nodes yield values of their type

A node is sound over some columns if its parts are and each part is what the part above it relies on (`Node.Sound`).  Where
these columns are read as what they are made of a sound node yields a value of its type, or fails (`Node.Sound.value_yields`);
and over the columns of tables it fails without showing a defect (`Contract.types_columns`).  If numbers of the type of whole
numbers are to be whole as well, constants and columns must hold such numbers, and nothing may happen that spoils them
(`Event.Exact`).
-/

namespace Rowwise

/-! ### Runs without defects -/

/-- The halt shows no defect; `endless` says whether it may be that texts nest without end. -/
def Halt.Sound (endless : Bool) : Halt → Prop
  | .fault f => f.isDefect = false
  | .exhausted => endless = true

theorem Halt.Sound.within {endless : Bool} {h : Halt} (hh : h.Sound endless) (function : String) :
    (h.within function).Sound endless := by
  cases h with
  | fault f => exact Fault.isDefect_within hh function
  | exhausted => exact hh

/-- Runs over the columns of a world, in which no defect shows. -/
def Contract.columns (w₀ : World) (endless : Bool) : Contract where
  holds := w₀.SameColumns
  moves _ _ := True
  allows := Halt.Sound endless
  moves_refl _ := trivial
  moves_trans _ _ := trivial

theorem Contract.usual_columns (w₀ : World) (endless : Bool) : (Contract.columns w₀ endless).Usual where
  poll _ _ _ hsame := ⟨hsame, trivial⟩
  note _ _ hsame := ⟨hsame, trivial⟩
  streams _ _ hsame := ⟨hsame, trivial⟩
  fault hf := hf
  within function hh := hh.within function

namespace Run

variable {α : Type} {w₀ : World} {endless : Bool} {Q : α → Prop} {x : Run α}

/-- A column that a name was resolved to is read as a value of its type. -/
theorem Meets.readColumn_columns (hw : w₀.Tabular) {source : Nat} {name : String} {t : ValueType}
    (hc : w₀.HasColumn source name t) :
    Meets (.columns w₀ endless) (Run.readColumn source name t.storage) fun v => v.type = t :=
  Meets.readColumn (fun w hsame => ⟨hsame.trans (sameColumns_afterRead source name t.storage w), trivial⟩)
    fun _ hsame => World.cell_of_hasColumn (hsame.tabular hw) (hsame.hasColumn hc)

end Run

/-! ### Values of a type -/

/-- The value is one of the type; if `whole` holds, it is as values of this type are meant to be. -/
structure Value.IsOf (whole : Prop) (t : ValueType) (v : Value) : Prop where
  type : v.type = t
  isWhole : whole → v.IsWhole

theorem Value.isOf_of_type {whole : Prop} {t : ValueType} {v : Value} (h : v.type = t) (ht : t ≠ .integer) : v.IsOf whole t :=
  ⟨h, fun _ => isWhole_of_type (h ▸ ht)⟩

theorem Value.isOf_missing (whole : Prop) (t : ValueType) : (missing t).IsOf whole t :=
  ⟨type_missing t, fun _ => isWhole_missing t⟩

theorem Value.IsOf.cast {whole : Prop} {t target : ValueType} {v u : Value} {zone : Zone} (h : v.IsOf whole t)
    (hcast : v.cast zone target = .ok u) : u.IsOf whole target :=
  ⟨type_cast hcast, fun hwhole => isWhole_cast hcast (h.isWhole hwhole)⟩

/-! ### Runs that keep types -/

/-- What nodes do besides evaluating their parts has the property `rel` of runs and their results.  A column in `C` is read as what
it is made of, and a column found by its name as one of the type that is asked for; if `whole` holds, whole numbers come in as
such and nothing spoils them.  Functions of the host are called only if `hosts` holds. -/
structure Run.Types (c : Context) (rel : {α : Type} → Run α → (α → Prop) → Prop) (whole : Prop)
    (C : Nat → String → ValueType → Prop) (hosts : Prop) : Prop where
  relates : Run.Relates fun x _ Q => rel x Q
  poll : rel c.poll fun _ => True
  inText {α : Type} {x : Run α} {Q : α → Prop} : rel x Q → rel (Run.inText x) Q
  offers {v : Value} : c.Offers v → whole → v.IsWhole
  supplied : rel (Run.note .supplied) fun _ => True
  applied (f : StrictFunction) (args : List Value) :
    rel (Run.note (.applied f args)) fun _ => whole → (Event.applied f args).Exact
  time : rel currentTime fun _ => True
  random (stream : Nat) : rel (nextRandom stream) fun v => v.type = .double
  column {source : Nat} {name : String} {type : ValueType} : C source name type →
    rel (Run.readColumn source name type.storage) fun v => (v.retag type).IsOf whole type
  columnOf? (name : String) : rel (Node.columnOf? name) fun n? =>
    ∀ n, n? = some n → ∃ source type, n = .column source name type ∧ C source name type
  columnValue (target : ValueType) (name : String) : rel (columnValue c target name) (Value.IsOf whole target)
  host {f : HostFunction} {args : List Node} {eval : ValueType → String → Run Value} : hosts →
    (∀ n ∈ args, rel (n.value c eval) (Value.IsOf whole n.type)) →
      rel ((Node.host f args).value c eval) (Value.IsOf whole f.action.type)
  built {f : HostFunction} {args : List Node} {P : Node → Prop} : f ∈ c.functions →
    (hosts → rel ((Node.host f args).fold c) P) → rel (Node.buildHost c f args) P

namespace Run.Types

variable {α β : Type} {c : Context} {rel : {α : Type} → Run α → (α → Prop) → Prop} {whole : Prop}
  {C : Nat → String → ValueType → Prop} {hosts : Prop} (S : Run.Types c rel whole C hosts)

include S

theorem pure {a : α} {Q : α → Prop} (h : Q a) : rel (Pure.pure a) Q := S.relates.pure h

theorem fail {f : Fault} {Q : α → Prop} (h : f.isOrdinary = true) : rel (Run.fail f) Q := S.relates.fail h

theorem bind {x : Run α} {f : α → Run β} {P : α → Prop} {Q : β → Prop} (hx : rel x P) (hf : ∀ a, P a → rel (f a) Q) :
    rel (x >>= f) Q :=
  @Run.Relates.bind _ S.relates _ _ x x f f P Q hx hf

theorem mono {x : Run α} {P Q : α → Prop} (hx : rel x P) (h : ∀ a, P a → Q a) : rel x Q :=
  @Run.Relates.mono _ S.relates _ x x P Q hx h

theorem nested {x : Run α} {Q : α → Prop} (function : String) (hx : rel x Q) : rel (Run.nested function x) Q :=
  @Run.Relates.within _ S.relates _ x x Q function hx

theorem valueOf_proper {r : Except ValueCause α} {Q : α → Prop} {function : String} (h : Proper Q r) :
    rel (Run.valueOf function r) Q :=
  S.relates.valueOf_proper h

theorem typed {v : Value} {t target : ValueType} (hv : v.IsOf whole t) (function : String) :
    rel (Run.typed function (v.cast c.options.zone target)) (Value.IsOf whole target) := by
  cases hcast : v.cast c.options.zone target with
  | ok u => exact S.pure (hv.cast hcast)
  | error cause => exact S.fail rfl

theorem binomialFrom (n : Int) (i : Nat) (result : Float) (factors : Nat) :
    rel (binomialFrom c n i result factors) fun _ => True := by
  induction factors generalizing i result with
  | zero => exact S.pure trivial
  | succ factors ih =>
    have hrest : ∀ r : Float, rel
        (if Double.isInfinite r then Pure.pure r else Rowwise.binomialFrom c n (i + 1) r factors) fun _ => True := by
      intro r
      split
      · exact S.pure trivial
      · exact ih _ _
    rw [Rowwise.binomialFrom]
    split
    · exact S.bind S.poll fun _ _ => hrest _
    · exact hrest _

/-- Binomial coefficients are rounded to whole numbers. -/
theorem binomialOf (n k : Float) : rel (binomialOf c n k) Double.IsIntegral := by
  unfold Rowwise.binomialOf
  split
  · exact S.pure Double.isIntegral_nan
  · refine S.bind (S.valueOf_proper (wholeNumber_proper _ n)) fun n _ =>
      S.bind (S.valueOf_proper (wholeNumber_proper _ k)) fun k _ => ?_
    split
    · exact S.fail rfl
    · split
      · have hzero : Double.IsIntegral 0 := by decide +kernel
        exact S.pure hzero
      · exact S.bind (S.binomialFrom _ _ _ _) fun _ _ => S.pure (Double.isIntegral_nearest _)

theorem macroText (name : String) : rel (macroText name) fun _ => True := by
  refine S.bind (S.relates.scope? _) fun text _ => ?_
  split
  · exact S.pure trivial
  · exact S.fail rfl

theorem parameterText (operator name : Option String) : rel (parameterText c operator name) fun v => v.type = .text := by
  unfold Rowwise.parameterText
  split
  · split
    · exact S.pure rfl
    · exact S.fail rfl
  · exact S.pure rfl

end Run.Types

namespace Node

open Run

/-! ### Sound nodes -/

/-- The node refers to columns in `C`, and each part of it has the type that the part above relies on; if `whole` holds, the
values in it are as values of their types are meant to be.  It has functions of the host in it only if `hosts` holds. -/
inductive Sound (whole : Prop) (C : Nat → String → ValueType → Prop) (hosts : Prop) : Node → Prop where
  | const {v} : (whole → v.IsWhole) → Sound whole C hosts (.const v)
  | varying {v} : (whole → v.IsWhole) → Sound whole C hosts (.varying v)
  | column {source name type} : C source name type → Sound whole C hosts (.column source name type)
  | strict {f type args} : (∀ n ∈ args, Sound whole C hosts n) → type = strictType f args → f.Fits type (args.map Node.type) →
      Sound whole C hosts (.strict f type args)
  | aggregate {f type args} : (∀ n ∈ args, Sound whole C hosts n) → type = f.result (args.map Node.type) → f.Fits type →
      Sound whole C hosts (.aggregate f type args)
  | binomial {n k} : Sound whole C hosts n → Sound whole C hosts k → Sound whole C hosts (.binomial n k)
  | choose {type condition yes no} : Sound whole C hosts condition → Sound whole C hosts yes → Sound whole C hosts no →
      yes.type = type → no.type = type → Sound whole C hosts (.choose type condition yes no)
  | convert {function target n} : Sound whole C hosts n → n.type.castable target = true →
      Sound whole C hosts (.convert function target n)
  | nested {n} : Sound whole C hosts n → Sound whole C hosts (.nested n)
  | spliced {n} : Sound whole C hosts n → Sound whole C hosts (.spliced n)
  | evalText {target text} : Sound whole C hosts text → Sound whole C hosts (.evalText target text)
  | columnNamed {target name} : Sound whole C hosts name → Sound whole C hosts (.columnNamed target name)
  | macroNamed {name} : Sound whole C hosts name → Sound whole C hosts (.macroNamed name)
  | macroOr {name default} : Sound whole C hosts name → Sound whole C hosts default → default.type = .text →
      Sound whole C hosts (.macroOr name default)
  | refuse (function : String) (cause : TypeCause) : Sound whole C hosts (.refuse function cause)
  | now : Sound whole C hosts .now
  | random (stream : Nat) : Sound whole C hosts (.random stream)
  | seeded {seed} : Sound whole C hosts seed → Sound whole C hosts (.seeded seed)
  | parameter {operator name} : Sound whole C hosts operator → Sound whole C hosts name →
      Sound whole C hosts (.parameter operator name)
  | host {f args} : hosts → (∀ n ∈ args, Sound whole C hosts n) → Sound whole C hosts (.host f args)

/-! ### Values of sound nodes -/

/-- The value is one of the type of the node, and the value of the node itself if the node is constant. -/
structure Yields (whole : Prop) (n : Node) (v : Value) : Prop extends v.IsOf whole n.type where
  constant {u : Value} : n.constant? = some u → v = u

section Yields

variable {whole : Prop} {args : List Node} {vs : List Value}

theorem types_of_yields (h : List.Forall₂ (Yields whole) args vs) : vs.map Value.type = args.map Node.type := by
  induction h with
  | nil => rfl
  | cons hv _ ih => rw [List.map_cons, List.map_cons, hv.type, ih]

theorem isWhole_of_yields (h : List.Forall₂ (Yields whole) args vs) (hwhole : whole) : ∀ v ∈ vs, v.IsWhole := by
  induction h with
  | nil => simp
  | cons hv _ ih => exact List.forall_mem_cons.2 ⟨hv.isWhole hwhole, ih⟩

/-- A power is of the type of whole numbers only if its exponent is constant and not negative. -/
theorem isInteger_of_powerType {base exponent : Node} {v u : Value} (h : powerType base exponent = .integer)
    (hv : Yields whole base v) (hu : Yields whole exponent u) : NumberFunction.power.IsInteger [v, u] := by
  unfold powerType at h
  split at h
  · rename_i e he
    split at h
    · rename_i hjoin
      obtain ⟨hbase, hexponent⟩ := ValueType.join_eq_integer hjoin.1
      obtain ⟨w, hw, hnumber⟩ := Option.bind_eq_some_iff.1 he
      have hv : v.type = .integer := hv.type.trans hbase
      have hu' : u.type = .integer := hu.type.trans hexponent
      rw [← hu.constant hw] at hnumber
      cases v with
      | integer x =>
        cases u with
        | integer y =>
          cases hnumber
          exact hjoin.2
        | _ => cases hu'
      | _ => cases hv
    · cases h
  · cases h

theorem args_of_power (h : strictType (.number .power) args = .integer) : ∃ base exponent, args = [base, exponent] := by
  match args with
  | [base, exponent] => exact ⟨base, exponent, rfl⟩
  | [] | [_] | _ :: _ :: _ :: _ => exact absurd (show ValueType.double = .integer from h) (by decide)

theorem isInteger_of_strictType {f : StrictFunction} (h : List.Forall₂ (Yields whole) args vs)
    (htype : strictType f args = .integer) : f.IsInteger vs := by
  have htypes := types_of_yields h
  cases f with
  | number f =>
    by_cases hpower : f = .power
    · subst hpower
      obtain ⟨base, exponent, rfl⟩ := args_of_power htype
      cases h with
      | cons hv hrest =>
        cases hrest with
        | cons hu hnil =>
          cases hnil
          exact isInteger_of_powerType htype hv hu
    · have hresult : f.result (args.map Node.type) = .integer := by
        cases f <;> first | exact htype | exact absurd rfl hpower
      rw [← htypes] at hresult
      cases f <;> first | exact hresult | exact absurd rfl hpower
  | text f => exact htype
  | calendar f => exact htype
  | join | order | equality | logic | isMissing => cases htype

end Yields

variable {c : Context} {eval : ValueType → String → Run Value} {rel : {α : Type} → Run α → (α → Prop) → Prop} {whole : Prop}
  {C : Nat → String → ValueType → Prop} {hosts : Prop}

section Values

variable (S : Run.Types c rel whole C hosts)

include S

theorem yields_of_isOf {n : Node} (hn : n.constant? = none) (h : rel (n.value c eval) (Value.IsOf whole n.type)) :
    rel (n.value c eval) (Yields whole n) :=
  S.mono h fun v hv => ⟨hv, fun hu => by rw [hn] at hu; cases hu⟩

theorem values_yield {ns : List Node} (h : ∀ n ∈ ns, rel (n.value c eval) (Yields whole n)) :
    rel (values c eval ns) (List.Forall₂ (Yields whole) ns) := by
  induction ns with
  | nil =>
    rw [values]
    exact S.pure .nil
  | cons n ns ih =>
    rw [values]
    refine S.bind (h n List.mem_cons_self) fun v hv => ?_
    exact S.bind (ih fun m hm => h m (List.mem_cons_of_mem _ hm)) fun vs hvs => S.pure (.cons hv hvs)

theorem polledValues_yield {ns : List Node} (h : ∀ n ∈ ns, rel (n.value c eval) (Yields whole n)) :
    rel (polledValues c eval ns) (List.Forall₂ (Yields whole) ns) := by
  induction ns with
  | nil =>
    rw [polledValues]
    exact S.pure .nil
  | cons n ns ih =>
    rw [polledValues]
    refine S.bind S.poll fun _ _ => S.bind (h n List.mem_cons_self) fun v hv => ?_
    exact S.bind (ih fun m hm => h m (List.mem_cons_of_mem _ hm)) fun vs hvs => S.pure (.cons hv hvs)

/-- A sound node yields a value of its type, if texts yield values of the types that are asked of them. -/
theorem Sound.value_yields {n : Node} (h : n.Sound whole C hosts)
    (heval : ∀ t s, rel (eval t s) (Value.IsOf whole t)) : rel (n.value c eval) (Yields whole n) := by
  induction h with
  | const hv =>
    rw [value]
    exact S.pure ⟨⟨rfl, hv⟩, Option.some.inj⟩
  | varying hv =>
    refine yields_of_isOf S rfl ?_
    rw [value]
    exact S.bind S.supplied fun _ _ => S.pure ⟨rfl, hv⟩
  | column hc =>
    refine yields_of_isOf S rfl ?_
    rw [value]
    exact S.bind (S.column hc) fun v hv => S.pure hv
  | @strict f type args _ htype hfits ih =>
    refine yields_of_isOf S rfl ?_
    rw [value]
    refine S.bind (values_yield S ih) fun vs hvs => S.bind (S.applied f vs) fun _ hexact => S.valueOf_proper ?_
    have hproper := hfits c.options.zone vs (types_of_yields hvs)
    cases hrun : f.run c.options.zone type vs with
    | error cause =>
      rw [hrun] at hproper
      exact hproper
    | ok v =>
      rw [hrun] at hproper
      refine ⟨hproper, fun hwhole => ?_⟩
      exact StrictFunction.isWhole_run hrun hproper (fun hinteger => isInteger_of_strictType hvs (htype.symm.trans hinteger))
        (hexact hwhole) (isWhole_of_yields hvs hwhole)
  | @aggregate f type args _ htype hfits ih =>
    refine yields_of_isOf S rfl ?_
    rw [value]
    refine S.bind (polledValues_yield S ih) fun vs hvs => S.pure ⟨hfits vs, fun hwhole => ?_⟩
    rw [htype, ← types_of_yields hvs]
    exact f.isWhole_run (isWhole_of_yields hvs hwhole)
  | binomial _ _ ihn ihk =>
    refine yields_of_isOf S rfl ?_
    rw [value]
    exact S.bind ihn fun n _ => S.bind ihk fun k _ => S.bind (S.binomialOf _ _) fun x hx => S.pure ⟨rfl, fun _ => hx⟩
  | @choose type condition yes no _ _ _ hyes hno ihc ihy ihn =>
    refine yields_of_isOf S rfl ?_
    rw [value]
    refine S.bind ihc fun v _ => ?_
    split
    · exact S.mono ihy fun v hv => hyes ▸ hv.toIsOf
    · exact S.mono ihn fun v hv => hno ▸ hv.toIsOf
    · exact S.pure (Value.isOf_missing whole type)
  | convert _ _ ih =>
    refine yields_of_isOf S rfl ?_
    rw [value]
    exact S.bind ih fun v hv => S.typed hv.toIsOf _
  | nested _ ih =>
    refine yields_of_isOf S rfl ?_
    rw [value]
    exact S.nested _ (S.inText (S.mono ih fun v hv => hv.toIsOf))
  | spliced _ ih =>
    refine yields_of_isOf S rfl ?_
    rw [value]
    exact S.inText (S.mono ih fun v hv => hv.toIsOf)
  | @evalText target text _ ih =>
    refine yields_of_isOf S rfl ?_
    rw [value]
    refine S.bind ih fun v _ => ?_
    split
    · exact S.pure (Value.isOf_missing whole target)
    · exact heval target _
  | @columnNamed target name _ ih =>
    refine yields_of_isOf S rfl ?_
    rw [value]
    refine S.bind ih fun v _ => ?_
    split
    · exact S.pure (Value.isOf_missing whole target)
    · exact S.columnValue target _
  | macroNamed _ ih =>
    refine yields_of_isOf S rfl ?_
    rw [value]
    refine S.bind ih fun v _ => ?_
    split
    · exact S.pure (Value.isOf_missing whole .text)
    · exact S.bind (S.macroText _) fun text _ => S.pure (Value.isOf_of_type (t := .text) rfl (by decide))
  | macroOr _ _ hdefault ihn ihd =>
    refine yields_of_isOf S rfl ?_
    rw [value]
    refine S.bind ihn fun v _ => ?_
    split
    · exact S.pure (Value.isOf_missing whole .text)
    · refine S.bind (S.relates.scope? _) fun text _ => ?_
      split
      · exact S.pure (Value.isOf_of_type (t := .text) rfl (by decide))
      · refine S.mono ihd fun v hv => ?_
        rw [type, ← hdefault]
        exact hv.toIsOf
  | refuse function cause =>
    refine yields_of_isOf S rfl ?_
    rw [value]
    exact S.fail rfl
  | now =>
    refine yields_of_isOf S rfl ?_
    rw [value]
    exact S.bind S.time fun t _ => S.pure (Value.isOf_of_type (t := .instant) rfl (by decide))
  | random stream =>
    refine yields_of_isOf S rfl ?_
    rw [value]
    exact S.mono (S.random stream) fun v hv => Value.isOf_of_type (t := .double) hv (by decide)
  | seeded _ ih =>
    refine yields_of_isOf S rfl ?_
    rw [value]
    exact S.bind ih fun v _ => S.pure (Value.isOf_of_type (t := .double) rfl (by decide))
  | parameter _ _ iho ihp =>
    refine yields_of_isOf S rfl ?_
    rw [value]
    exact S.bind iho fun o _ => S.bind ihp fun p _ =>
      S.mono (S.parameterText _ _) fun v hv => Value.isOf_of_type (t := .text) hv (by decide)
  | host hhosts _ ih =>
    refine yields_of_isOf S rfl ?_
    exact S.host hhosts fun n hn => S.mono (ih n hn) fun v hv => hv.toIsOf

theorem Sound.value_isOf {n : Node} (h : n.Sound whole C hosts) (heval : ∀ t s, rel (eval t s) (Value.IsOf whole t)) :
    rel (n.value c eval) (Value.IsOf whole n.type) :=
  S.mono (h.value_yields S heval) fun _ hv => hv.toIsOf

end Values

/-! ### Under contracts -/

section Contracts

variable {K : Contract}

theorem firstValue_meets (halts : ∀ h, K.allows h) {ns : List Node}
    (h : ∀ n ∈ ns, Meets K (n.value c eval) (Value.IsOf whole n.type)) (function : String) (storage : Storage) :
    Meets K (firstValue c eval function storage ns) fun v => v.type.storage = storage := by
  cases ns with
  | nil =>
    rw [firstValue]
    exact Meets.fail (halts _)
  | cons n ns =>
    rw [firstValue]
    unfold request
    split
    · rename_i hstorage
      exact (h n List.mem_cons_self).mono fun v hv => by rw [hv.type, hstorage]
    · exact Meets.fail (halts _)

/-- A function of the host yields a value of the type that it says. -/
theorem host_meets (hK : K.Usual) (halts : ∀ h, K.allows h) {f : HostFunction} {args : List Node}
    (h : ∀ n ∈ args, Meets K (n.value c eval) (Value.IsOf whole n.type)) :
    Meets K ((Node.host f args).value c eval) fun v => v.type = f.action.type := by
  rw [value]
  refine Meets.bind (P := fun _ => True) (Meets.note (hK.note rfl) trivial) fun _ _ => ?_
  cases f.action with
  | probe =>
    refine Meets.bind (P := fun _ => True) (Meets.note (hK.note rfl) trivial) fun _ _ => ?_
    exact Meets.bind (firstValue_meets halts h f.name .number) fun v _ => Meets.pure rfl
  | yields type _ v =>
    refine Meets.sound (fun u hu => ?_) fun _ _ => halts _
    unfold Value.conform at hu
    split at hu
    · rename_i hstorage
      cases hu
      exact Value.type_retag hstorage
    · cases hu
  | relay type => exact Meets.bind (firstValue_meets halts h f.name type.storage) fun v hv => Meets.pure (Value.type_retag hv)
  | fails _ => exact Meets.fail (halts _)
  | row type =>
    have hnumeric : (HostAction.row type).type.isNumeric = true := by
      show (if type.isNumeric then type else ValueType.double).isNumeric = true
      split
      · assumption
      · rfl
    exact Meets.bind currentRow_meets fun _ _ => Meets.pure (Value.type_number hnumeric _)

end Contracts

end Node

/-- Under the contract a column in `C` is read as what it is made of, and a column found by its name as one of the type that is
asked for.  Functions of the host may end in any halt that they are said to, which is all of them if there are any. -/
structure Contract.Types (K : Contract) (C : Nat → String → ValueType → Prop) (hosts : Prop) : Prop where
  usual : K.Usual
  opened : K.Lets fun w => { w with events := .opened :: w.events }
  closed : K.Lets fun w => { w with events := .closed :: w.events }
  column {source : Nat} {name : String} {type : ValueType} : C source name type →
    Run.Meets K (Run.readColumn source name type.storage) fun v => v.type.storage = type.storage
  columnValue (c : Context) (target : ValueType) (name : String) :
    Run.Meets K (columnValue c target name) fun v => v.type = target
  found {w : World} {source : Nat} {name : String} {type : ValueType} : K.holds w →
    w.column? name = some (source, type) → C source name type
  hosted : hosts → ∀ h, K.allows h

namespace Contract

open Run

/-- To meet such a contract keeps types.  Nothing is said of whether numbers are whole. -/
theorem Types.runs {K : Contract} {C : Nat → String → ValueType → Prop} {hosts : Prop} {c : Context} (hK : K.Types C hosts)
    (hhosts : ∀ f ∈ c.functions, hosts) : Run.Types c (fun x Q => Meets K x Q) False C hosts where
  relates := hK.usual.relates
  poll := Meets.poll hK.usual trivial
  inText h := Meets.inText hK.opened hK.closed h
  offers _ h := h.elim
  supplied := Meets.note (hK.usual.note rfl) trivial
  applied _ _ := Meets.note (hK.usual.note rfl) False.elim
  time := currentTime_meets hK.usual
  random stream := nextRandom_meets hK.usual stream
  column h := (hK.column h).mono fun _ hv => ⟨Value.type_retag hv, False.elim⟩
  columnOf? _ := Meets.columnOf? fun _ source type hw hcol => ⟨source, type, rfl, hK.found hw hcol⟩
  columnValue target name := (hK.columnValue _ target name).mono fun _ hv => ⟨hv, False.elim⟩
  host hhosts h := (Node.host_meets hK.usual (hK.hosted hhosts) h).mono fun _ hv => ⟨hv, False.elim⟩
  built hf h := (h (hhosts _ hf)).buildHost hK.usual

theorem types_columns {w₀ : World} (hw : w₀.Tabular) (endless : Bool) :
    (Contract.columns w₀ endless).Types w₀.HasColumn False where
  usual := usual_columns w₀ endless
  opened _ hsame := ⟨hsame, trivial⟩
  closed _ hsame := ⟨hsame, trivial⟩
  column hc := (Meets.readColumn_columns hw hc).mono fun _ hv => congrArg ValueType.storage hv
  columnValue c target name := by
    refine Meets.bind (Meets.world (Q := w₀.SameColumns) fun _ h => h) fun w hsame => ?_
    cases hcol : w.column? name with
    | none => exact Meets.fail rfl
    | some p =>
      have hc : w₀.HasColumn p.1 name p.2 := hsame.symm.hasColumn (World.hasColumn_of_column? hcol)
      refine Meets.bind (Meets.readColumn_columns hw hc) fun v _ => ?_
      exact Meets.typed (fun u hu => Value.type_cast hu) fun cause _ => rfl
  found hsame hcol := (World.SameColumns.symm hsame).hasColumn (World.hasColumn_of_column? hcol)
  hosted hfalse := hfalse.elim

/-- Whatever the sources and functions of the host are, what comes out of a node has its type. -/
theorem types_agreeing : Contract.agreeing.Types (fun _ _ _ => True) True where
  usual := Contract.frames_agreeing.usual
  opened := Contract.frames_agreeing.opened
  closed := Contract.frames_agreeing.closed
  column {source name type} _ := by
    intro w _
    rw [exec_readColumn]
    refine ⟨trivial, w.agrees_afterRead source name type.storage, ?_⟩
    cases hcell : w.cell source name type.storage with
    | ok v => exact World.storage_of_cell hcell
    | error d => trivial
  columnValue c target name := by
    refine Meets.bind (P := fun _ => True) (Meets.world fun _ _ => trivial) fun w _ => ?_
    split
    · exact Meets.fail trivial
    · refine Meets.bind (Contract.frames_agreeing.readColumn_meets trivial) fun v _ => ?_
      exact Meets.typed (fun u hu => Value.type_cast hu) fun _ _ => trivial
  found _ _ := trivial
  hosted _ _ := trivial

end Contract

end Rowwise

