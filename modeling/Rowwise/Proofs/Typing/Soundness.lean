import Rowwise.Eval.Expression
import Rowwise.Proofs.Evaluation.Compiling
import Rowwise.Proofs.Evaluation.Folding
import Rowwise.Proofs.Evaluation.Framing
import Rowwise.Proofs.Typing.Nodes

/-!
# Rowwise.Proofs.Typing.Soundness — expressions yield values of their type

Texts are read, and functions called.  All nodes that come out are sound over the columns, also those that are read while a
row is evaluated.  So an expression yields values of the type that it had when it was parsed, and over tables it does not
fail otherwise than expressions may (`Context.evaluation_typed`), as long as no column is added.
-/

namespace Rowwise.Context

open Run Node

variable {c : Context} {w₀ : World} {rel : {α : Type} → Run α → (α → Prop) → Prop} {whole : Prop}
  {C : Nat → String → ValueType → Prop} {hosts : Prop}

section Types

variable (S : Run.Types c rel whole C hosts)

include S

/-! ### Reading -/

/-- Folding keeps soundness and type. -/
theorem fold_sound {n : Node} (h : n.Sound whole C hosts) :
    rel (n.fold c) fun m => m.Sound whole C hosts ∧ m.type = n.type := by
  unfold fold
  split
  · rename_i hfold
    rw [value_of_foldable hfold fun t _ => pure (.missing t)]
    refine S.bind (h.value_isOf S fun t _ => S.pure (Value.isOf_missing whole t)) fun v hv => ?_
    exact S.pure ⟨.const hv.isWhole, hv.type⟩
  · exact S.pure ⟨h, rfl⟩

omit S in
theorem marked_sound {mark : Node → Node} {n : Node} (h : n.Sound whole C hosts) (hmark : (mark n).Sound whole C hosts) :
    (n.marked mark).Sound whole C hosts := by
  cases n <;> first | exact h | exact hmark

/-- All builders keep soundness, with functions of the host if soundness allows them. -/
theorem builds_sound {read : String → Run Node} (hread : ∀ s, rel (read s) (Sound whole C hosts)) :
    c.Builds (fun x _ Q => rel x Q) (Sound whole C hosts) (Sound whole C hosts) (fun t n => n.type = t) read read where
  toRelates := S.relates
  read := hread
  columnOf? name := S.mono (S.columnOf? name) fun n? hcol n hn => by
    obtain ⟨source, type, rfl, hc⟩ := hcol n hn
    exact .column hc
  fold h ht := ht ▸ fold_sound S h
  typed _ := rfl
  const h := .const (S.offers h)
  varying h := .varying (S.offers h)
  nested h := marked_sound h (.nested h)
  spliced h := marked_sound h (.spliced h)
  strict := .strict
  aggregate := .aggregate
  binomial := .binomial
  choose := .choose
  convert := .convert
  evalText := .evalText
  columnNamed := .columnNamed
  macroNamed := .macroNamed
  macroOr := .macroOr
  refuse := .refuse
  now := .now
  random := .random
  seeded := .seeded
  parameter := .parameter
  host hf h := S.built hf fun hhosts => S.mono (fold_sound S (.host hhosts h)) fun _ hm => hm.1

/-- Texts within expressions are read to sound nodes, however many may be nested. -/
theorem readNested_sound (budget : Nat) (s : String) : rel (c.readNested budget s) (Sound whole C hosts) := by
  induction budget generalizing s with
  | zero => exact S.bind S.poll fun _ _ => S.fail rfl
  | succ budget ih => exact S.bind S.poll fun _ _ => S.inText ((builds_sound S ih).readWith_related s)

/-! ### Evaluation -/

/-- A sound node yields a value of its type, however many texts may be evaluated within each other. -/
theorem evaluateWithin_isOf (hends : ∀ t : ValueType, rel (throw .exhausted) (Value.IsOf whole t)) (fuel : Nat) {n : Node}
    (h : n.Sound whole C hosts) : rel (c.evaluateWithin fuel n) (Value.IsOf whole n.type) := by
  induction fuel generalizing n with
  | zero => exact h.value_isOf S fun t _ => hends t
  | succ fuel ih =>
    refine h.value_isOf S fun target s => ?_
    refine S.bind ((builds_sound S (readNested_sound S _)).readText_related s) fun inner hinner => ?_
    exact S.bind (S.nested _ (S.inText (ih hinner))) fun v hv => S.typed hv _

theorem parse_sound (s : String) : rel (c.parse s) fun e => e.root.Sound whole C hosts :=
  S.bind ((builds_sound S (readNested_sound S _)).readWith_related s) fun _ hn => S.pure hn

theorem call_sound (name : String) {args : List Node} (h : ∀ n ∈ args, n.Sound whole C hosts) :
    rel (c.call name args) fun e => e.root.Sound whole C hosts :=
  S.bind ((builds_sound S (readNested_sound S _)).callWith_related name h) fun _ hn => S.pure hn

end Types

/-! ### What a host sees -/

/-- The nodes that a host can have over these columns: those of parsed texts and of calls of such nodes. -/
inductive Obtained (c : Context) (w₀ : World) : Node → Prop where
  | parsed {w : World} {text : String} {e : Expression} : w₀.SameColumns w → ((c.parse text).exec w).1 = .ok e →
      Obtained c w₀ e.root
  | called {w : World} {name : String} {args : List Node} {e : Expression} : w₀.SameColumns w →
      (∀ n ∈ args, Obtained c w₀ n) → ((c.call name args).exec w).1 = .ok e → Obtained c w₀ e.root

/-- With the standard functions, no defect shows over the columns of tables. -/
theorem types_columns (hc : c.functions = []) (hw : w₀.Tabular) (endless : Bool) :
    Run.Types c (fun x Q => Meets (.columns w₀ endless) x Q) False w₀.HasColumn False :=
  (Contract.types_columns hw endless).runs (by simp [hc])

theorem Obtained.sound (hc : c.functions = []) (hw : w₀.Tabular) {n : Node} (h : c.Obtained w₀ n) :
    n.Sound False w₀.HasColumn False := by
  induction h with
  | @parsed w text e hsame hparse =>
    have houtcome := (parse_sound (types_columns hc hw false) text w hsame).2.2
    rwa [hparse] at houtcome
  | @called w name args e hsame _ hcall ih =>
    have houtcome := (call_sound (types_columns hc hw false) name ih w hsame).2.2
    rwa [hcall] at houtcome

end Rowwise.Context
