import Rowwise.Eval.Compile
import Rowwise.Proofs.Parsing.Completeness

/-!
# Rowwise.Proofs.Texts.SelfCalls — texts that call `eval`

A text given to `eval` must not call `eval` itself.  Whether it does is told from its letters and not from its tree: it is
refused, before it is read, if `eval(` stands anywhere in it.  A call in the tree always shows in the text
(`Stratum.Derives.infix_of_calls`), but as the grammar spells it, with or without a gap before the parenthesis.  So the
refusal covers every text in which no such gap follows the letters `eval` (`Node.readText_fails_of_calls`), and a gap
evades it (`Node.readText_reads_spaced`).
-/

namespace Rowwise

open Spelling (Gap)

/-! ### Calls in a tree -/

/-- The function of that name is called somewhere in the tree. -/
inductive Expr.Calls (function : String) : Expr → Prop where
  | here {es : List Expr} : Calls function (.call function es)
  | inside {e e' : Expr} : e' ∈ e.children → Calls function e' → Calls function e

/-- The call of a function as a text may write it: the name, a gap and the parenthesis. -/
def Spelling.Opening (function : String) (cs : List Char) : Prop :=
  ∃ g, Gap g ∧ function.toList ++ (g ++ ['(']) <:+: cs

namespace Spelling.Opening

variable {function : String} {cs ds : List Char}

theorem mono (h : Opening function cs) (hcs : cs <:+: ds) : Opening function ds := by
  obtain ⟨g, hg, hopening⟩ := h
  exact ⟨g, hg, hopening.trans hcs⟩

theorem of_call {name g rest : List Char} (hg : Gap g) (h : String.ofList name = function) :
    Opening function (name ++ (g ++ '(' :: rest)) := by
  subst h
  refine ⟨g, hg, [], rest, ?_⟩
  simp

end Spelling.Opening

open Spelling (Opening)

/-- A call in the tree of an expression is written out in its text. -/
theorem Stratum.Derives.infix_of_calls {s : Stratum} {cs : List Char} {e : Expr} (h : s.Derives cs e) {function : String}
    (hcalls : e.Calls function) : Opening function cs := by
  induction h with
  | @whole g cs k e _ _ _ ih => exact (ih hcalls).mono ⟨g, k, by simp⟩
  | next _ _ ih => exact ih hcalls
  | @binary s t op ls g k rs l r _ _ _ _ _ _ ihl ihr =>
    obtain _ | ⟨hchild, hcalls⟩ := hcalls
    simp only [Expr.children, List.mem_cons, List.not_mem_nil, or_false] at hchild
    obtain rfl | rfl := hchild
    · exact (ihl hcalls).mono ⟨[], g ++ (op.symbol.toList ++ (k ++ rs)), by simp⟩
    · exact (ihr hcalls).mono ⟨ls ++ (g ++ (op.symbol.toList ++ k)), [], by simp⟩
  | @sign op g cs e _ _ ih =>
    obtain _ | ⟨hchild, hcalls⟩ := hcalls
    obtain rfl := List.mem_singleton.1 hchild
    exact (ih hcalls).mono ⟨op.symbol.toList ++ g, [], by simp⟩
  | @power ls g k rs l r _ _ _ _ ihl ihr =>
    obtain _ | ⟨hchild, hcalls⟩ := hcalls
    simp only [Expr.children, List.mem_cons, List.not_mem_nil, or_false] at hchild
    obtain rfl | rfl := hchild
    · exact (ihl hcalls).mono ⟨[], g ++ (BinaryOp.power.symbol.toList ++ (k ++ rs)), by simp⟩
    · exact (ihr hcalls).mono ⟨ls ++ (g ++ (BinaryOp.power.symbol.toList ++ k)), [], by simp⟩
  | word hword =>
    -- a word is a leaf
    cases hword <;> obtain _ | ⟨hchild, -⟩ := hcalls <;> cases hchild
  | @grouped cs e _ ih => exact (ih hcalls).mono ⟨['('], [')'], by simp⟩
  | @callEmpty name g k _ hg _ =>
    generalize hname : String.ofList name = called at hcalls
    cases hcalls with
    | here => exact .of_call hg hname
    | inside hchild _ => cases hchild
  | @call name g args _ hg _ _ ih =>
    generalize hname : String.ofList name = called at hcalls
    cases hcalls with
    | here => exact .of_call hg hname
    | inside hchild hcalls =>
      obtain ⟨arg, harg, rfl⟩ := List.mem_map.1 hchild
      have hpart : arg.1 <:+: [','].intercalate (args.map Prod.fst) :=
        Grammar.infix_intercalate (List.mem_map_of_mem harg)
      exact ((ih arg harg hcalls).mono hpart).mono ⟨name ++ (g ++ ['(']), [')'], by simp⟩

/-! ### Texts given to `eval` -/

namespace Node

theorem derives_eval_one {g : List Char} (hg : Gap g) :
    Stratum.whole.Derives (Builtin.eval.name.toList ++ (g ++ "(\"1\")".toList)) (.call Builtin.eval.name [.text "1"]) := by
  have hname : Spelling.Name Builtin.eval.name.toList := .intro (by decide) (List.all_eq_true.1 (by decide))
  have hword : Spelling.Word "\"1\"".toList (.text "1") := .text (.plain (by decide) (by decide) .nil) rfl
  simpa using Stratum.Derives.call_one hname hg (Stratum.Derives.word hword).whole_of_primary

/-- A text whose tree calls `eval` anywhere is refused before it is read, as a fault of a nested expression, if no gap in
it stands between the letters `eval` and a parenthesis. -/
theorem readText_fails_of_calls {s : String} {e : Expr} (hread : Expr.read s.toList = .ok e)
    (hcalls : e.Calls Builtin.eval.name)
    (hgap : ∀ g, Gap g → Builtin.eval.name.toList ++ (g ++ ['(']) <:+: s.toList → g = []) (read : String → Run Node) :
    readText read s = Run.fail (.nested Builtin.eval.name (.value Builtin.eval.name .evalInside)) := by
  obtain ⟨g, hg, hopening⟩ := (Expr.read_eq_ok_iff.1 hread).infix_of_calls hcalls
  obtain rfl := hgap g hg hopening
  have hself : Text.occursIn selfCall.toList s.toList = true := Text.occursIn_iff.2 hopening
  rw [readText, hself]
  rfl

/-- A call inside the argument of another one, in a text without gaps. -/
theorem readText_fails_inside : ∃ e, Expr.read "f(eval(\"1\"))".toList = .ok e ∧ e.Calls Builtin.eval.name ∧
    ∀ read, readText read "f(eval(\"1\"))" =
      Run.fail (.nested Builtin.eval.name (.value Builtin.eval.name .evalInside)) := by
  have hname : Spelling.Name ['f'] := .intro (by decide) nofun
  have hread := Expr.read_eq_ok_iff.2 (.call_one hname (g := []) nofun (derives_eval_one (g := []) nofun))
  have hcalls : (Expr.call (String.ofList ['f']) [.call Builtin.eval.name [.text "1"]]).Calls Builtin.eval.name :=
    .inside (List.mem_singleton_self _) .here
  have hgapless : ("f(eval(\"1\"))".toList.all fun c => !Parser.isGap c) = true := by decide
  have hgap : ∀ g, Gap g → Builtin.eval.name.toList ++ (g ++ ['(']) <:+: "f(eval(\"1\"))".toList → g = [] := by
    intro g hg hinfix
    refine List.eq_nil_iff_forall_not_mem.2 fun c hc => ?_
    have hmem : c ∈ "f(eval(\"1\"))".toList := List.IsInfix.subset hinfix (by simp [hc])
    have hplain := List.all_eq_true.1 hgapless c hmem
    simp [hg c hc] at hplain
  exact ⟨_, hread, hcalls, readText_fails_of_calls hread hcalls hgap⟩

/-- A gap before the parenthesis is part of the call for the grammar, and hides the call from the letters. -/
theorem readText_reads_spaced : ∃ e, Expr.read "eval (\"1\")".toList = .ok e ∧ e.Calls Builtin.eval.name ∧
    ∀ read, readText read "eval (\"1\")" = Run.nested Builtin.eval.name (read "eval (\"1\")") := by
  have hgap : Gap [' '] := by simp [Gap, Parser.isGap]
  have hread := Expr.read_eq_ok_iff.2 (derives_eval_one hgap)
  have hself : Text.occursIn selfCall.toList "eval (\"1\")".toList = false := by decide
  refine ⟨_, hread, .here, fun read => ?_⟩
  rw [readText, hself]
  rfl

end Node

end Rowwise
