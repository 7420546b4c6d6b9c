import Mathlib
import Rowwise.Proofs.Parsing.Completeness
import Rowwise.Proofs.Texts.Alike
import Rowwise.Proofs.Texts.Limit

/-!
# Rowwise.Proofs.Texts.Places — one text in brackets, in a macro and in a call of `eval`

The same text can stand in brackets, in a macro that is read in place, and in a call of `eval`.  In the first place it is
compiled with the whole budget of texts, in the others with what is left behind itself, and a mark stays around its node.
As long as no limit on nesting is exceeded, none of this shows: the three expressions have the same type, are constant
together and yield the same values, and only faults tell what they are around (`Context.places_alike`).
-/

namespace Rowwise

/-! ### Limits on nesting -/

/-- True if a limit on the nesting of an expression or of texts is exceeded, also inside nested expressions. -/
def Fault.exceedsLimit : Fault → Bool
  | malformed _ _ (.tooDeep _) => true
  | value _ (.nestedTooDeep _) => true
  | nested _ inner => inner.exceedsLimit
  | _ => false

namespace Halt

/-- The same for halts. -/
def exceedsLimit : Halt → Bool
  | fault f => f.exceedsLimit
  | exhausted => false

/-- The halt in a nested expression, even if it is a cancellation. -/
def inside (function : String) : Halt → Halt
  | fault f => fault (.nested function f)
  | exhausted => exhausted

theorem exceedsLimit_within {h : Halt} (hh : h.exceedsLimit = true) (function : String) :
    (h.within function).exceedsLimit = true := by
  cases h with
  | fault f => cases f <;> exact hh
  | exhausted => cases hh

theorem within_eq_inside {h : Halt} (hh : h ≠ .fault .aborted) (function : String) :
    h.within function = h.inside function := by
  cases h with
  | fault f => cases f <;> first | rfl | exact absurd rfl hh
  | exhausted => rfl

end Halt

/-- Parsing the text exceeds no limit on nesting. -/
def Context.KeepsLimits (c : Context) (s : String) (w : World) : Prop :=
  ∀ h, ((c.parse s).exec w).1 = .error h → h.exceedsLimit = false

/-- An expression is parsed unless it exceeds the limit. -/
theorem Expr.parse_of_derives {limit : Nat} {s : String} {e : Expr} (h : Stratum.whole.Derives s.toList e) :
    parse limit s = .ok e ∨ ∃ f, parse limit s = .error f ∧ f.exceedsLimit = true := by
  unfold parse
  split
  · exact Or.inr ⟨_, rfl, rfl⟩
  · rw [read_eq_ok_iff.2 h]
    simp only [bind, Except.bind]
    split
    · exact Or.inr ⟨_, rfl, rfl⟩
    · exact Or.inl rfl

open Run

namespace Context

variable {c : Context} {e : Expr} {s t m literal : String} {w w' : World}

theorem parse_eq_compile (h : Stratum.whole.Derives s.toList e) (hkeeps : c.KeepsLimits s w) :
    c.parse s = do return ⟨← c.compile c.readInner e⟩ := by
  have hread : c.readWith c.readInner s = c.compile c.readInner e := by
    have hparse : Expr.parse c.options.nestingLimit s = .ok e ∨
        ∃ f, Expr.parse c.options.nestingLimit s = .error f ∧ f.exceedsLimit = true := Expr.parse_of_derives h
    rcases hparse with hok | ⟨f, hf, hlimit⟩
    · rw [readWith, hok]
      rfl
    · have hhalt : ((c.parse s).exec w).1 = .error (.fault f) := by
        rw [parse, readWith, hf]
        rfl
      exact absurd hlimit (Bool.eq_false_iff.1 (hkeeps _ hhalt))
  rw [parse, hread]

/-! ### A text inside another -/

/-- A text in another one is compiled as it would be alone, with a smaller budget. -/
theorem readInner_follows (hcalm : c.Calm) (hparse : Expr.parse c.options.nestingLimit t = .ok e) :
    Follows (fun h => h.exceedsLimit = true) (c.compile c.readInner e) (c.readInner t) fun _ => True := by
  have hread : c.readWith c.readInner t = c.compile c.readInner e := by
    rw [readWith, hparse]
    rfl
  -- with a budget that is one larger, the text itself is all that is counted in addition
  have hlarger : Follows (fun _ => False) (c.compile c.readInner e) (c.readNested (c.options.textLimit + 1) t)
      fun _ => True := by
    have hinner : ∀ s, Follows (fun _ => False) (c.readInner s) (c.readInner s) fun _ => True :=
      Follows.readNested_follows (fun _ _ hfalse => hfalse) hcalm (Nat.le_refl _) (absurd rfl)
    have hsame := ((Follows.carries (fun _ _ hfalse => hfalse) hcalm).builds hinner).compile_related e fun _ _ => trivial
    rw [readNested]
    exact .poll_right hcalm (.inText_right (hread ▸ hsame))
  exact hlarger.trans
    (Follows.readNested_follows (fun _ function hh => Halt.exceedsLimit_within hh function) hcalm (Nat.le_succ _)
      (fun _ => rfl) t)

/-- The expression of a text that stands in another one as the text of `function`. -/
def readMarked (c : Context) (function : String) (mark : Node → Node) (t : String) : Run Expression := do
  let n ← Run.nested function (c.readInner t)
  return ⟨n.marked mark⟩

/-- Reading a text in another one ends as reading it alone does. -/
theorem readMarked_ends (function : String) (mark : Node → Node) (hcalm : c.Calm)
    (hparse : Expr.parse c.options.nestingLimit t = .ok e) (hw : w.Alike w')
    (hkeeps : ∀ h, ((c.readMarked function mark t).exec w').1 = .error h → h.exceedsLimit = false) :
    ((c.compile c.readInner e).exec w).2.Alike ((c.readMarked function mark t).exec w').2 ∧
      ((c.readMarked function mark t).exec w').1 =
        (((c.compile c.readInner e).exec w).1.map fun n => ⟨n.marked mark⟩).mapError (Halt.inside function) := by
  have hexec : (c.readMarked function mark t).exec w' =
      ((((c.readInner t).exec w').1.mapError (Halt.within function)).map fun n => ⟨n.marked mark⟩,
        ((c.readInner t).exec w').2) := by
    rw [readMarked, exec_bind, exec_nested]
    rcases ((c.readInner t).exec w').1 with halt | n <;> rfl
  rw [hexec] at hkeeps ⊢
  rcases readInner_follows hcalm hparse w w' hw with ⟨h, hhalt, hlimit⟩ | ⟨houtcome, hworlds, hresult⟩
  · have hfalse := hkeeps (h.within function) (by rw [hhalt]; rfl)
    exact absurd (Halt.exceedsLimit_within hlimit function) (Bool.eq_false_iff.1 hfalse)
  · refine ⟨hworlds, ?_⟩
    rw [← houtcome]
    rcases hr : ((c.compile c.readInner e).exec w).1 with halt | n
    · rw [hr] at hresult
      exact congrArg Except.error (Halt.within_eq_inside hresult function)
    · rfl

/-! ### The three places -/

theorem parse_grouped (hparse : Expr.parse c.options.nestingLimit t = .ok e) (hkeeps : c.KeepsLimits ("(" ++ t ++ ")") w) :
    (c.parse ("(" ++ t ++ ")")).exec w =
      (((c.compile c.readInner e).exec w).1.map Expression.mk, ((c.compile c.readInner e).exec w).2) := by
  have hderives := ((Expr.parse_eq_ok_iff _ _ _).1 hparse).2.2
  rw [parse_eq_compile (by simpa using (Stratum.Derives.grouped hderives).whole_of_primary) hkeeps, exec_bind]
  rcases (c.compile c.readInner e).exec w with ⟨halt | n, v⟩ <;> rfl

theorem parse_spliced (href : Spelling.Reference m.toList) (hm : w.scope? m = some (some t))
    (hkeeps : c.KeepsLimits (macroLabel m) w) :
    (c.parse (macroLabel m)).exec w = (c.readMarked (macroLabel m) .spliced t).exec w := by
  have hderives : Stratum.whole.Derives (macroLabel m).toList (.macroRef m) := by
    simpa [macroLabel] using (Stratum.Derives.word (.macroRef href)).whole_of_primary
  rw [parse_eq_compile hderives hkeeps, compile, macroNode, readMarked]
  simp only [exec_bind, exec_scope?, hm]
  rcases (Run.nested (macroLabel m) (c.readInner t)).exec w with ⟨halt | n, v⟩ <;> rfl

/-- A call of `eval` with a constant text reads the text, and marks the node of what it reads. -/
theorem compile_eval (heval : c.function? Builtin.eval.name = some (.builtin .eval))
    (hself : ¬ Node.selfCall.toList <:+: t.toList) (read : String → Run Node) :
    c.compile read (.call Builtin.eval.name [.text t]) = do
      return (← Run.nested Builtin.eval.name (read t)).marked .nested := by
  have hread : Node.readText read t = Run.nested Builtin.eval.name (read t) := by
    rw [Node.readText, Bool.eq_false_iff.2 (mt Text.occursIn_iff.1 hself)]
    rfl
  have hargs : c.compileAll read [.text t] = pure [.const (.text (some t))] := by
    simp [compileAll, compile]
  have hbuild : Node.buildStandard c read .eval [.const (.text (some t))] =
      do return (← Node.readText read t).marked .nested := rfl
  have hcall : c.callWith read Builtin.eval.name [.const (.text (some t))] =
      Node.buildStandard c read .eval [.const (.text (some t))] >>= fun n => n.fold c := by
    rw [callWith, heval]
    rfl
  rw [compile, hargs, pure_bind, hcall, hbuild, hread]
  simp only [bind_assoc, pure_bind, Node.fold_marked]

theorem parse_evaluated (heval : c.function? Builtin.eval.name = some (.builtin .eval))
    (hself : ¬ Node.selfCall.toList <:+: t.toList) (hliteral : Spelling.Word literal.toList (.text t))
    (hkeeps : c.KeepsLimits (Builtin.eval.name ++ "(" ++ literal ++ ")") w) :
    c.parse (Builtin.eval.name ++ "(" ++ literal ++ ")") = c.readMarked Builtin.eval.name .nested t := by
  have hname : Spelling.Name Builtin.eval.name.toList := .intro (by decide) (List.all_eq_true.1 (by decide))
  have harg : Stratum.whole.Derives literal.toList (.text t) := (Stratum.Derives.word hliteral).whole_of_primary
  have hcall := Stratum.Derives.call_one hname (g := []) nofun harg
  have hderives : Stratum.whole.Derives (Builtin.eval.name ++ "(" ++ literal ++ ")").toList
      (.call Builtin.eval.name [.text t]) := by
    simpa using hcall
  rw [parse_eq_compile hderives hkeeps, compile_eval heval hself, readMarked]
  simp only [bind_assoc, pure_bind]

end Context

/-! ### What a mark leaves of an expression -/

/-- The second expression has the type of the first and is constant if the first is.  Evaluated in worlds that are alike,
both end, or neither does, with one value or both with a fault, the fault of the second as `wrap` has it. -/
structure Expression.Mirrors (c : Context) (wrap : Halt → Halt) (e e' : Expression) : Prop where
  type : e'.type = e.type
  isConstant : e'.isConstant = e.isConstant
  evaluate (fuel : Nat) {w w' : World} : w.Alike w' →
    ((c.evaluateWithin fuel e'.root).exec w').1 = ((c.evaluateWithin fuel e.root).exec w).1.mapError wrap ∧
      ((c.evaluateWithin fuel e.root).exec w).2.Alike ((c.evaluateWithin fuel e'.root).exec w').2

namespace Expression

variable {c : Context}

/-- Evaluation does not depend on whether it is inside a text. -/
theorem value_opening (hcalm : c.Calm) (fuel : Nat) (n : Node) {w w' : World} (hw : w.Alike w') :
    EndAlike (fun _ => True) ((n.value c (c.rowText fuel)).exec w) ((n.value c (c.rowText fuel)).exec w'.opening) := by
  have hfollows : Follows (fun _ => False) (c.evaluateWithin fuel n) (c.evaluateWithin fuel n) fun _ => True :=
    (Follows.carries (fun _ _ hfalse => hfalse) hcalm).evaluateWithin_related (fun _ _ _ _ => trivial) fuel fun _ _ => trivial
  rw [Context.evaluateWithin_eq] at hfollows
  exact hfollows.endAlike (hw.later _ _)

theorem mirrors_const (v : Value) (wrap : Halt → Halt) : Mirrors c wrap ⟨.const v⟩ ⟨.const v⟩ where
  type := rfl
  isConstant := rfl
  evaluate fuel w w' hw := by
    rw [Context.evaluateWithin_eq, Node.value]
    exact ⟨rfl, hw⟩

theorem mirrors_of_mark {mark : Node → Node} {wrap : Halt → Halt} {n : Node}
    (h : n.isConstant = false → Mirrors c wrap ⟨n⟩ ⟨mark n⟩) : Mirrors c wrap ⟨n⟩ ⟨n.marked mark⟩ := by
  cases n with
  | const v => exact mirrors_const v wrap
  | _ => exact h rfl

theorem mirrors_spliced (hcalm : c.Calm) (n : Node) : Mirrors c id ⟨n⟩ ⟨n.marked .spliced⟩ := by
  refine mirrors_of_mark fun hconst => ⟨rfl, hconst.symm, fun fuel w w' hw => ?_⟩
  obtain ⟨houtcome, hworlds, -⟩ := value_opening hcalm fuel n hw
  rw [Context.evaluateWithin_eq, Context.evaluateWithin_eq, Node.value, exec_inText]
  refine ⟨houtcome.symm.trans ?_, hworlds.later _ _⟩
  rcases ((n.value c (c.rowText fuel)).exec w).1 with halt | v <;> rfl

theorem mirrors_nested (hcalm : c.Calm) (n : Node) :
    Mirrors c (Halt.inside Builtin.eval.name) ⟨n⟩ ⟨n.marked .nested⟩ := by
  refine mirrors_of_mark fun hconst => ⟨rfl, hconst.symm, fun fuel w w' hw => ?_⟩
  obtain ⟨houtcome, hworlds, hresult⟩ := value_opening hcalm fuel n hw
  rw [Context.evaluateWithin_eq, Context.evaluateWithin_eq, Node.value, exec_nested, exec_inText]
  refine ⟨(congrArg (Except.mapError _) houtcome.symm).trans ?_, hworlds.later _ _⟩
  show _ = Except.mapError _ ((n.value c (c.rowText fuel)).exec w).1
  rcases hr : ((n.value c (c.rowText fuel)).exec w).1 with halt | v
  · rw [hr] at hresult
    exact congrArg Except.error (Halt.within_eq_inside hresult _)
  · rfl

end Expression

/-! ### The three places compared -/

/-- A text that is an expression and does not contain `eval(` means the same in brackets, as the text of a macro and in a
call of `eval`, if no limit on nesting is exceeded and the host does not cancel.  Either all three fail to be parsed, or
they have one type, are constant together and yield the same values in the same rows, where only the faults of `eval` say
that they are nested. -/
theorem Context.places_alike {c : Context} {t m literal : String} {e : Expr} {w w' w'' : World} (hcalm : c.Calm)
    (heval : c.function? Builtin.eval.name = some (.builtin .eval))
    (hparse : Expr.parse c.options.nestingLimit t = .ok e) (hself : ¬ Node.selfCall.toList <:+: t.toList)
    (href : Spelling.Reference m.toList) (hscope : w.scope? m = some (some t))
    (hliteral : Spelling.Word literal.toList (.text t)) (hw' : w.Alike w') (hw'' : w.Alike w'')
    (hgrouped : c.KeepsLimits ("(" ++ t ++ ")") w) (hspliced : c.KeepsLimits (macroLabel m) w')
    (hevaluated : c.KeepsLimits (Builtin.eval.name ++ "(" ++ literal ++ ")") w'') :
    let grouped := (c.parse ("(" ++ t ++ ")")).exec w
    let spliced := (c.parse (macroLabel m)).exec w'
    let evaluated := (c.parse (Builtin.eval.name ++ "(" ++ literal ++ ")")).exec w''
    (grouped.2.Alike spliced.2 ∧ grouped.2.Alike evaluated.2) ∧
      ((∃ f, grouped.1 = .error (.fault f) ∧ spliced.1 = .error (.fault (.nested (macroLabel m) f)) ∧
          evaluated.1 = .error (.fault (.nested Builtin.eval.name f))) ∨
        ∃ e₁ e₂ e₃, grouped.1 = .ok e₁ ∧ spliced.1 = .ok e₂ ∧ evaluated.1 = .ok e₃ ∧
          e₁.Mirrors c id e₂ ∧ e₁.Mirrors c (Halt.inside Builtin.eval.name) e₃) := by
  intro grouped spliced evaluated
  have hscope' : w'.scope? m = some (some t) := by
    have hview : World.IsView fun w => w.scope? m := fun _ _ _ => rfl
    exact (hw'.view_eq hview).trans hscope
  have hread : grouped = _ := parse_grouped hparse hgrouped
  have hread' : spliced = (c.readMarked (macroLabel m) .spliced t).exec w' := parse_spliced href hscope' hspliced
  have hread'' : evaluated = (c.readMarked Builtin.eval.name .nested t).exec w'' :=
    congrArg (Run.exec · w'') (parse_evaluated heval hself hliteral hevaluated)
  have hends := readMarked_ends (macroLabel m) .spliced hcalm hparse hw' (hread' ▸ hspliced)
  have hends' := readMarked_ends Builtin.eval.name .nested hcalm hparse hw'' (hread'' ▸ hevaluated)
  have hnotExhausted : grouped.1 ≠ .error .exhausted := parse_not_exhausted _ w
  rw [← hread'] at hends
  rw [← hread''] at hends'
  rw [hread] at hnotExhausted ⊢
  refine ⟨⟨hends.1, hends'.1⟩, ?_⟩
  rcases hr : ((c.compile c.readInner e).exec w).1 with (f | _) | n
  · exact Or.inl ⟨f, rfl, by rw [hends.2, hr]; rfl, by rw [hends'.2, hr]; rfl⟩
  · rw [hr] at hnotExhausted
    exact absurd rfl hnotExhausted
  · exact Or.inr ⟨⟨n⟩, ⟨n.marked .spliced⟩, ⟨n.marked .nested⟩, rfl, by rw [hends.2, hr]; rfl, by rw [hends'.2, hr]; rfl,
      Expression.mirrors_spliced hcalm n, Expression.mirrors_nested hcalm n⟩

theorem Context.keepsLimits_of_ok {c : Context} {s : String} {w : World}
    (h : ((c.parse s).exec w).1.toOption.isSome = true) : c.KeepsLimits s w := by
  intro halt hhalt
  rw [hhalt] at h
  cases h

/-- A world with a column `a` and a macro `m`. -/
def World.ofMacro (cell text : String) : World :=
  { World.ofTexts [("a", cell)] with macros := [{ values := [("m", text)] }] }

theorem Context.places_alike_comparison :
    let c : Context := { host := some {} }
    let w := World.ofMacro "x" "[a] == \"x\""
    ∃ e₁ e₂ e₃, ((c.parse "([a] == \"x\")").exec w).1 = .ok e₁ ∧ ((c.parse "#\x7bm\x7d").exec w).1 = .ok e₂ ∧
      ((c.parse "eval(\"[a] == \\\"x\\\"\")").exec w).1 = .ok e₃ ∧
      e₁.Mirrors c id e₂ ∧ e₁.Mirrors c (Halt.inside Builtin.eval.name) e₃ := by
  intro c w
  have hcalm : c.Calm := by
    rintro host ⟨⟩ count
    rfl
  have hbody : Spelling.Body '"' (Grammar.body '"' "[a] == \\\"x\\\"".toList).1 := Grammar.body_spelled.2
  rw [show (Grammar.body '"' "[a] == \\\"x\\\"".toList).1 = "[a] == \\\"x\\\"".toList by decide] at hbody
  have hliteral : Spelling.Word "\"[a] == \\\"x\\\"\"".toList (.text "[a] == \"x\"") := .text hbody rfl
  have hparse : Expr.parse c.options.nestingLimit "[a] == \"x\"" = .ok (.binary .equal (.column "a") (.text "x")) := by
    cbv
  have href : Spelling.Reference "m".toList := ⟨by decide, by decide⟩
  have hw : w.Alike w := .refl rfl
  have hgrouped : ((c.parse "([a] == \"x\")").exec w).1.toOption.isSome = true := by decide +kernel
  have hspliced : c.KeepsLimits (macroLabel "m") w := keepsLimits_of_ok (by decide +kernel)
  have hevaluated : c.KeepsLimits "eval(\"[a] == \\\"x\\\"\")" w := keepsLimits_of_ok (by decide +kernel)
  obtain ⟨-, ⟨f, hf, -⟩ | h⟩ := c.places_alike hcalm (by decide) hparse (by decide) href rfl hliteral hw hw
    (keepsLimits_of_ok hgrouped) hspliced hevaluated
  · have hfault : ((c.parse "([a] == \"x\")").exec w).1 = .error (.fault f) := hf
    rw [hfault] at hgrouped
    cases hgrouped
  · exact h

end Rowwise
