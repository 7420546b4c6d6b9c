import Rowwise.Proofs.Evaluation.Reading

/-!
# Rowwise.Proofs.Constancy.HostCalls — constants are found once

While a text is read, a function of the host builds one node for each of its calls (`Context.parse_builds`), and each node that
is constant runs once (`Context.parse_runs_constants`).  Nothing else of the host runs.  So a constant expression has its value
when it has been read: no evaluation asks the host, reads a column or runs a function again (`Context.constant_flag_truthful`).
-/

namespace Rowwise

open Run

/-! ### What happens in a run -/

/-- A property of what happens in a run that goes over from the parts of a run to the whole. -/
structure Additive (E : List Event → Prop) : Prop where
  nil : E []
  append {es fs : List Event} : E es → E fs → E (fs ++ es)

/-- Runs in which that happens. -/
def Contract.adding {E : List Event → Prop} (hE : Additive E) : Contract where
  holds _ := True
  moves w w' := ∃ es, w'.events = es ++ w.events ∧ E es
  allows _ := True
  moves_refl _ := ⟨[], rfl, hE.nil⟩
  moves_trans := by
    rintro u v w ⟨es, hes, hE₁⟩ ⟨fs, hfs, hE₂⟩
    exact ⟨fs ++ es, by rw [hfs, hes, List.append_assoc], hE.append hE₁ hE₂⟩

namespace Additive

variable {E E' : List Event → Prop} (hE : Additive E) {c : Context} {α : Type} {x : Run α} {Q : α → Prop}

include hE in
theorem inside (hopened : E [.opened]) (hclosed : E [.closed]) {es : List Event} (h : E es) :
    E (.closed :: (es ++ [.opened])) := by
  show E ([.closed] ++ (es ++ [.opened]))
  exact hE.append (hE.append hopened h) hclosed

theorem lets_note {e : Event} (he : E [e]) : (Contract.adding hE).Lets fun w => { w with events := e :: w.events } :=
  fun _ _ => ⟨trivial, [e], rfl, he⟩

theorem poll_meets (hpoll : ∀ b, E [.poll b]) : Meets (.adding hE) c.poll fun _ => True :=
  .poll_of_lets (fun _ b _ _ => ⟨trivial, [.poll b], rfl, hpoll b⟩) trivial trivial

/-- A text adds its beginning and its end. -/
theorem inText_meets (hE' : Additive E') (hin : ∀ es, E es → E' (.closed :: (es ++ [.opened])))
    (hx : Meets (.adding hE) x Q) : Meets (.adding hE') (Run.inText x) Q := by
  intro w _
  obtain ⟨-, ⟨es, hes, hinside⟩, houtcome⟩ := hx w.opening trivial
  rw [exec_inText]
  refine ⟨trivial, ⟨.closed :: (es ++ [.opened]), ?_, hin es hinside⟩, houtcome⟩
  show Event.closed :: (x.exec w.opening).2.events = _
  rw [hes]
  simp [World.opening]

theorem weaken (hE' : Additive E') (h : ∀ es, E es → E' es) (hx : Meets (.adding hE) x Q) : Meets (.adding hE') x Q := by
  intro w _
  obtain ⟨-, ⟨es, hes, hE₁⟩, houtcome⟩ := hx w trivial
  exact ⟨trivial, ⟨es, hes, h es hE₁⟩, houtcome⟩

theorem relates (hdrawn : E [.drawn]) : Run.Relates fun x _ Q => Meets (.adding hE) x Q where
  pure h := .pure h
  fail _ := .fail trivial
  bind hx hf := hx.bind hf
  mono hx h := hx.mono h
  within _ hx := hx.nested_of_within fun _ _ => trivial
  scope? _ := .scope?
  newStream _ := by
    refine .bind (P := fun _ => True) (.note (lets_note hE hdrawn) trivial) fun _ _ => ?_
    refine .bind (P := fun _ => True) (.world fun _ _ => trivial) fun w _ => ?_
    exact .bind (P := fun _ => True) (.alter (fun _ _ => ⟨trivial, [], rfl, hE.nil⟩) trivial) fun _ _ => .pure trivial

theorem columnOf?_meets (s : String) : Meets (.adding hE) (Node.columnOf? s) fun _ => True :=
  (Meets.columnOf? (P := fun _ => True) fun _ _ _ _ _ => trivial).mono fun _ _ => trivial

theorem evaluates (hpoll : ∀ b, E [.poll b]) (hstep : ∀ e : Event, e.isStep = true → E [e])
    (hin : ∀ es, E es → E (.closed :: (es ++ [.opened]))) :
    c.Evaluates (fun _ => False) fun _ {_} x _ => Meets (.adding hE) x fun _ => True where
  pure _ := .pure trivial
  fail _ := .fail trivial
  bind hx hf := hx.bind fun a _ => hf a
  poll := hE.poll_meets hpoll
  step he := .note (hE.lets_note (hstep _ he)) trivial
  supplied h := h.elim
  random h := h.elim
  time h := h.elim
  row h _ := h.elim
  scope? _ _ _ := .scope?
  column h := h.elim
  columnValue _ h := h.elim
  inText hx := hE.inText_meets hE hin hx
  evalText hx := (hE.inText_meets hE hin hx).nested_of_within fun _ _ => trivial
  mono hx _ := hx

end Additive

/-! ### Constants that run once -/

/-- The function that begins to run. -/
def Event.ran? : Event → Option String
  | ran f => some f
  | _ => none

/-- The function that has built a constant node. -/
def Event.builtConstant? : Event → Option String
  | built f true => some f
  | _ => none

/-- The functions of the host that run are those that have built constant nodes, each of them once and in their order. -/
def RunsConstants (es : List Event) : Prop := es.filterMap Event.ran? = es.filterMap Event.builtConstant?

theorem additive_runsConstants : Additive RunsConstants where
  nil := rfl
  append hes hfs := by rw [RunsConstants, List.filterMap_append, List.filterMap_append, hes, hfs]

theorem RunsConstants.single {e : Event} (hran : e.ran? = none) (hbuilt : e.builtConstant? = none) : RunsConstants [e] := by
  simp [RunsConstants, hran, hbuilt]

theorem RunsConstants.inside (es : List Event) (h : RunsConstants es) : RunsConstants (.closed :: (es ++ [.opened])) :=
  additive_runsConstants.inside (.single rfl rfl) (.single rfl rfl) h

namespace Node

variable {c : Context} {eval : ValueType → String → Run Value}

theorem folds_runsConstants : c.Folds fun x _ => Meets (.adding additive_runsConstants) x fun _ => True where
  pure _ := .pure trivial
  fail _ := .fail trivial
  bind hx hf := hx.bind fun a _ => hf a
  poll := additive_runsConstants.poll_meets fun _ => .single rfl rfl
  applied _ _ := .note (additive_runsConstants.lets_note (.single rfl rfl)) trivial

/-- Folding keeps to standard functions, or to what is no constant. -/
theorem fold_runsConstants {n : Node} (hn : n.isHost = true → n.isFoldable = false) :
    Meets (.adding additive_runsConstants) (n.fold c) fun m => m.isHost = true → m.isFoldable = false := by
  unfold fold
  split
  · rename_i hfold
    have hstandard : n.isHost = false := by
      cases hhost : n.isHost with
      | false => rfl
      | true => rw [hn hhost] at hfold; cases hfold
    exact (@standard_foldable_simulates _ _ _ (fun _ _ => throw .exhausted) folds_runsConstants _ hfold hstandard).bind
      fun v _ => .pure nofun
  · exact .pure hn

/-- A node of the host that is constant runs once: that is noted, and nothing follows of the kind. -/
theorem host_runsConstants {f : HostFunction} {args : List Node} (h : (host f args).isFoldable = true) :
    Meets (.adding additive_runsConstants) (do Run.note (.built f.name true); (host f args).value c eval) fun _ => True := by
  have hfirst : ∀ storage, (args.head?.map isConstant).getD false = true →
      Meets (.adding additive_runsConstants) (firstValue c eval f.name storage args) fun _ => True := fun storage hargs =>
    @firstValue_of_constant_simulates _ _ _ eval folds_runsConstants _ _ _ hargs
  have hboth : Meets (.adding additive_runsConstants) (do Run.note (.built f.name true); Run.note (.ran f.name))
      fun _ => True := by
    intro w _
    exact ⟨trivial, ⟨[.ran f.name, .built f.name true], rfl, rfl⟩, trivial⟩
  rw [value, ← bind_assoc]
  refine hboth.bind fun _ _ => ?_
  cases hf : f.action with
  | probe =>
    simp only [isFoldable, hf] at h
    exact .bind (P := fun _ => True) (.note (additive_runsConstants.lets_note (.single rfl rfl)) trivial) fun _ _ =>
      (hfirst .number h).bind fun _ _ => .pure trivial
  | yields type _ v => exact (folds_runsConstants (c := c)).sound _
  | relay type =>
    simp only [isFoldable, hf] at h
    exact (hfirst type.storage h).bind fun _ _ => .pure trivial
  | fails _ => exact .fail trivial
  | row _ => simp [isFoldable, hf] at h

theorem buildHost_runsConstants (f : HostFunction) (args : List Node) :
    Meets (.adding additive_runsConstants) (buildHost c f args) fun m => m.isHost = true → m.isFoldable = false := by
  cases h : (host f args).isFoldable with
  | true =>
    have hrun : buildHost c f args =
        (do Run.note (.built f.name true); (host f args).value c fun _ _ => throw .exhausted) >>=
          fun v => pure (const v) := by
      rw [buildHost, h, fold, if_pos h, bind_assoc]
    rw [hrun]
    exact (host_runsConstants h).bind fun v _ => .pure fun hhost => absurd hhost Bool.false_ne_true
  | false =>
    have hrun : buildHost c f args = (do Run.note (.built f.name false); pure (host f args)) := by
      rw [buildHost, h, fold, if_neg (by simp [h])]
    rw [hrun]
    exact .bind (P := fun _ => True) (.note (additive_runsConstants.lets_note (.single rfl rfl)) trivial) fun _ _ =>
      .pure fun _ => h

end Node

namespace Context

variable {c : Context}

theorem builds_runsConstants {read : String → Run Node}
    (hread : ∀ s, Meets (.adding additive_runsConstants) (read s) fun _ => True) :
    c.Builds (fun x _ Q => Meets (.adding additive_runsConstants) x Q) (fun n => n.isHost = true → n.isFoldable = false)
      (fun _ => True) (fun _ _ => True) read read where
  toRelates := additive_runsConstants.relates (.single rfl rfl)
  read := hread
  columnOf? _ := .columnOf? fun _ _ _ _ _ => nofun
  fold hn _ := (Node.fold_runsConstants hn).mono fun _ hm => ⟨hm, trivial⟩
  typed _ := trivial
  const _ := nofun
  varying _ := nofun
  nested {n} _ := by cases n <;> exact nofun
  spliced {n} _ := by cases n <;> exact nofun
  strict _ _ _ := nofun
  aggregate _ _ _ := nofun
  binomial _ _ := nofun
  choose _ _ _ _ _ := nofun
  convert _ _ := nofun
  evalText _ := nofun
  columnNamed _ := nofun
  macroNamed _ := nofun
  macroOr _ _ _ := nofun
  refuse _ _ := nofun
  now := nofun
  random _ := nofun
  seeded _ := nofun
  parameter _ _ := nofun
  host _ _ := Node.buildHost_runsConstants _ _

theorem readNested_runsConstants (budget : Nat) (s : String) :
    Meets (.adding additive_runsConstants) (c.readNested budget s) fun _ => True := by
  have hpoll : Meets (.adding additive_runsConstants) c.poll fun _ => True :=
    additive_runsConstants.poll_meets fun _ => .single rfl rfl
  induction budget generalizing s with
  | zero => exact hpoll.bind fun _ _ => .fail trivial
  | succ budget ih =>
    refine hpoll.bind fun _ _ => additive_runsConstants.inText_meets _ RunsConstants.inside ?_
    exact ((builds_runsConstants ih).readWith_related s).mono fun _ _ => trivial

/-- While a text is read, each constant node of the host runs once. -/
theorem parse_runs_constants (s : String) (w : World) :
    ∃ es, ((c.parse s).exec w).2.events = es ++ w.events ∧ RunsConstants es := by
  have hparse : Meets (.adding additive_runsConstants) (c.parse s) fun _ => True :=
    ((builds_runsConstants (readNested_runsConstants _)).readWith_related s).bind fun _ _ => .pure trivial
  exact (hparse w trivial).2.1

end Context

/-! ### Calls outside of texts -/

/-- The functions of the host that have built nodes outside of texts, the latest first; so many texts are open at the end. -/
def builtOutside : (depth : Nat) → List Event → List String
  | _, [] => []
  | depth, .closed :: es => builtOutside (depth + 1) es
  | depth, .opened :: es => builtOutside (depth - 1) es
  | 0, .built f _ :: es => f :: builtOutside 0 es
  | depth, _ :: es => builtOutside depth es

/-- No function of the host has built a node outside of texts. -/
def BuildsNothing (es : List Event) : Prop := ∀ depth fs, builtOutside depth (es ++ fs) = builtOutside depth fs

/-- Texts have been closed as often as opened; what has been built inside of a text does not count. -/
def BuildsInside (es : List Event) : Prop := ∀ depth fs, builtOutside (depth + 1) (es ++ fs) = builtOutside (depth + 1) fs

theorem additive_buildsNothing : Additive BuildsNothing where
  nil _ _ := rfl
  append hes hfs depth gs := by rw [List.append_assoc, hfs, hes]

theorem additive_buildsInside : Additive BuildsInside where
  nil _ _ := rfl
  append hes hfs depth gs := by rw [List.append_assoc, hfs, hes]

/-- True for the events that neither delimit a text nor belong to the building of a call of the host. -/
def Event.isPlain : Event → Bool
  | opened | closed | built _ _ => false
  | _ => true

theorem Event.isPlain_of_isStep {e : Event} (h : e.isStep = true) : e.isPlain = true := by
  cases e <;> first | rfl | cases h

theorem BuildsNothing.single {e : Event} (h : e.isPlain = true) : BuildsNothing [e] := by
  intro depth fs
  cases e with
  | opened => cases h
  | closed => cases h
  | built f b => cases h
  | _ => rw [List.singleton_append, builtOutside] <;> exact nofun

theorem BuildsNothing.buildsInside {es : List Event} (h : BuildsNothing es) : BuildsInside es := fun depth => h (depth + 1)

theorem BuildsInside.of_plain {e : Event} (h : e.isPlain = true) : BuildsInside [e] := (BuildsNothing.single h).buildsInside

theorem BuildsInside.built (f : String) (b : Bool) : BuildsInside [.built f b] := fun _ _ => by
  rw [List.singleton_append, builtOutside] <;> exact nofun

/-- Texts are opened and closed in pairs, so what stands between is inside. -/
theorem BuildsInside.inside (es : List Event) (h : BuildsInside es) : BuildsNothing (.closed :: (es ++ [.opened])) := by
  intro depth fs
  show builtOutside (depth + 1) (es ++ [.opened] ++ fs) = _
  rw [List.append_assoc, h]
  rfl

namespace Context

variable {c : Context}

theorem carries_buildsInside (c : Context) :
    c.Carries (fun _ => False) fun x _ Q => Meets (.adding additive_buildsInside) x Q where
  toRelates := additive_buildsInside.relates (.of_plain rfl)
  evaluates := additive_buildsInside.evaluates (fun _ => .of_plain rfl) (fun _ he => .of_plain (Event.isPlain_of_isStep he))
    fun es h => (BuildsInside.inside es h).buildsInside
  columnOf? _ := additive_buildsInside.columnOf?_meets _
  built f b := .note (additive_buildsInside.lets_note (.built f b)) trivial
  exhausted := .throw trivial

/-- What is built while a text within the expression is read is inside of a text. -/
theorem readNested_buildsNothing (budget : Nat) (s : String) :
    Meets (.adding additive_buildsNothing) (c.readNested budget s) fun _ => True := by
  have hpoll : Meets (.adding additive_buildsNothing) c.poll fun _ => True :=
    additive_buildsNothing.poll_meets fun _ => .single rfl
  cases budget with
  | zero => exact hpoll.bind fun _ _ => .fail trivial
  | succ budget =>
    refine hpoll.bind fun _ _ => additive_buildsInside.inText_meets additive_buildsNothing BuildsInside.inside ?_
    exact (carries_buildsInside c).readWith_related budget s

theorem fold_buildsNothing (n : Node) : Meets (.adding additive_buildsNothing) (n.fold c) fun _ => True := by
  have E : c.Evaluates (fun _ => False) fun _ {_} x _ => Meets (.adding additive_buildsNothing) x fun _ => True :=
    additive_buildsNothing.evaluates (fun _ => .single rfl) (fun _ he => .single (Event.isPlain_of_isStep he))
      fun es h => BuildsInside.inside es h.buildsInside
  unfold Node.fold
  split
  · rename_i hfold
    have hvalue : Meets (.adding additive_buildsNothing) (n.value c fun _ _ => throw .exhausted) fun _ => True :=
      @Node.foldable_simulates _ _ _ _ (fun _ _ => throw .exhausted) 0 E n hfold
    exact hvalue.bind fun _ _ => .pure trivial
  · exact .pure trivial

/-- The builders of standard functions call no function of the host outside of texts. -/
theorem buildsStandard_buildsNothing (c : Context) (budget : Nat) :
    c.BuildsStandard (fun x _ Q => Meets (.adding additive_buildsNothing) x Q) (fun _ => True) (fun _ => True)
      (fun _ _ => True) (c.readNested budget) (c.readNested budget) :=
  (additive_buildsNothing.relates (.single rfl)).buildsStandard (readNested_buildsNothing budget)
    additive_buildsNothing.columnOf?_meets fold_buildsNothing

end Context

/-! ### The calls of a tree -/

namespace Expr

mutual

/-- The functions that a tree calls, in the order of their calls. -/
def calls : Expr → List String
  | unary op e => e.calls ++ [op.symbol]
  | binary op l r => l.calls ++ r.calls ++ [op.symbol]
  | call f es => allCalls es ++ [f]
  | _ => []

/-- The functions that the trees of a list call. -/
def allCalls : List Expr → List String
  | [] => []
  | e :: es => e.calls ++ allCalls es

end

end Expr

/-- True for the names of functions of the host. -/
def Context.isHosted (c : Context) (name : String) : Bool :=
  match c.function? name with
  | some (.host _) => true
  | _ => false

/-- A run that yields something has built nodes for calls of these functions of the host outside of texts. -/
def Run.Calls {α : Type} (x : Run α) (names : List String) : Prop :=
  ∀ w a, (x.exec w).1 = .ok a → ∃ es, (x.exec w).2.events = es ++ w.events ∧
    ∀ fs, builtOutside 0 (es ++ fs) = names.reverse ++ builtOutside 0 fs

namespace Run.Calls

variable {α β : Type} {x : Run α} {f : α → Run β} {names names' : List String} {Q : α → Prop}

theorem of_meets (hx : Meets (.adding additive_buildsNothing) x Q) : Calls x [] := by
  intro w _ _
  obtain ⟨-, ⟨es, hes, hnothing⟩, -⟩ := hx w trivial
  exact ⟨es, hes, hnothing 0⟩

theorem pure (a : α) : Calls (Pure.pure a) [] := of_meets (.pure (Q := fun _ => True) trivial)

theorem fail (f : Fault) : Calls (Run.fail f : Run α) names := fun _ _ h => nomatch h

theorem bind (hx : Calls x names) (hf : ∀ a, Calls (f a) names') : Calls (x >>= f) (names ++ names') := by
  intro w b hb
  obtain ⟨a, v, hv, hfa⟩ := exec_bind_ok hb
  obtain ⟨es, hes, hnames⟩ := hx w a (by rw [hv])
  obtain ⟨fs, hfs, hnames'⟩ := hf a v b hfa
  rw [hv] at hes
  rw [exec_bind, hv]
  refine ⟨fs ++ es, by rw [hfs, hes, List.append_assoc], fun gs => ?_⟩
  rw [List.append_assoc, hnames', hnames, List.reverse_append, List.append_assoc]

theorem bind_nil (hx : Calls x []) (hf : ∀ a, Calls (f a) names) : Calls (x >>= f) names := hx.bind hf

theorem note_built (f : String) (b : Bool) : Calls (Run.note (.built f b)) [f] :=
  fun _ _ _ => ⟨[.built f b], rfl, fun _ => rfl⟩

end Run.Calls

namespace Context

open Node

variable {c : Context} {budget : Nat}

theorem callWith_calls (name : String) (args : List Node) :
    Calls (c.callWith (c.readNested budget) name args) ([name].filter c.isHosted) := by
  have hquiet := buildsStandard_buildsNothing c budget
  unfold callWith
  split
  · rename_i f hf
    show Calls (if _ then _ else _) _
    split
    · exact .fail _
    · rename_i harity
      have hmem : f ∈ c.callables := mem_of_function? hf
      cases f with
      | builtin b =>
        have hname : [name].filter c.isHosted = [] := by simp [isHosted, hf]
        rw [hname]
        have harity : (Callable.builtin b).signature.arity.accepts args.length = true := by simpa using harity
        have hbuild := hquiet.buildStandard_related (mem_of_builtin hmem) harity fun _ _ => trivial
        exact .of_meets (hbuild.bind fun n _ => fold_buildsNothing n)
      | host f =>
        have hname : f.name = name := by
          exact of_decide_eq_true (List.find?_some (p := fun g : Callable => decide (g.name = name)) hf)
        have hcalls : [name].filter c.isHosted = [f.name] ++ [] := by simp [isHosted, hf, hname]
        rw [hcalls]
        exact (Calls.note_built _ _).bind fun _ => .of_meets (fold_buildsNothing _)
  · exact .fail _

mutual

/-- The node of a tree is built by the calls that the tree shows. -/
theorem compile_calls : ∀ e : Expr, Calls (c.compile (c.readNested budget) e) (e.calls.filter c.isHosted)
  | .integer x => by
    rw [compile]
    exact .pure _
  | .double x => by
    rw [compile]
    exact .pure _
  | .text s => by
    rw [compile]
    exact .pure _
  | .name s => by
    rw [compile]
    exact .of_meets ((buildsStandard_buildsNothing c budget).nameNode_related s)
  | .column s => by
    rw [compile]
    refine Calls.bind_nil (.of_meets (additive_buildsNothing.columnOf?_meets s)) fun n? => ?_
    cases n? with
    | some n => exact .pure n
    | none => exact .fail _
  | .scope s => by
    rw [compile]
    refine Calls.bind_nil (.of_meets (@Meets.scope? _ s)) fun text => ?_
    cases text with
    | some text => exact .pure _
    | none => exact .fail _
  | .macroRef s => by
    rw [compile]
    exact .of_meets ((buildsStandard_buildsNothing c budget).macroNode_related s)
  | .unary op e => by
    rw [compile, Expr.calls, List.filter_append]
    exact (compile_calls e).bind fun n => callWith_calls _ _
  | .binary op l r => by
    rw [compile, Expr.calls, List.filter_append, List.filter_append, List.append_assoc]
    exact (compile_calls l).bind fun a => (compile_calls r).bind fun b => callWith_calls _ _
  | .call f es => by
    rw [compile, Expr.calls, List.filter_append]
    exact (compileAll_calls es).bind fun args => callWith_calls _ _

theorem compileAll_calls : ∀ es : List Expr,
    Calls (c.compileAll (c.readNested budget) es) ((Expr.allCalls es).filter c.isHosted)
  | [] => by
    rw [compileAll]
    exact .pure _
  | e :: es => by
    rw [compileAll, Expr.allCalls, List.filter_append]
    refine (compile_calls e).bind fun n => ?_
    rw [← List.append_nil ((Expr.allCalls es).filter c.isHosted)]
    exact (compileAll_calls es).bind fun ns => .pure (n :: ns)

end

/-- The functions of the host that build nodes while a text is read and outside of texts within it are those that its tree
calls, in the order of the calls. -/
theorem parse_calls {s : String} {w : World} {e : Expression} (h : ((c.parse s).exec w).1 = .ok e) :
    ∃ tree, Expr.parse c.options.nestingLimit s = .ok tree ∧ ∃ es, ((c.parse s).exec w).2.events = es ++ w.events ∧
      builtOutside 0 es = (tree.calls.filter c.isHosted).reverse := by
  unfold parse readWith at h ⊢
  cases hparse : Expr.parse c.options.nestingLimit s with
  | error f =>
    rw [hparse] at h
    cases h
  | ok tree =>
    rw [hparse] at h
    have hcalls : Calls (do return Expression.mk (← c.compile c.readInner tree)) (tree.calls.filter c.isHosted ++ []) :=
      (compile_calls tree).bind fun n => .pure (Expression.mk n)
    obtain ⟨es, hes, hnames⟩ := hcalls w e h
    refine ⟨tree, rfl, es, hes, ?_⟩
    simpa [builtOutside] using hnames []

/-! ### Constants -/

/-- **The flag of constants is truthful.**  While a text is read, whatever comes of it, nothing is evaluated that takes its value
from a row, a variable or the clock, and no random number is drawn; the functions of the host that run are those whose calls
have built constant nodes, once for each of these nodes and in their order.  If an expression comes of the text, the calls
outside of texts within it are those that its tree shows, and if it is constant, then it has its value in every world and leaves
the world as it is: the host is not asked and nothing runs or is read again. -/
theorem constant_flag_truthful (c : Context) (s : String) (w : World) :
    w.ReadInto ((c.parse s).exec w).2 ∧ ∃ es, ((c.parse s).exec w).2.events = es ++ w.events ∧
      (∀ e ∈ es, e.isPassing = false) ∧ es.filterMap Event.ran? = es.filterMap Event.builtConstant? ∧
      ∀ e, ((c.parse s).exec w).1 = .ok e →
        (∃ tree, Expr.parse c.options.nestingLimit s = .ok tree ∧
          builtOutside 0 es = (tree.calls.filter c.isHosted).reverse) ∧
        (e.isConstant = true → ∃ v, ∀ fuel w', (c.evaluateWithin fuel e.root).exec w' = (.ok v, w')) := by
  have hread := c.parse_readInto s w
  obtain ⟨es, hes, hruns⟩ := c.parse_runs_constants s w
  refine ⟨hread, es, hes, ?_, hruns, fun e he => ⟨?_, fun hconst => ?_⟩⟩
  · obtain ⟨fs, hfs, hpassing⟩ := hread.events
    rwa [List.append_cancel_right (hes.symm.trans hfs)]
  · obtain ⟨tree, htree, fs, hfs, hcalls⟩ := parse_calls he
    rw [List.append_cancel_right (hes.symm.trans hfs)]
    exact ⟨tree, htree, hcalls⟩
  · obtain ⟨v, hv⟩ := Node.exists_const hconst
    refine ⟨v, fun fuel w' => ?_⟩
    rw [evaluateWithin_eq, hv, Node.value, exec_pure]

end Context

end Rowwise
