import Mathlib
import Rowwise.Proofs.Repetition.Histories
import Rowwise.Proofs.Texts.Counting

/-!
# Rowwise.Proofs.Texts.Chains — parsing leaves no trace, and how long a chain of macros may be

A text that refers to a macro whose text refers to the next one, and so on, is parsed just if the chain is no longer than the
limit on texts (`Context.parse_leaves_no_trace`), whatever was parsed and evaluated before, and with whatever outcomes.  Too
small a budget shows in a fault, where a larger one opens more texts than the smaller one has (`Run.Extends`).
-/

namespace Rowwise

open Run Node

variable {c : Context}

/-! ### Runs with a larger budget -/

namespace Run

/-- Both runs leave no text open and open at most `k` at once.  The second is the same as the first, unless the first fails and
the second opens at least `p` texts at once. -/
structure Extends (k p : Nat) {α : Type} (x y : Run α) (Q : α → Prop) : Prop where
  small : Meets (.nesting k) x Q
  large : Meets (.nesting k) y Q
  same (w : World) : y.exec w = x.exec w ∨ (∃ h, (x.exec w).1 = .error h) ∧ w.Reaches p (y.exec w).2

namespace Extends

variable {α β : Type} {k p : Nat} {x y : Run α} {f g : α → Run β} {P Q : α → Prop} {R : β → Prop}

theorem refl (h : Meets (.nesting k) x Q) : Extends k p x x Q := ⟨h, h, fun _ => Or.inl rfl⟩

theorem bind (hx : Extends k p x y P) (hf : ∀ a, P a → Extends k p (f a) (g a) R) : Extends k p (x >>= f) (y >>= g) R := by
  refine ⟨hx.small.bind fun a ha => (hf a ha).small, hx.large.bind fun a ha => (hf a ha).large, fun w => ?_⟩
  obtain ⟨-, hnested, hresult⟩ := hx.large w trivial
  have hsame := hx.same w
  rw [exec_bind, exec_bind]
  rcases hry : exec y w with ⟨h | a, v⟩
  · rw [hry] at hsame
    rcases hsame with hsame | ⟨⟨h', hh'⟩, hreaches⟩
    · rw [← hsame]
      exact Or.inl rfl
    · rcases hrx : exec x w with ⟨h'' | b, v'⟩
      · exact Or.inr ⟨⟨h'', rfl⟩, hreaches⟩
      · rw [hrx] at hh'
        cases hh'
  · rw [hry] at hsame hnested hresult
    have hrest := hf a hresult
    rcases hsame with hsame | ⟨⟨h', hh'⟩, hreaches⟩
    · rw [← hsame]
      exact (hrest.same v).imp id fun ⟨herror, hreaches⟩ => ⟨herror, hnested.reaches hreaches⟩
    · rcases hrx : exec x w with ⟨h'' | b, v'⟩
      · exact Or.inr ⟨⟨h'', rfl⟩, hreaches.grows (World.Nested.grows (hrest.large v trivial).2.1)⟩
      · rw [hrx] at hh'
        cases hh'

theorem mono (hx : Extends k p x y P) (h : ∀ a, P a → Q a) : Extends k p x y Q :=
  ⟨hx.small.mono h, hx.large.mono h, hx.same⟩

theorem nested (hx : Extends k p x y Q) (function : String) :
    Extends k p (Run.nested function x) (Run.nested function y) Q := by
  have husual := (Contract.plain_nesting k).usual
  refine ⟨hx.small.nested husual, hx.large.nested husual, fun w => ?_⟩
  rw [exec_nested, exec_nested]
  rcases hx.same w with hsame | ⟨⟨h, hh⟩, hreaches⟩
  · exact Or.inl (by rw [hsame])
  · exact Or.inr ⟨⟨h.within function, by rw [hh]; rfl⟩, hreaches⟩

theorem inText (hx : Extends k p x y Q) : Extends (k + 1) (p + 1) (Run.inText x) (Run.inText y) Q := by
  refine ⟨hx.small.inText_nesting, hx.large.inText_nesting, fun w => ?_⟩
  rw [exec_inText, exec_inText]
  rcases hx.same w.opening with hsame | ⟨herror, hreaches⟩
  · exact Or.inl (by rw [hsame])
  · exact Or.inr ⟨herror, hreaches.inside⟩

theorem poll : Extends k p c.poll c.poll fun _ => True := refl (Meets.poll (Contract.plain_nesting k).usual trivial)

theorem relates (k p : Nat) : Run.Relates (Extends k p) where
  pure h := refl (Meets.pure h)
  fail _ := refl (Meets.fail nofun)
  bind := bind
  mono := mono
  within function hx := hx.nested function
  scope? _ := refl Meets.scope?
  newStream _ := refl (Meets.newStream (Contract.plain_nesting k).usual)

theorem builds {read read' : String → Run Node} (hread : ∀ s, Extends k p (read s) (read' s) fun _ => True) :
    c.Builds (Extends k p) (fun _ => True) (fun _ => True) (fun _ _ => True) read read' :=
  (relates k p).builds_of_quiet (fun h => refl (h.nesting_mono (Nat.zero_le k))) hread

end Extends

end Run

namespace Context

/-- With a larger budget a text is read as before, or opens more texts than the smaller budget has. -/
theorem readNested_extends (budget more : Nat) (s : String) :
    Extends (budget + more) (budget + 1) (c.readNested budget s) (c.readNested (budget + more) s) fun _ => True := by
  induction budget generalizing s with
  | zero =>
    have hlarge := (readNested_nesting (c := c) (0 + more) s).mono (Q := fun _ => True) fun _ _ => trivial
    have hsmall := ((readNested_nesting (c := c) 0 s).mono (Q := fun _ => True) fun _ _ => trivial).nesting_mono
      (Nat.zero_le (0 + more))
    refine ⟨hsmall, hlarge, fun w => ?_⟩
    cases more with
    | zero => exact Or.inl rfl
    | succ more =>
      have hpoll := (@Extends.poll c 0 1).small w trivial
      rw [Nat.zero_add, readNested, readNested, exec_bind, exec_bind]
      rcases hr : c.poll.exec w with ⟨h | a, v⟩
      · exact Or.inl rfl
      · -- the larger budget opens the text for which the smaller one has no place
        rw [hr] at hpoll
        have htext := (builds_nesting (c := c) (readNested_nesting (c := c) more)).readWith_related s
        refine Or.inr ⟨⟨_, rfl⟩, World.Nested.reaches hpoll.2.1 ?_⟩
        simp only [exec_inText]
        exact (World.Nested.grows (htext v.opening trivial).2.1).reaches.inside
  | succ budget ih =>
    rw [Nat.succ_add]
    exact Extends.poll.bind fun _ _ => ((Extends.builds ih).readWith_related s).inText

theorem readWith_extends (budget more : Nat) (s : String) :
    Extends (budget + more) (budget + 1) (c.readWith (c.readNested budget) s) (c.readWith (c.readNested (budget + more)) s)
      fun _ => True :=
  (Extends.builds (readNested_extends budget more)).readWith_related s

/-- If a text can be read with some budget and opens no more than `k` texts at once, then it can be read with every budget of
at least `k`. -/
theorem readWith_of_nested {k budget budget' : Nat} {s : String} {w : World} {n : Node}
    (hok : ((c.readWith (c.readNested budget) s).exec w).1 = .ok n)
    (hnested : w.Nested k ((c.readWith (c.readNested budget) s).exec w).2) (hk : k ≤ budget') :
    ((c.readWith (c.readNested budget') s).exec w).1 = .ok n := by
  rcases Nat.le_total budget budget' with hle | hle
  · obtain ⟨more, rfl⟩ := Nat.exists_eq_add_of_le hle
    rcases (readWith_extends budget more s).same w with hsame | ⟨⟨h, hh⟩, -⟩
    · rw [hsame, hok]
    · rw [hok] at hh
      cases hh
  · obtain ⟨more, rfl⟩ := Nat.exists_eq_add_of_le hle
    rcases (readWith_extends budget' more s).same w with hsame | ⟨-, hreaches⟩
    · rw [← hsame, hok]
    · have := hnested.le_of_reaches hreaches
      omega

end Context

/-! ### Chains of macros -/

/-- The macro of that name is read wherever the tree is compiled. -/
inductive Expr.Refers (name : String) : Expr → Prop where
  | here : Refers name (.macroRef name)
  | inside {e e' : Expr} : e' ∈ e.children → Refers name e' → Refers name e

/-- `k` macros are read within each other where the text is read: it refers to the first, the text of that to the second, and
so on. -/
inductive Context.Chain (c : Context) (w : World) : Nat → String → Prop where
  | last (s : String) : Chain c w 0 s
  | link {k : Nat} {s m t : String} {e : Expr} : Expr.parse c.options.nestingLimit s = .ok e → e.Refers m →
      w.scope? m = some (some t) → Chain c w k t → Chain c w (k + 1) s

/-- A chain in which each text is a reference and nothing else, and no text is read within the last. -/
inductive Context.BareChain (c : Context) (w : World) : Nat → String → Prop where
  | last {s : String} {e : Expr} {n : Node} : Expr.parse c.options.nestingLimit s = .ok e →
      (∀ read, Run.Gives w (c.compile read e) (.ok n)) → BareChain c w 0 s
  | link {k : Nat} {s m t : String} : Expr.parse c.options.nestingLimit s = .ok (.macroRef m) →
      w.scope? m = some (some t) → BareChain c w k t → BareChain c w (k + 1) s

/-- With a budget that is large enough the text can be read there, with at most `k` texts open at once. -/
def Context.ReadableWithin (c : Context) (k : Nat) (w : World) (s : String) : Prop :=
  ∃ budget n, ((c.readWith (c.readNested budget) s).exec w).1 = .ok n ∧
    w.Nested k ((c.readWith (c.readNested budget) s).exec w).2

namespace Run

variable {α β : Type} {w : World} {x : Run α} {f : α → Run β}

/-- In a world that agrees with this one the run yields something. -/
def Succeeds (w : World) (x : Run α) : Prop := ∃ v a, w.Agrees v ∧ (x.exec v).1 = .ok a

theorem Succeeds.bind_left (h : Succeeds w (x >>= f)) : Succeeds w x := by
  obtain ⟨v, b, hv, hb⟩ := h
  obtain ⟨a, v', hx, -⟩ := exec_bind_ok hb
  exact ⟨v, a, hv, by rw [hx]⟩

theorem Succeeds.bind_right {Q : α → Prop} (hx : Meets .agreeing x Q) (h : Succeeds w (x >>= f)) : ∃ a, Succeeds w (f a) := by
  obtain ⟨v, b, hv, hb⟩ := h
  obtain ⟨a, v', hxa, hfa⟩ := exec_bind_ok hb
  have hagrees := (hx v trivial).2.1
  rw [hxa] at hagrees
  exact ⟨a, v', b, hv.trans hagrees, hfa⟩

theorem Succeeds.of_nested {function : String} (h : Succeeds w (Run.nested function x)) : Succeeds w x := by
  obtain ⟨v, a, hv, ha⟩ := h
  rw [exec_nested] at ha
  rcases hr : (exec x v).1 with halt | b
  · rw [hr] at ha
    cases ha
  · exact ⟨v, b, hv, hr⟩

theorem Succeeds.of_inText (h : Succeeds w (Run.inText x)) : Succeeds w x := by
  obtain ⟨v, a, hv, ha⟩ := h
  rw [exec_inText] at ha
  exact ⟨v.opening, a, hv.trans ⟨rfl, rfl, rfl, rfl, rfl⟩, ha⟩

end Run

namespace Context

variable {w : World} {read : String → Run Node} {k budget : Nat} {s t : String}

/-! ### A chain needs a budget of its length -/

/-- A list of trees is compiled by compiling each. -/
theorem succeeds_of_compileAll (hread : ∀ s, Meets .agreeing (read s) (ReadsOnly (fun _ _ _ => True) True)) :
    ∀ {es : List Expr}, Succeeds w (c.compileAll read es) → ∀ e ∈ es, Succeeds w (c.compile read e)
  | [], _, _, he => by cases he
  | e :: es, h, e', he => by
    rw [compileAll] at h
    rcases List.mem_cons.1 he with rfl | he
    · exact h.bind_left
    · obtain ⟨n, hrest⟩ := h.bind_right ((Contract.frames_agreeing.builds hread).compile_related e fun _ _ => trivial)
      exact succeeds_of_compileAll hread hrest.bind_left e' he

/-- Where a macro is compiled its text is read. -/
theorem succeeds_of_macroNode {m : String} (hm : w.scope? m = some (some t)) (h : Succeeds w (macroNode read m)) :
    Succeeds w (read t) := by
  obtain ⟨v, n, hv, hn⟩ := h
  rw [macroNode, exec_bind, exec_scope?, hv.scope?_eq, hm] at hn
  exact Succeeds.of_nested (Succeeds.bind_left ⟨v, n, hv, hn⟩)

/-- Where a tree is compiled all macros that it refers to are read. -/
theorem succeeds_of_refers (hread : ∀ s, Meets .agreeing (read s) (ReadsOnly (fun _ _ _ => True) True)) {m : String}
    (hm : w.scope? m = some (some t)) {e : Expr} (h : e.Refers m) (hok : Succeeds w (c.compile read e)) :
    Succeeds w (read t) := by
  induction h with
  | here =>
    rw [compile] at hok
    exact succeeds_of_macroNode hm hok
  | @inside e e' hmem _ ih =>
    refine ih ?_
    cases e with
    | unary op e =>
      obtain rfl : e' = e := by simpa [Expr.children] using hmem
      rw [compile] at hok
      exact hok.bind_left
    | binary op l r =>
      rw [compile] at hok
      have hmem : e' = l ∨ e' = r := by simpa [Expr.children] using hmem
      rcases hmem with rfl | rfl
      · exact hok.bind_left
      · obtain ⟨n, hrest⟩ := hok.bind_right ((Contract.frames_agreeing.builds hread).compile_related l fun _ _ => trivial)
        exact hrest.bind_left
    | call f es =>
      rw [compile] at hok
      exact succeeds_of_compileAll hread hok.bind_left e' hmem
    | _ => cases hmem

/-- Each macro of a chain takes one from the budget. -/
theorem Chain.le (h : c.Chain w k s) (hok : Succeeds w (c.readWith (c.readNested budget) s)) : k ≤ budget := by
  have hpoll : Meets .agreeing c.poll fun _ => True := Meets.poll Contract.frames_agreeing.usual trivial
  induction h generalizing budget with
  | last s => exact Nat.zero_le budget
  | @link k s m t e hparse hrefers hm _ ih =>
    have hcompile : Succeeds w (c.compile (c.readNested budget) e) := by
      rw [readWith, hparse] at hok
      exact hok
    have hread := succeeds_of_refers (Contract.frames_agreeing.readNested_meets budget) hm hrefers hcompile
    cases budget with
    | zero =>
      obtain ⟨-, v, n, -, hfail⟩ := hread.bind_right hpoll
      cases hfail
    | succ budget =>
      obtain ⟨-, htext⟩ := hread.bind_right hpoll
      exact Nat.succ_le_succ (ih htext.of_inText)

theorem BareChain.chain (h : c.BareChain w k s) : c.Chain w k s := by
  induction h with
  | last => exact .last _
  | link hparse hm _ ih => exact .link hparse .here hm ih

/-- A budget of its length is enough for a chain of references alone. -/
theorem BareChain.gives (hcalm : c.Calm) (hw : w.cancelled = false) (h : c.BareChain w k s) (hk : k ≤ budget) :
    ∃ n, Gives w (c.readWith (c.readNested budget) s) (.ok n) := by
  induction h generalizing budget with
  | @last s e n hparse hcompile =>
    refine ⟨n, ?_⟩
    rw [readWith, hparse]
    exact hcompile _
  | @link k s m t hparse hm _ ih =>
    obtain ⟨budget, rfl⟩ := Nat.exists_eq_add_of_le' hk
    obtain ⟨n, hn⟩ := ih (Nat.le_add_left k budget)
    refine ⟨n.marked .spliced, ?_⟩
    rw [readWith, hparse]
    show Gives w (macroNode (c.readNested (budget + k + 1)) m) _
    refine (Gives.scope? m).after ?_
    rw [hm]
    have hread : Gives w (c.readNested (budget + k + 1) t) (.ok n) := (Gives.poll hcalm hw).after hn.inText
    exact (hread.nested (macroLabel m)).after (.pure _)

/-! ### No trace -/

theorem parse_ok_iff : (∃ e, ((c.parse s).exec w).1 = .ok e) ↔ ∃ n, ((c.readWith c.readInner s).exec w).1 = .ok n := by
  constructor
  · rintro ⟨e, he⟩
    obtain ⟨n, v, hn, -⟩ := exec_bind_ok he
    exact ⟨n, by rw [hn]⟩
  · rintro ⟨n, hn⟩
    refine ⟨⟨n⟩, ?_⟩
    rw [parse, exec_bind]
    rcases hr : (c.readWith c.readInner s).exec w with ⟨r, v⟩
    rw [hr] at hn
    subst hn
    rfl

/-- What has happened leaves no text open that was not open before. -/
theorem Past.openTexts_eq {w₀ : World} (h : c.Past (fun u u' => u'.events = u.events) w₀ w) :
    openTexts w.events = openTexts w₀.events := by
  induction h with
  | refl => rfl
  | tail _ hstep ih =>
    rw [← ih]
    cases hstep with
    | parsed s => exact World.Nested.openTexts_eq (parse_nesting (c := c) s _ trivial).2.1
    | evaluated e fuel => exact ((evaluateWithin_approximates fuel 0 (Nat.le_refl _)).nested _).openTexts_eq
    | changed hsame => rw [hsame]

end Context

/-- Whatever has been parsed and evaluated before, and with whatever outcomes, parsing a text ends, leaves open as many texts as
it found, and has no more than the limit open at any moment; it is the same as parsing with a count of the open texts in place
of a budget.  So a chain of macros can be parsed only if it is no longer than the limit, and then it can be unless something
else about it is refused. -/
theorem Context.parse_leaves_no_trace {w₀ w : World} (hstart : openTexts w₀.events = 0)
    (hpast : c.Past (fun u u' => u'.events = u.events) w₀ w) (s : String) :
    ((c.parse s).exec w).1 ≠ .error .exhausted ∧
    openTexts ((c.parse s).exec w).2.events = openTexts w.events ∧
    (∀ es, w.events <:+ es → es <:+ ((c.parse s).exec w).2.events → openTexts es ≤ c.options.textLimit) ∧
    (∀ fuel, c.options.textLimit < fuel → (c.parseCounted fuel s).exec w = (c.parse s).exec w) ∧
    (∀ k, c.Chain w k s → (∃ e, ((c.parse s).exec w).1 = .ok e) → k ≤ c.options.textLimit) ∧
    (∀ k, c.Chain w k s → c.ReadableWithin k w s → ((∃ e, ((c.parse s).exec w).1 = .ok e) ↔ k ≤ c.options.textLimit)) ∧
    (c.Calm → w.cancelled = false → ∀ k, c.BareChain w k s →
      ((∃ e, ((c.parse s).exec w).1 = .ok e) ↔ k ≤ c.options.textLimit)) := by
  have hopen : openTexts w.events = 0 := by rw [hpast.openTexts_eq, hstart]
  have hnested : w.Nested c.options.textLimit ((c.parse s).exec w).2 := (parse_nesting (c := c) s w trivial).2.1
  have hle : ∀ k, c.Chain w k s → (∃ e, ((c.parse s).exec w).1 = .ok e) → k ≤ c.options.textLimit := by
    intro k hchain hok
    obtain ⟨n, hn⟩ := parse_ok_iff.1 hok
    exact hchain.le ⟨w, n, .refl w, hn⟩
  refine ⟨parse_not_exhausted s w, hnested.openTexts_eq, ?_, fun fuel hfuel => parseCounted_eq hopen hfuel s, hle, ?_, ?_⟩
  · rintro es ⟨fs, rfl⟩ hes
    obtain ⟨gs, hgs, hwithin⟩ := hnested
    rw [hgs] at hes
    rw [openTexts_append, hopen, Int.add_zero]
    exact hwithin.2 fs (List.suffix_append_self_iff.1 hes)
  · rintro k hchain ⟨budget, n, hn, hbound⟩
    exact ⟨hle k hchain, fun hk => parse_ok_iff.2 ⟨n, readWith_of_nested hn hbound hk⟩⟩
  · intro hcalm hw k hchain
    refine ⟨hle k hchain.chain, fun hk => parse_ok_iff.2 ?_⟩
    obtain ⟨n, hn⟩ := hchain.gives hcalm hw hk
    exact ⟨n, hn.yields w (.refl w)⟩

/-- A macro whose text refers to itself cannot be parsed, and after it a chain of two can. -/
theorem Context.parse_leaves_no_trace_after_circle :
    let c : Context := {}
    let w : World := { macros := [{ values := [("a", "#\x7ba\x7d"), ("b", "#\x7bc\x7d"), ("c", "\"x\"")] }] }
    (¬ ∃ e, ((c.parse "#\x7ba\x7d").exec w).1 = .ok e) ∧
      ∃ e, ((c.parse "#\x7bb\x7d").exec ((c.parse "#\x7ba\x7d").exec w).2).1 = .ok e := by
  intro c w
  have hcircle : ∀ k, c.Chain w k "#\x7ba\x7d" := by
    intro k
    induction k with
    | zero => exact .last _
    | succ k ih => exact .link (e := .macroRef "a") (by cbv) .here rfl ih
  have hagrees := c.parse_agrees "#\x7ba\x7d" w
  have hchain : c.BareChain ((c.parse "#\x7ba\x7d").exec w).2 2 "#\x7bb\x7d" := by
    refine .link (m := "b") (t := "#\x7bc\x7d") (by cbv) (hagrees.scope?_eq "b") ?_
    refine .link (m := "c") (t := "\"x\"") (by cbv) (hagrees.scope?_eq "c") ?_
    exact .last (e := .text "x") (by cbv) fun _ => .pure _
  obtain ⟨-, -, -, -, hle, -⟩ := @parse_leaves_no_trace c w w rfl .refl "#\x7ba\x7d"
  obtain ⟨-, -, -, -, -, -, hbare⟩ :=
    @parse_leaves_no_trace c w _ rfl (.single (.parsed "#\x7ba\x7d" w)) "#\x7bb\x7d"
  refine ⟨fun hok => absurd (hle (c.options.textLimit + 1) (hcircle _) hok) (Nat.not_succ_le_self _), ?_⟩
  exact (hbare (calm_of_no_host rfl) hagrees.cancelled _ hchain).2 (by decide)

end Rowwise
