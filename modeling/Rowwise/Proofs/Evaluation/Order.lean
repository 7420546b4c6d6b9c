import Rowwise.Proofs.Evaluation.Course

/-!
# Rowwise.Proofs.Evaluation.Order — each subnode runs once at most, and in order

What holds of the run of one node (`Node.InOrder`): only its subnodes run, from left to right and each once at most; after
one that fails nothing happens but that texts are closed, and the node fails as well; a node that yields a value has run all
of its subnodes, unless it is one that selects.  A choice runs its condition and the branch that the condition selects
(`Chooses`).  There is one rule for each way to build a recorded run (`Recorded.Asks`).

It holds of every run in the course of an evaluation, however deep and also within the texts of a row
(`Context.recorded_keeps`).
-/

namespace Rowwise

/-! ### Subnodes -/

namespace Node

/-- The subnodes of a node, each at its place. -/
def children : Node → List Node
  | strict _ _ args | aggregate _ _ args | host _ args => args
  | binomial n k => [n, k]
  | choose _ condition yes no => [condition, yes, no]
  | convert _ _ n | nested n | spliced n | evalText _ n | columnNamed _ n | macroNamed n | seeded n => [n]
  | macroOr name default => [name, default]
  | parameter operator name => [operator, name]
  | const _ | varying _ | column _ _ _ | refuse _ _ | now | random _ => []

/-- True for the nodes that need not run all of their subnodes. -/
def isSelective : Node → Bool
  | choose _ _ _ _ | macroOr _ _ | host _ _ => true
  | _ => false

/-- The places of the subnodes that a node runs if it yields a value. -/
def required (n : Node) : List Nat := if n.isSelective then [] else List.range n.children.length

/-- A node that may run at a place of another one: the subnode there, or, in the second place of an evaluation of a text,
the node of this text. -/
def Fits (n : Node) (place : Nat) (m : Node) : Prop :=
  n.children[place]? = some m ∨ (∃ target text, n = .evalText target text) ∧ place = 1

end Node

namespace Happening

/-- The place of a run. -/
def place? : Happening → Option Nat
  | event _ => none
  | run place _ _ _ => some place

/-- True for runs that end without a value. -/
def hasFailed : Happening → Bool
  | event _ => false
  | run _ _ _ outcome => !outcome.isOk

/-- The happening itself, or one in its course, and so on. -/
inductive Contains : Happening → Happening → Prop where
  | self {h : Happening} : Contains h h
  | inside {place : Nat} {n : Node} {course : List Happening} {outcome : Except Halt Value} {h k : Happening} :
      h ∈ course → Contains h k → Contains (run place n course outcome) k

end Happening

/-! ### The run of one node -/

open Happening in
/-- What happens in the run of a choice. -/
inductive Chooses (type : ValueType) (condition yes no : Node) : List Happening → Except Halt Value → Prop where
  | failed {course : List Happening} {halt : Halt} :
      Chooses type condition yes no [run 0 condition course (.error halt)] (.error halt)
  | yes {course course' : List Happening} {v : Value} {outcome : Except Halt Value} : v.truth? = some true →
      Chooses type condition yes no [run 0 condition course (.ok v), run 1 yes course' outcome] outcome
  | no {course course' : List Happening} {v : Value} {outcome : Except Halt Value} : v.truth? = some false →
      Chooses type condition yes no [run 0 condition course (.ok v), run 2 no course' outcome] outcome
  | neither {course : List Happening} {v : Value} : v.truth? = none →
      Chooses type condition yes no [run 0 condition course (.ok v)] (.ok (.missing type))

/-- What happens in the run of a node happens in order. -/
structure Node.InOrder (n : Node) (course : List Happening) (outcome : Except Halt Value) : Prop where
  /-- Only subnodes run, at their places. -/
  fits {place : Nat} {m : Node} {course' : List Happening} {outcome' : Except Halt Value} :
    .run place m course' outcome' ∈ course → n.Fits place m
  /-- They run from left to right, and each of them once at most. -/
  ascending : (course.filterMap Happening.place?).Pairwise (· < ·)
  /-- After one that fails, nothing happens but that texts are closed. -/
  stops : course.Pairwise fun h h' => h.hasFailed = true → h' = .event .closed
  /-- If one fails, so does the node. -/
  fails : outcome.isOk = true → ∀ h ∈ course, h.hasFailed = false
  /-- A node that does not select runs all of them, unless it fails. -/
  complete : outcome.isOk = true → ∀ place ∈ n.required, place ∈ course.filterMap Happening.place?
  /-- A choice runs what its condition selects. -/
  chooses {type : ValueType} {condition yes no : Node} : n = .choose type condition yes no →
    Chooses type condition yes no course outcome

/-- All runs that a happening contains are in order. -/
def Happening.Orderly (h : Happening) : Prop :=
  ∀ place m course outcome, h.Contains (.run place m course outcome) → m.InOrder course outcome

namespace Happening

theorem orderly_event (e : Event) : (event e).Orderly := by
  intro place m course outcome h
  cases h

theorem orderly_run {place : Nat} {n : Node} {course : List Happening} {outcome : Except Halt Value} :
    (run place n course outcome).Orderly ↔ n.InOrder course outcome ∧ ∀ k ∈ course, k.Orderly := by
  constructor
  · intro h
    exact ⟨h _ _ _ _ .self, fun k hk _ _ _ _ hcontains => h _ _ _ _ (.inside hk hcontains)⟩
  · rintro ⟨h, hcourse⟩ place' m course' outcome' hcontains
    cases hcontains with
    | self => exact h
    | inside hmem hinside => exact hcourse _ hmem _ _ _ _ hinside

end Happening

/-! ### Parts of the run of a node -/

/-- What happens in a part of the run of `n`: of the subnodes at some places only those run, in this order, and if the part
yields something, those that must. -/
structure Node.Part (n : Node) (places must : List Nat) (course : List Happening) (ok : Bool) : Prop where
  fits {place : Nat} {m : Node} {course' : List Happening} {outcome : Except Halt Value} :
    .run place m course' outcome ∈ course → n.Fits place m
  inner : ∀ h ∈ course, h.Orderly
  places : (course.filterMap Happening.place?).Sublist places
  stops : course.Pairwise fun h h' => h.hasFailed = true → h' = .event .closed
  fails : ok = true → ∀ h ∈ course, h.hasFailed = false
  complete : ok = true → ∀ place ∈ must, place ∈ course.filterMap Happening.place?

/-- The recorded run is part of the run of `n`, in every world. -/
def Recorded.Asks {α : Type} (n : Node) (places must : List Nat) (x : Recorded α) : Prop :=
  ∀ w, n.Part places must (x.course w) (x.run.exec w).1.isOk

/-- The recorded run is the run of `n`, and in order in every world. -/
def Recorded.Keeps (n : Node) (x : Recorded Value) : Prop :=
  ∀ w, n.InOrder (x.course w) (x.run.exec w).1 ∧ ∀ h ∈ x.course w, h.Orderly

namespace Recorded.Asks

variable {α β : Type} {n m : Node} {place : Nat} {ps qs must must' : List Nat} {x : Recorded α} {f : α → Recorded β}

theorem pure (v : α) : (Pure.pure v : Recorded α).Asks n [] [] := by
  intro w
  rw [course_pure]
  exact ⟨nofun, nofun, .slnil, .nil, nofun, nofun⟩

/-- Where no subnode runs, only events happen. -/
theorem lift (x : Run α) : (Recorded.lift x).Asks n [] [] := by
  intro w
  have hevent : ∀ h ∈ (Recorded.lift x).course w, ∃ e, h = .event e := by
    intro h hh
    rw [course_lift] at hh
    obtain ⟨e, -, rfl⟩ := List.mem_map.1 hh
    exact ⟨e, rfl⟩
  have hfailed : ∀ h ∈ (Recorded.lift x).course w, h.hasFailed = false := by
    intro h hh
    obtain ⟨e, rfl⟩ := hevent h hh
    rfl
  refine ⟨fun hmem => ?_, fun h hh => ?_, ?_, ?_, fun _ => hfailed, nofun⟩
  · obtain ⟨e, he⟩ := hevent _ hmem
    cases he
  · obtain ⟨e, rfl⟩ := hevent h hh
    exact Happening.orderly_event e
  · have hplaces : ((Recorded.lift x).course w).filterMap Happening.place? = [] := by
      refine List.filterMap_eq_nil_iff.2 fun h hh => ?_
      obtain ⟨e, rfl⟩ := hevent h hh
      rfl
    simp [hplaces]
  · refine List.pairwise_of_forall_mem_list fun h hh h' _ hf => ?_
    rw [hfailed h hh] at hf
    cases hf

theorem bind (hx : x.Asks n ps must) (hf : ∀ v, (f v).Asks n qs must') : (x >>= f).Asks n (ps ++ qs) (must ++ must') := by
  intro w
  have hfirst := hx w
  rw [course_bind, run_bind, Run.exec_bind]
  rcases hr : x.run.exec w with ⟨halt | v, w'⟩
  · -- what follows does not run
    rw [hr] at hfirst
    have hplaces := hfirst.places.trans (List.sublist_append_left ps qs)
    exact ⟨hfirst.fits, hfirst.inner, hplaces, hfirst.stops, nofun, nofun⟩
  · rw [hr] at hfirst
    have hrest := hf v w'
    have hnone : ∀ h ∈ x.course w, h.hasFailed = false := hfirst.fails rfl
    have hstops : (x.course w ++ (f v).course w').Pairwise fun h h' => h.hasFailed = true → h' = .event .closed := by
      refine List.pairwise_append.2 ⟨hfirst.stops, hrest.stops, fun h hh h' _ hf => ?_⟩
      rw [hnone h hh] at hf
      cases hf
    refine ⟨fun hmem => ?_, fun h hh => ?_, ?_, hstops, fun hok h hh => ?_, fun hok p hp => ?_⟩
    · exact (List.mem_append.1 hmem).elim hfirst.fits hrest.fits
    · obtain hh | hh := List.mem_append.1 hh
      · exact hfirst.inner h hh
      · exact hrest.inner h hh
    · rw [List.filterMap_append]
      exact hfirst.places.append hrest.places
    · exact (List.mem_append.1 hh).elim (hnone h) (hrest.fails hok h)
    · rw [List.filterMap_append]
      obtain hp | hp := List.mem_append.1 hp
      · exact List.mem_append_left _ (hfirst.complete rfl p hp)
      · exact List.mem_append_right _ (hrest.complete hok p hp)

theorem mono (hx : x.Asks n ps must) (hps : ps.Sublist qs) (hmust : ∀ p ∈ must', p ∈ must) : x.Asks n qs must' := by
  intro w
  have hpart := hx w
  exact ⟨hpart.fits, hpart.inner, hpart.places.trans hps, hpart.stops, hpart.fails,
    fun hok p hp => hpart.complete hok p (hmust p hp)⟩

/-- What follows may run the subnodes at some places, but need not. -/
theorem bindMay (hx : x.Asks n ps must) (qs : List Nat) (hf : ∀ v, (f v).Asks n qs []) : (x >>= f).Asks n (ps ++ qs) must :=
  (hx.bind hf).mono (.refl _) fun _ hp => List.mem_append_left _ hp

/-- The run of a subnode that is in order itself. -/
theorem part {x : Recorded Value} (hm : n.Fits place m) (hx : x.Keeps m) :
    (Recorded.part place m x).Asks n [place] [place] := by
  intro w
  rw [course_part, run_part]
  refine ⟨fun hmem => ?_, fun h hh => ?_, .refl _, List.pairwise_singleton _ _, fun hok h hh => ?_, fun _ p hp => hp⟩
  · cases List.mem_singleton.1 hmem
    exact hm
  · cases List.mem_singleton.1 hh
    exact Happening.orderly_run.2 (hx w)
  · cases List.mem_singleton.1 hh
    simp [Happening.hasFailed, hok]

theorem nested (function : String) (hx : x.Asks n ps must) : (Recorded.nested function x).Asks n ps must := by
  intro w
  have hpart := hx w
  have hok : ((x.run.exec w).1.mapError (Halt.within function)).isOk = (x.run.exec w).1.isOk := by
    cases (x.run.exec w).1 <;> rfl
  rw [course_nested, run_nested, Run.exec_nested]
  show n.Part ps must (x.course w) ((x.run.exec w).1.mapError (Halt.within function)).isOk
  rwa [hok]

/-- That a text is closed may happen after a fault. -/
theorem inText (hx : x.Asks n ps must) : (Recorded.inText x).Asks n ps must := by
  intro w
  have hpart := hx w.opening
  rw [course_inText, run_inText, Run.exec_inText]
  have hplaces : (Happening.event .opened :: (x.course w.opening ++ [.event .closed])).filterMap Happening.place? =
      (x.course w.opening).filterMap Happening.place? := by
    rw [List.filterMap_cons_none rfl, List.filterMap_append, List.filterMap_cons_none rfl]
    exact List.append_nil _
  have hmem : ∀ {h}, h ∈ Happening.event .opened :: (x.course w.opening ++ [.event .closed]) →
      h ∈ x.course w.opening ∨ ∃ e, h = .event e := by
    intro h hh
    simp only [List.mem_cons, List.mem_append, List.not_mem_nil, or_false] at hh
    obtain rfl | hh | rfl := hh
    · exact Or.inr ⟨_, rfl⟩
    · exact Or.inl hh
    · exact Or.inr ⟨_, rfl⟩
  refine ⟨fun hh => ?_, fun h hh => ?_, ?_, ?_, fun hok h hh => ?_, ?_⟩
  · obtain hh | ⟨e, he⟩ := hmem hh
    · exact hpart.fits hh
    · cases he
  · obtain hh | ⟨e, rfl⟩ := hmem hh
    · exact hpart.inner h hh
    · exact Happening.orderly_event e
  · rw [hplaces]
    exact hpart.places
  · refine List.pairwise_cons.2 ⟨fun h _ => nofun, ?_⟩
    refine List.pairwise_append.2 ⟨hpart.stops, List.pairwise_singleton _ _, fun h _ h' hh' _ => ?_⟩
    exact List.mem_singleton.1 hh'
  · obtain hh | ⟨e, rfl⟩ := hmem hh
    · exact hpart.fails hok h hh
    · rfl
  · rw [hplaces]
    exact hpart.complete

/-- A run that asks for what a node requires is in order; that a choice runs the right branch is shown apart. -/
theorem keeps {x : Recorded Value} (hx : x.Asks n ps must) (hps : ps.Pairwise (· < ·))
    (hmust : ∀ p ∈ n.required, p ∈ must)
    (hchooses : ∀ {type condition yes no}, n = .choose type condition yes no →
      ∀ w, Chooses type condition yes no (x.course w) (x.run.exec w).1) : x.Keeps n := by
  intro w
  have hpart := hx w
  exact ⟨⟨hpart.fits, hps.sublist hpart.places, hpart.stops, hpart.fails,
    fun hok p hp => hpart.complete hok p (hmust p hp), fun hn => hchooses hn w⟩, hpart.inner⟩

end Recorded.Asks

/-! ### The run of every node -/

namespace Node

open Recorded

variable {c : Context} {text : ValueType → String → Recorded Value}

theorem chooses_recorded (type : ValueType) (condition yes no : Node) (w : World) :
    Chooses type condition yes no (((choose type condition yes no).recorded c text).course w)
      (((choose type condition yes no).recorded c text).run.exec w).1 := by
  rw [recorded, course_bind, run_bind, run_part, Run.exec_bind, course_part]
  rcases hr : (condition.recorded c text).run.exec w with ⟨halt | v, w'⟩
  · exact .failed
  · simp only []
    rcases hv : v.truth? with _ | _ | _
    · exact .neither hv
    · exact .no hv
    · exact .yes hv

mutual

/-- The run of a node is in order, if the texts of the row run as the second subnode of the nodes that evaluate them. -/
theorem recorded_keeps (htext : ∀ target m s, (text target s).Asks (.evalText target m) [1] []) :
    ∀ n : Node, (n.recorded c text).Keeps n
  | const v => by
    rw [recorded]
    exact (Asks.pure v).keeps .nil nofun nofun
  | varying _ | column _ _ _ | refuse _ _ | now | random _ => by
    rw [recorded]
    exact (Asks.lift _).keeps .nil nofun nofun
  | strict f type args => by
    rw [recorded]
    have hargs := recordedAll_asks htext (n := .strict f type args) (.pure ()) args 0 (by simp [Fits, children])
    exact (hargs.bind fun _ => .lift _).keeps (by simp [List.pairwise_lt_range'])
      (by simp [required, isSelective, children, List.range_eq_range']) nofun
  | aggregate f type args => by
    rw [recorded]
    have hargs := recordedAll_asks htext (n := .aggregate f type args) (.lift c.poll) args 0
      (by simp [Fits, children])
    exact (hargs.bind fun _ => .pure _).keeps (by simp [List.pairwise_lt_range'])
      (by simp [required, isSelective, children, List.range_eq_range']) nofun
  | binomial n k => by
    rw [recorded]
    have hfirst : (part 0 n (n.recorded c text)).Asks (.binomial n k) [0] [0] :=
      .part (.inl rfl) (recorded_keeps htext n)
    have hsecond : (part 1 k (k.recorded c text)).Asks (.binomial n k) [1] [1] :=
      .part (.inl rfl) (recorded_keeps htext k)
    exact (hfirst.bind fun _ => hsecond.bind fun _ => .lift _).keeps (by decide) (fun _ h => h) nofun
  | choose type condition yes no => by
    have hcondition : (part 0 condition (condition.recorded c text)).Asks (.choose type condition yes no) [0] [0] :=
      .part (.inl rfl) (recorded_keeps htext condition)
    have hyes : (part 1 yes (yes.recorded c text)).Asks (.choose type condition yes no) [1] [1] :=
      .part (.inl rfl) (recorded_keeps htext yes)
    have hno : (part 2 no (no.recorded c text)).Asks (.choose type condition yes no) [2] [2] :=
      .part (.inl rfl) (recorded_keeps htext no)
    have hasks : ((choose type condition yes no).recorded c text).Asks (.choose type condition yes no) [0, 1, 2] [0] := by
      rw [recorded]
      refine hcondition.bindMay [1, 2] fun v => ?_
      rcases v.truth? with _ | _ | _
      · exact (Asks.pure _).mono (List.nil_sublist _) nofun
      · exact hno.mono (by simp) nofun
      · exact hyes.mono (by simp) nofun
    refine hasks.keeps (by decide) nofun fun h w => ?_
    cases h
    exact chooses_recorded type condition yes no w
  | convert function target n => by
    rw [recorded]
    have hinner : (part 0 n (n.recorded c text)).Asks (.convert function target n) [0] [0] :=
      .part (.inl rfl) (recorded_keeps htext n)
    exact (hinner.bind fun _ => .lift _).keeps (by decide) (fun _ h => h) nofun
  | .nested n => by
    rw [recorded]
    have hinner : (part 0 n (n.recorded c text)).Asks (.nested n) [0] [0] := .part (.inl rfl) (recorded_keeps htext n)
    exact (hinner.inText.nested _).keeps (by decide) (fun _ h => h) nofun
  | spliced n => by
    rw [recorded]
    have hinner : (part 0 n (n.recorded c text)).Asks (.spliced n) [0] [0] := .part (.inl rfl) (recorded_keeps htext n)
    exact hinner.inText.keeps (by decide) (fun _ h => h) nofun
  | evalText target n => by
    rw [recorded]
    have hinner : (part 0 n (n.recorded c text)).Asks (.evalText target n) [0] [0] :=
      .part (.inl rfl) (recorded_keeps htext n)
    refine (hinner.bindMay [1] fun v => ?_).keeps (by decide) (fun _ h => h) nofun
    cases v.text? with
    | none => exact (Asks.pure _).mono (List.nil_sublist _) nofun
    | some s => exact htext target n s
  | columnNamed target name => by
    rw [recorded]
    have hinner : (part 0 name (name.recorded c text)).Asks (.columnNamed target name) [0] [0] :=
      .part (.inl rfl) (recorded_keeps htext name)
    refine (hinner.bindMay [] fun v => ?_).keeps (by decide) (fun _ h => h) nofun
    cases v.text? with
    | none => exact .pure _
    | some s => exact .lift _
  | macroNamed name => by
    rw [recorded]
    have hinner : (part 0 name (name.recorded c text)).Asks (.macroNamed name) [0] [0] :=
      .part (.inl rfl) (recorded_keeps htext name)
    refine (hinner.bindMay [] fun v => ?_).keeps (by decide) (fun _ h => h) nofun
    cases v.text? with
    | none => exact .pure _
    | some s => exact .lift _
  | macroOr name default => by
    rw [recorded]
    have hname : (part 0 name (name.recorded c text)).Asks (.macroOr name default) [0] [0] :=
      .part (.inl rfl) (recorded_keeps htext name)
    have hdefault : (part 1 default (default.recorded c text)).Asks (.macroOr name default) [1] [1] :=
      .part (.inl rfl) (recorded_keeps htext default)
    refine (hname.bindMay [1] fun v => ?_).keeps (by decide) nofun nofun
    cases v.text? with
    | none => exact (Asks.pure _).mono (List.nil_sublist _) nofun
    | some s =>
      refine (Asks.lift _).bindMay [1] fun found => ?_
      rcases found with _ | _ | _
      · exact hdefault.mono (.refl _) nofun
      · exact hdefault.mono (.refl _) nofun
      · exact (Asks.pure _).mono (List.nil_sublist _) nofun
  | seeded seed => by
    rw [recorded]
    have hinner : (part 0 seed (seed.recorded c text)).Asks (.seeded seed) [0] [0] :=
      .part (.inl rfl) (recorded_keeps htext seed)
    exact (hinner.bind fun _ => .pure _).keeps (by decide) (fun _ h => h) nofun
  | parameter operator name => by
    rw [recorded]
    have hfirst : (part 0 operator (operator.recorded c text)).Asks (.parameter operator name) [0] [0] :=
      .part (.inl rfl) (recorded_keeps htext operator)
    have hsecond : (part 1 name (name.recorded c text)).Asks (.parameter operator name) [1] [1] :=
      .part (.inl rfl) (recorded_keeps htext name)
    exact (hfirst.bind fun _ => hsecond.bind fun _ => .lift _).keeps (by decide) (fun _ h => h) nofun
  | host f args => by
    rw [recorded]
    refine ((Asks.lift _).bindMay [0] fun _ => ?_).keeps (by decide) nofun nofun
    cases f.action with
    | probe =>
      exact ((Asks.lift _).bind fun _ => (recordedFirst_asks htext f args _ _).bind fun _ => .pure _)
    | relay type => exact (recordedFirst_asks htext f args _ _).bind fun _ => .pure _
    | yields | fails | row => exact (Asks.lift _).mono (List.nil_sublist _) nofun

theorem recordedAll_asks {n : Node} (htext : ∀ target m s, (text target s).Asks (.evalText target m) [1] [])
    {before : Recorded Unit} (hbefore : before.Asks n [] []) : ∀ (ms : List Node) (place : Nat),
      (∀ i m, ms[i]? = some m → n.Fits (place + i) m) →
        (recordedAll c text before place ms).Asks n (List.range' place ms.length) (List.range' place ms.length)
  | [], place, _ => by
    rw [recordedAll]
    exact .pure _
  | m :: ms, place, hfits => by
    rw [recordedAll]
    have hone := Asks.part (hfits 0 m rfl) (recorded_keeps htext m)
    have hfits' : ∀ i k, ms[i]? = some k → n.Fits (place + 1 + i) k := by
      intro i k hk
      have hk := hfits (i + 1) k hk
      rwa [show place + (i + 1) = place + 1 + i by omega] at hk
    have hrest := recordedAll_asks htext hbefore ms (place + 1) hfits'
    have hall := hbefore.bind fun _ => hone.bind fun v => hrest.bind fun vs => .pure (v :: vs)
    simpa [List.range'_succ] using hall

theorem recordedFirst_asks (htext : ∀ target m s, (text target s).Asks (.evalText target m) [1] []) (f : HostFunction)
    (args : List Node) (function : String) (storage : Storage) :
    (recordedFirst c text function storage args).Asks (.host f args) [0] [] := by
  cases args with
  | nil =>
    rw [recordedFirst]
    exact (Asks.lift _).mono (List.nil_sublist _) nofun
  | cons m ms =>
    rw [recordedFirst]
    have hfirst : (part 0 m (m.recorded c text)).Asks (.host f (m :: ms)) [0] [0] :=
      .part (.inl rfl) (recorded_keeps htext m)
    split
    · exact hfirst.mono (.refl _) nofun
    · exact (Asks.lift _).mono (List.nil_sublist _) nofun

end

end Node

/-! ### Texts of a row -/

/-- The run of a node is in order, also within the texts of a row. -/
theorem Context.recorded_keeps (c : Context) (fuel : Nat) (n : Node) : (c.recorded fuel n).Keeps n := by
  induction fuel generalizing n with
  | zero =>
    rw [recorded]
    exact Node.recorded_keeps (fun _ _ _ => (Recorded.Asks.lift _).mono (List.nil_sublist _) nofun) n
  | succ fuel ih =>
    rw [recorded]
    refine Node.recorded_keeps (fun target m s => ?_) n
    refine (Recorded.Asks.lift _).bindMay [1] fun inner => ?_
    have hinner : (Recorded.part 1 inner (c.recorded fuel inner)).Asks (.evalText target m) [1] [1] :=
      .part (.inr ⟨⟨target, m, rfl⟩, rfl⟩) (ih inner)
    exact ((hinner.inText.nested _).bind fun _ => .lift _).mono (.refl _) nofun

end Rowwise
