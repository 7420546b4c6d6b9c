import Rowwise.Proofs.Constancy.Results
import Rowwise.Proofs.Evaluation.Carrying

/-!
# Rowwise.Proofs.Texts.Alike — runs that end alike in worlds that are alike

Worlds are alike if they differ in what has been asked and has happened alone (`World.Alike`).  Nothing that reading and
evaluation yield depends on that, as long as the host does not cancel: one run follows another if, in worlds that are alike,
it ends with the same outcome in a world that is alike again (`Run.Follows`).  A run with a smaller budget of texts may
instead end with a halt that is excused.
-/

namespace Rowwise

/-! ### Worlds that are alike -/

/-- What depends on a world, but not on how often the host has been asked and on what has happened. -/
def World.IsView {β : Type} (view : World → β) : Prop :=
  ∀ (w : World) (polls : Nat) (events : List Event), view { w with polls := polls, events := events } = view w

/-- The worlds differ at most in how often the host has been asked and in what has happened.  The job is not cancelled. -/
structure World.Alike (w w' : World) : Prop where
  uncancelled : w.cancelled = false
  same : ∃ polls events, w' = { w with polls := polls, events := events }

namespace World.Alike

variable {u w w' : World}

theorem refl (h : w.cancelled = false) : w.Alike w := ⟨h, w.polls, w.events, rfl⟩

theorem symm (h : w.Alike w') : w'.Alike w := by
  obtain ⟨huncancelled, polls, events, rfl⟩ := h
  exact ⟨huncancelled, w.polls, w.events, rfl⟩

theorem trans (h : u.Alike w) (h' : w.Alike w') : u.Alike w' := by
  obtain ⟨huncancelled, polls, events, rfl⟩ := h
  obtain ⟨-, polls', events', rfl⟩ := h'
  exact ⟨huncancelled, polls', events', rfl⟩

/-- Whatever happens in the second world, the first is still like it. -/
theorem later (h : w.Alike w') (polls : Nat) (events : List Event) :
    w.Alike { w' with polls := polls, events := events } :=
  h.trans ⟨by obtain ⟨huncancelled, _, _, rfl⟩ := h; exact huncancelled, polls, events, rfl⟩

theorem view_eq {β : Type} {view : World → β} (h : w.Alike w') (hview : World.IsView view) : view w' = view w := by
  obtain ⟨-, polls, events, rfl⟩ := h
  exact hview w polls events

/-- Whatever happens in the two worlds, they stay alike. -/
theorem both_later (h : w.Alike w') (polls polls' : Nat) (events events' : List Event) :
    World.Alike { w with polls := polls, events := events } { w' with polls := polls', events := events' } :=
  ((h.symm.later polls events).symm).later polls' events'

theorem afterRead (h : w.Alike w') (source : Nat) (name : String) (storage : Storage) :
    (Run.afterRead source name storage w).Alike (Run.afterRead source name storage w') := by
  obtain ⟨huncancelled, polls, events, rfl⟩ := h
  cases hs : w.sources[source]? <;>
  · simp only [Run.afterRead, hs]
    exact ⟨huncancelled, _, _, rfl⟩

end World.Alike

namespace Run

/-! ### Runs that follow one another -/

/-- Two runs have ended with one outcome, a result with the property or a halt other than a cancellation, in worlds that are
alike. -/
structure EndAlike {α : Type} (Q : α → Prop) (r r' : Except Halt α × World) : Prop where
  outcome : r.1 = r'.1
  worlds : r.2.Alike r'.2
  result : Outcome (· ≠ .fault .aborted) Q r.1

/-- In worlds that are alike the runs end alike, or the second one with a halt that is excused. -/
def Follows (excused : Halt → Prop) {α : Type} (x y : Run α) (Q : α → Prop) : Prop :=
  ∀ w w' : World, w.Alike w' → (∃ h, (y.exec w').1 = .error h ∧ excused h) ∨ EndAlike Q (x.exec w) (y.exec w')

namespace Follows

variable {α β : Type} {excused : Halt → Prop} {x y : Run α} {f g : α → Run β} {P Q : α → Prop} {R : β → Prop}

/-- Without an excuse the runs end alike. -/
theorem endAlike (h : Follows (fun _ => False) x y Q) {w w' : World} (hw : w.Alike w') :
    EndAlike Q (x.exec w) (y.exec w') := by
  rcases h w w' hw with ⟨_, -, hfalse⟩ | hends
  · exact hfalse.elim
  · exact hends

theorem pure {a : α} (h : Q a) : Follows excused (Pure.pure a) (Pure.pure a) Q := fun _ _ hw => Or.inr ⟨rfl, hw, h⟩

theorem throw {h : Halt} (hh : h ≠ .fault .aborted) : Follows excused (throw h : Run α) (throw h) Q :=
  fun _ _ hw => Or.inr ⟨rfl, hw, hh⟩

theorem fail {f : Fault} (hf : f ≠ .aborted) : Follows excused (Run.fail f : Run α) (Run.fail f) Q :=
  throw fun h => hf (Halt.fault.inj h)

theorem bind (hx : Follows excused x y P) (hf : ∀ a, P a → Follows excused (f a) (g a) R) :
    Follows excused (x >>= f) (y >>= g) R := by
  intro w w' hw
  rw [exec_bind, exec_bind]
  rcases hx w w' hw with ⟨h, hy, hexcused⟩ | ⟨houtcome, hworlds, hresult⟩
  · rcases hry : exec y w' with ⟨h' | b, v'⟩
    · rw [hry] at hy
      cases hy
      exact Or.inl ⟨h, rfl, hexcused⟩
    · rw [hry] at hy
      cases hy
  · rcases hrx : exec x w with ⟨h | a, v⟩
    · rcases hry : exec y w' with ⟨h' | b, v'⟩
      · rw [hrx, hry] at houtcome hworlds
        rw [hrx] at hresult
        cases houtcome
        exact Or.inr ⟨rfl, hworlds, hresult⟩
      · rw [hrx, hry] at houtcome
        cases houtcome
    · rcases hry : exec y w' with ⟨h' | b, v'⟩
      · rw [hrx, hry] at houtcome
        cases houtcome
      · rw [hrx, hry] at houtcome hworlds
        rw [hrx] at hresult
        cases houtcome
        exact hf a hresult v v' hworlds

theorem mono (hx : Follows excused x y P) (h : ∀ a, P a → Q a) : Follows excused x y Q := by
  intro w w' hw
  exact (hx w w' hw).imp id fun hends => ⟨hends.outcome, hends.worlds, hends.result.imp (fun _ => id) h⟩

/-- What follows a run follows all that the run follows without an excuse. -/
theorem trans {z : Run α} (hx : Follows (fun _ => False) x y P) (hy : Follows excused y z Q) : Follows excused x z Q := by
  intro w w' hw
  have hends := hx.endAlike (.refl hw.uncancelled)
  refine (hy w w' hw).imp id fun hends' => ⟨hends.outcome.trans hends'.outcome, hends.worlds.trans hends'.worlds, ?_⟩
  rw [hends.outcome]
  exact hends'.result

theorem nested (hexcused : ∀ h function, excused h → excused (h.within function)) (function : String)
    (hx : Follows excused x y Q) : Follows excused (Run.nested function x) (Run.nested function y) Q := by
  intro w w' hw
  rw [exec_nested, exec_nested]
  rcases hx w w' hw with ⟨h, hy, hh⟩ | ⟨houtcome, hworlds, hresult⟩
  · exact Or.inl ⟨h.within function, by simp only [hy, Except.mapError], hexcused h function hh⟩
  · refine Or.inr ⟨by simp only [houtcome], hworlds, hresult.mapError fun halt hhalt hwithin => hhalt ?_⟩
    cases halt with
    | exhausted => cases hwithin
    | fault f => cases f <;> first | rfl | cases hwithin

theorem look {f g : World → Run α} (hg : World.IsView g) (h : ∀ w, Follows excused (f w) (g w) Q) :
    Follows excused (world >>= f) (world >>= g) Q := by
  intro w w' hw
  have hy : exec (world >>= g) w' = exec (g w) w' := by
    rw [exec_bind, exec_world]
    exact congrArg (exec · w') (hw.view_eq hg)
  rw [hy]
  exact h w w w' hw

theorem note (e : Event) : Follows excused (Run.note e) (Run.note e) fun _ => True :=
  fun _ _ hw => Or.inr ⟨rfl, hw.both_later _ _ _ _, trivial⟩

theorem poll {c : Context} (hc : c.Calm) : Follows excused c.poll c.poll fun _ => True := by
  intro w w' hw
  obtain ⟨polls, events, hexec⟩ := exec_poll_calm hc hw.uncancelled
  obtain ⟨polls', events', hexec'⟩ := exec_poll_calm hc hw.symm.uncancelled
  rw [hexec, hexec']
  exact Or.inr ⟨rfl, hw.both_later _ _ _ _, trivial⟩

theorem inText (hx : Follows excused x y Q) : Follows excused (Run.inText x) (Run.inText y) Q := by
  intro w w' hw
  rw [exec_inText, exec_inText]
  exact (hx _ _ (hw.both_later _ _ _ _)).imp id fun hends => ⟨hends.outcome, hends.worlds.both_later _ _ _ _, hends.result⟩

/-- A run follows one that is not in a text. -/
theorem inText_right (hx : Follows excused x y Q) : Follows excused x (Run.inText y) Q := by
  intro w w' hw
  rw [exec_inText]
  exact (hx _ _ (hw.later _ _)).imp id fun hends => ⟨hends.outcome, hends.worlds.later _ _, hends.result⟩

theorem poll_right {c : Context} (hc : c.Calm) (hx : Follows excused x y Q) :
    Follows excused x (c.poll >>= fun _ => y) Q := by
  intro w w' hw
  obtain ⟨polls, events, hexec⟩ := exec_poll_calm hc hw.symm.uncancelled
  rw [exec_bind, hexec]
  exact hx _ _ (hw.later polls events)

theorem readColumn (source : Nat) (name : String) (storage : Storage) :
    Follows excused (Run.readColumn source name storage) (Run.readColumn source name storage) fun _ => True := by
  intro w w' hw
  rw [exec_readColumn, exec_readColumn]
  have hview : World.IsView fun w => w.cell source name storage := fun _ _ _ => rfl
  have hcell : w'.cell source name storage = w.cell source name storage := hw.view_eq hview
  refine Or.inr ⟨by rw [hcell], hw.afterRead source name storage, ?_⟩
  cases w.cell source name storage with
  | ok v => trivial
  | error d => nofun

theorem typed (function : String) (r : Except TypeCause α) :
    Follows excused (Run.typed function r) (Run.typed function r) fun _ => True := by
  cases r with
  | ok a => exact pure trivial
  | error cause => exact fail nofun

theorem columnValue {c : Context} (target : ValueType) (name : String) :
    Follows excused (columnValue c target name) (columnValue c target name) fun _ => True := by
  refine look (fun _ _ _ => rfl) fun w => ?_
  split
  · exact fail nofun
  · exact bind (readColumn _ _ _) fun v _ => typed _ _

theorem scope? (name : String) : Follows excused (Run.scope? name) (Run.scope? name) fun _ => True :=
  look (fun _ _ _ => rfl) fun _ => pure trivial

theorem currentRow : Follows excused currentRow currentRow fun _ => True := look (fun _ _ _ => rfl) fun _ => pure trivial

theorem currentTime : Follows excused currentTime currentTime fun _ => True :=
  (note .timed).bind fun _ _ => look (fun _ _ _ => rfl) fun _ => pure trivial

theorem streams (change : Array (Nat × Nat) → Array (Nat × Nat)) :
    Follows excused (alter fun w => { w with streams := change w.streams })
      (alter fun w => { w with streams := change w.streams }) fun _ => True := by
  rintro w w' ⟨huncancelled, polls, events, rfl⟩
  exact Or.inr ⟨rfl, ⟨huncancelled, polls, events, rfl⟩, trivial⟩

theorem newStream (seed : Nat) : Follows excused (Node.newStream seed) (Node.newStream seed) fun _ => True := by
  refine (note .drawn).bind fun _ _ => look (fun _ _ _ => rfl) fun w => ?_
  exact (streams fun streams => streams.push _).bind fun _ _ => pure trivial

theorem nextRandom (stream : Nat) : Follows excused (nextRandom stream) (nextRandom stream) fun _ => True := by
  refine (note .drawn).bind fun _ _ => look (fun _ _ _ => rfl) fun w => ?_
  exact (streams fun streams => streams.setIfInBounds stream _).bind fun _ _ => pure trivial

/-! ### Building and evaluating -/

section Program

variable {c : Context} (hexcused : ∀ h function, excused h → excused (h.within function)) (hcalm : c.Calm)

include hexcused

theorem relates : Run.Relates (Follows excused) where
  pure := pure
  fail hf := fail (Fault.ne_aborted_of_aborts (Fault.aborts_of_ordinary hf))
  bind := bind
  mono := mono
  within function hx := hx.nested hexcused function
  scope? := scope?
  newStream := newStream

include hcalm

theorem evaluates : c.Evaluates (fun _ => True) fun _ {_} x y => Follows excused x y fun _ => True where
  pure _ := pure trivial
  fail hf := fail (Fault.ne_aborted_of_aborts hf)
  bind hx hf := hx.bind fun a _ => hf a
  poll := poll hcalm
  step _ := note _
  supplied _ := note _
  random _ := nextRandom _
  time _ := currentTime
  row _ _ := currentRow
  scope? name _ _ := scope? name
  column _ := readColumn _ _ _
  columnValue name _ := columnValue _ name
  inText := inText
  evalText hx := hx.inText.nested hexcused _
  mono hx _ := hx

theorem carries : c.Carries (fun _ => True) (Follows excused) where
  toRelates := relates hexcused
  evaluates := evaluates hexcused hcalm
  columnOf? _ := look (fun _ _ _ => rfl) fun _ => pure trivial
  built _ _ := note _
  exhausted := throw nofun

/-- A text is read alike with a smaller budget, unless the smaller budget is exceeded. -/
theorem readNested_follows {budget budget' : Nat} (hle : budget' ≤ budget)
    (hlimit : budget' ≠ budget → excused (.fault (.value Builtin.eval.name (.nestedTooDeep c.options.textLimit))))
    (s : String) : Follows excused (c.readNested budget s) (c.readNested budget' s) fun _ => True := by
  induction budget' generalizing budget s with
  | zero =>
    cases budget with
    | zero => exact (poll hcalm).bind fun _ _ => fail nofun
    | succ budget =>
      intro w w' hw
      obtain ⟨polls, events, hexec⟩ := exec_poll_calm hcalm hw.symm.uncancelled
      refine Or.inl ⟨_, ?_, hlimit nofun⟩
      rw [Context.readNested, exec_bind, hexec]
      rfl
  | succ budget' ih =>
    obtain ⟨budget, rfl⟩ := Nat.exists_eq_add_of_le' (Nat.lt_of_lt_of_le (Nat.succ_pos _) hle)
    have hread := ih (Nat.le_of_succ_le_succ hle) fun hne => hlimit fun heq => hne (Nat.succ.inj heq)
    exact (poll hcalm).bind fun _ _ => (((carries hexcused hcalm).builds hread).readWith_related s).inText

end Program

end Follows

end Run

end Rowwise
