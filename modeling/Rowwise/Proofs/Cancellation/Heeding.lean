import Rowwise.Proofs.Evaluation.Carrying
import Rowwise.Proofs.Evaluation.Columns

/-!
# Rowwise.Proofs.Cancellation.Heeding — a cancellation ends a run at once and is never hidden

The host is asked in many places whether the job is cancelled.  Once it says so, the run ends: all that still happens is that
open texts are closed, and the halt that comes out is the cancellation itself, whatever texts and functions it passes through.
No run ends aborted otherwise (`Context.cancellation_heeded`).
-/

namespace Rowwise

/-- True for cancellations, also inside nested expressions. -/
def Halt.aborts : Halt → Bool
  | fault f => f.aborts
  | exhausted => false

theorem Halt.aborts_within {h : Halt} (hh : h.aborts = false) (function : String) : (h.within function).aborts = false := by
  cases h with
  | fault f => cases f <;> exact hh
  | exhausted => rfl

namespace World

/-- Between the two worlds the host has not said that the job is cancelled. -/
def Untold (w w' : World) : Prop := ∃ es, w'.events = es ++ w.events ∧ .poll true ∉ es

/-- Between the two worlds the host has said that the job is cancelled, and after that texts were closed and nothing else
happened. -/
def Told (w w' : World) : Prop :=
  ∃ v closes, w.Untold v ∧ w'.events = closes ++ .poll true :: v.events ∧ ∀ e ∈ closes, e = .closed

variable {u w w' : World}

theorem Untold.of_same (h : w'.events = w.events) : w.Untold w' := ⟨[], h, List.not_mem_nil⟩

theorem Untold.refl (w : World) : w.Untold w := .of_same rfl

theorem Untold.of_event {e : Event} (he : e ≠ .poll true) (h : w'.events = e :: w.events) : w.Untold w' :=
  ⟨[e], h, by simpa using he.symm⟩

theorem Untold.trans (h : u.Untold w) (h' : w.Untold w') : u.Untold w' := by
  obtain ⟨es, hes, hnot⟩ := h
  obtain ⟨fs, hfs, hnot'⟩ := h'
  exact ⟨fs ++ es, by rw [hfs, hes, List.append_assoc], by simp [hnot, hnot']⟩

theorem Untold.told (h : u.Untold w) (h' : w.Told w') : u.Told w' := by
  obtain ⟨v, closes, hv, hevents, hcloses⟩ := h'
  exact ⟨v, closes, h.trans hv, hevents, hcloses⟩

theorem Told.closing (h : w.Told w') : w.Told w'.closing := by
  obtain ⟨v, closes, hv, hevents, hcloses⟩ := h
  exact ⟨v, .closed :: closes, hv, congrArg (Event.closed :: ·) hevents, by simpa using hcloses⟩

end World

namespace Run

/-! ### Runs that heed the host -/

/-- What came of a run from the world `w`: the host has not said that the job is cancelled, and no cancellation shows; or it
has said so, and the run has ended aborted. -/
inductive Heeded {α : Type} (Q : α → Prop) (w : World) (r : Except Halt α × World) : Prop where
  | untold : w.Untold r.2 → Outcome (·.aborts = false) Q r.1 → Heeded Q w r
  | told : w.Told r.2 → r.1 = .error (.fault .aborted) → Heeded Q w r

/-- From every world the run heeds the host, and its results have the property. -/
def Heeds {α : Type} (x : Run α) (Q : α → Prop) : Prop := ∀ w, Heeded Q w (x.exec w)

namespace Heeds

variable {α β : Type} {x : Run α} {f : α → Run β} {P Q : α → Prop} {R : β → Prop}

theorem pure {a : α} (h : Q a) : Heeds (Pure.pure a) Q := fun w => .untold (.refl w) h

theorem throw {h : Halt} (hh : h.aborts = false) : Heeds (throw h) Q := fun w => .untold (.refl w) hh

theorem fail {f : Fault} (hf : f.aborts = false) : Heeds (Run.fail f) Q := throw hf

theorem look {f : World → Run β} (hf : ∀ w, Heeds (f w) R) : Heeds (world >>= f) R := fun w => hf w w

theorem note {e : Event} (he : e ≠ .poll true) : Heeds (Run.note e) fun _ => True :=
  fun _ => .untold (.of_event he rfl) trivial

theorem streams (change : Array (Nat × Nat) → Array (Nat × Nat)) :
    Heeds (alter fun w => { w with streams := change w.streams }) fun _ => True :=
  fun _ => .untold (.of_same rfl) trivial

/-- What has been told in the first part ends the run, and what is told in the second part is told after the first. -/
theorem bind (hx : Heeds x P) (hf : ∀ a, P a → Heeds (f a) R) : Heeds (x >>= f) R := by
  intro w
  have hfirst := hx w
  rw [exec_bind]
  rcases hr : exec x w with ⟨h | a, v⟩
  · rw [hr] at hfirst
    cases hfirst with
    | untold huntold houtcome => exact .untold huntold houtcome
    | told htold haborted => exact .told htold (by cases haborted; rfl)
  · rw [hr] at hfirst
    cases hfirst with
    | untold huntold hresult =>
      cases hf a hresult v with
      | untold huntold' houtcome => exact .untold (huntold.trans huntold') houtcome
      | told htold haborted => exact .told (huntold.told htold) haborted
    | told _ haborted => cases haborted

theorem mono (hx : Heeds x P) (h : ∀ a, P a → Q a) : Heeds x Q := by
  intro w
  cases hx w with
  | told htold haborted => exact .told htold haborted
  | untold huntold houtcome => exact .untold huntold (houtcome.imp (fun _ => id) h)

/-- A cancellation passes through nested expressions as it is. -/
theorem nested (hx : Heeds x Q) (function : String) : Heeds (Run.nested function x) Q := by
  intro w
  rw [exec_nested]
  cases hx w with
  | told htold haborted => exact .told htold (by rw [haborted]; rfl)
  | untold huntold houtcome =>
    exact .untold huntold (houtcome.mapError fun _ hh => Halt.aborts_within hh function)

/-- A text is closed also after the host has cancelled. -/
theorem inText (hx : Heeds x Q) : Heeds (Run.inText x) Q := by
  intro w
  have hopening : w.Untold w.opening := .of_event (e := .opened) nofun rfl
  rw [exec_inText]
  cases hx w.opening with
  | told htold haborted => exact .told (hopening.told htold).closing haborted
  | untold huntold houtcome =>
    exact .untold (hopening.trans (huntold.trans (.of_event (e := .closed) nofun rfl))) houtcome

theorem poll (c : Context) : Heeds c.poll fun _ => True := by
  intro w
  cases hc : c.host with
  | none =>
    have hnone : c.poll = Pure.pure () := by rw [Context.poll, hc]
    rw [hnone]
    exact .untold (.refl w) trivial
  | some host =>
    rw [exec_poll hc]
    cases w.cancelled || host.cancels (w.polls + 1) with
    | false => exact .untold (.of_event (e := .poll false) (by simp) rfl) trivial
    | true => exact .told ⟨w, [], .refl w, rfl, by simp⟩ rfl

theorem scope? (name : String) : Heeds (Run.scope? name) fun _ => True := look fun _ => pure trivial

theorem currentRow : Heeds currentRow fun _ => True := look fun _ => pure trivial

theorem currentTime : Heeds currentTime fun _ => True :=
  (note (e := .timed) nofun).bind fun _ _ => look fun _ => pure trivial

theorem nextRandom (stream : Nat) : Heeds (nextRandom stream) fun _ => True := by
  refine (note (e := .drawn) nofun).bind fun _ _ => look fun w => ?_
  exact (streams fun streams => streams.setIfInBounds stream _).bind fun _ _ => pure trivial

theorem newStream (seed : Nat) : Heeds (Node.newStream seed) fun _ => True := by
  refine (note (e := .drawn) nofun).bind fun _ _ => look fun w => ?_
  exact (streams fun streams => streams.push _).bind fun _ _ => pure trivial

theorem readColumn (source : Nat) (name : String) (storage : Storage) :
    Heeds (Run.readColumn source name storage) fun _ => True := by
  intro w
  rw [exec_readColumn]
  refine .untold (.of_event (e := .read source name storage w.row) nofun (events_afterRead source name storage w)) ?_
  cases w.cell source name storage with
  | ok v => trivial
  | error d => rfl

theorem columnValue (c : Context) (target : ValueType) (name : String) : Heeds (columnValue c target name) fun _ => True := by
  refine look fun w => ?_
  split
  · exact fail rfl
  · refine (readColumn _ _ _).bind fun v _ => ?_
    unfold Run.typed
    cases v.cast c.options.zone target with
    | ok u => exact pure trivial
    | error cause => exact fail rfl

/-! ### Reading and evaluating -/

theorem relates : Run.Relates fun x _ Q => Heeds x Q where
  pure := pure
  fail hf := fail (Fault.aborts_of_ordinary hf)
  bind := bind
  mono := mono
  within function hx := hx.nested function
  scope? := scope?
  newStream := newStream

theorem evaluates (c : Context) : c.Evaluates (fun _ => True) fun _ {_} x _ => Heeds x fun _ => True where
  pure _ := pure trivial
  fail := fail
  bind hx hf := hx.bind fun a _ => hf a
  poll := poll c
  step he := note (by rintro rfl; cases he)
  supplied _ := note nofun
  random _ := nextRandom _
  time _ := currentTime
  row _ _ := currentRow
  scope? name _ _ := scope? name
  column _ := readColumn _ _ _
  columnValue name _ := columnValue c _ name
  inText := inText
  evalText hx := hx.inText.nested _
  mono hx _ := hx

theorem carries (c : Context) : c.Carries (fun _ => True) fun x _ Q => Heeds x Q where
  toRelates := relates
  evaluates := evaluates c
  columnOf? _ := look fun _ => pure trivial
  built _ _ := note nofun
  exhausted := throw rfl

end Heeds

end Run

/-! ### What a host sees -/

/-- The run ended aborted just if the host said that the job is cancelled, after which texts were closed and nothing else
happened; and no fault that came out hides a cancellation. -/
def Run.Announces {α : Type} (w : World) (r : Except Halt α × World) : Prop :=
  ∃ es, r.2.events = es ++ w.events ∧ (r.1 = .error (.fault .aborted) ↔ .poll true ∈ es) ∧
    (∀ after before, es = after ++ .poll true :: before → ∀ e ∈ after, e = .closed) ∧
    ∀ f, r.1 = .error (.fault f) → f.aborts = true → f = .aborted

open Run

/-- The host says it but once: neither what came before nor the closing of texts is such an answer. -/
theorem World.Told.closes {w w' : World} (h : w.Told w') : ∃ es, w'.events = es ++ w.events ∧ .poll true ∈ es ∧
    ∀ after before, es = after ++ .poll true :: before → ∀ e ∈ after, e = .closed := by
  obtain ⟨v, closes, ⟨es, hes, hnot⟩, hevents, hcloses⟩ := h
  refine ⟨closes ++ .poll true :: es, by rw [hevents, hes]; simp, by simp, fun after before hsplit => ?_⟩
  have hclosed : .poll true ∉ closes := fun hmem => nomatch hcloses _ hmem
  rcases List.append_eq_append_iff.1 hsplit with ⟨as, rfl, htail⟩ | ⟨as, rfl, htail⟩
  · cases as with
    | nil => simpa using hcloses
    | cons e as =>
      obtain ⟨-, rfl⟩ := List.cons.inj htail
      simp at hnot
  · exact fun e he => hcloses e (List.mem_append_left _ he)

theorem Run.Heeded.announces {α : Type} {Q : α → Prop} {w : World} {r : Except Halt α × World} (h : Heeded Q w r) :
    Announces w r := by
  cases h with
  | untold huntold houtcome =>
    obtain ⟨es, hes, hnot⟩ := huntold
    have hquiet : ∀ f, r.1 = .error (.fault f) → f.aborts = false := by
      intro f hf
      rwa [hf] at houtcome
    refine ⟨es, hes, ⟨fun haborted => absurd (hquiet _ haborted) (by decide), fun hmem => absurd hmem hnot⟩, ?_, ?_⟩
    · rintro after before rfl
      simp at hnot
    · intro f hf haborts
      rw [hquiet f hf] at haborts
      cases haborts
  | told htold haborted =>
    obtain ⟨es, hes, hmem, hcloses⟩ := htold.closes
    refine ⟨es, hes, iff_of_true haborted hmem, hcloses, fun f hf _ => ?_⟩
    rw [haborted] at hf
    cases hf
    rfl

/-- Whatever the host answers, a text that is parsed and an expression that is evaluated end aborted just if an answer was
that the job is cancelled.  Nothing is asked, read or run after that answer, and no fault of a nested expression hides a
cancellation. -/
theorem Context.cancellation_heeded (c : Context) (s : String) (e : Expression) (storage : Storage) (fuel : Nat)
    (w : World) :
    Announces w ((c.parse s).exec w) ∧ Announces w ((c.evaluateWithin fuel e.root).exec w) ∧
      Announces w ((e.evaluateAs c storage).exec w) := by
  have hvalue : ∀ fuel, Heeds (c.evaluateWithin fuel e.root) fun _ => True := fun fuel =>
    (Heeds.carries c).evaluateWithin_related (fun _ _ _ _ => trivial) fuel fun _ _ => trivial
  have htyped : Heeds (e.evaluateAs c storage) fun _ => True := by
    unfold Expression.evaluateAs Node.request
    split
    · exact hvalue evalLimit
    · exact Heeds.fail rfl
  exact ⟨((Heeds.carries c).parse_related s w).announces, (hvalue fuel w).announces, (htyped w).announces⟩

end Rowwise
