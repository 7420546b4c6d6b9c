import Rowwise.Proofs.Evaluation.Framing

/-!
# Rowwise.Proofs.Constancy.Results — runs whose result depends on the row alone

Worlds agree that differ only in readers, random streams and what has happened (`World.Agrees`).  A run gives a result if it
ends with it in all worlds that agree with one, and in a world that agrees again (`Run.Gives`).  There is one rule for each
way to build a run.
-/

namespace Rowwise

/-- The host never cancels. -/
def Context.Calm (c : Context) : Prop := ∀ host, c.host = some host → ∀ count, host.cancels count = false

theorem Context.calm_of_no_host {c : Context} (h : c.host = none) : c.Calm := by
  intro host hhost
  rw [h] at hhost
  cases hhost

/-- From the first world to the second no column is added and no macro changes, and the job is not cancelled. -/
structure Context.Steady (c : Context) (w₀ w₁ : World) : Prop where
  calm : c.Calm
  uncancelled : w₀.cancelled = false ∧ w₁.cancelled = false
  columns : w₀.SameColumns w₁
  macros : w₁.macros = w₀.macros

namespace Context.Steady

variable {c : Context} {w₀ w₁ v : World}

theorem scope?_eq (h : c.Steady w₀ w₁) (hv : w₁.Agrees v) (name : String) : v.scope? name = w₀.scope? name := by
  rw [hv.scope?_eq]
  unfold World.scope?
  rw [h.macros]

theorem column?_eq (h : c.Steady w₀ w₁) (hv : w₁.Agrees v) (name : String) : v.column? name = w₀.column? name :=
  (hv.column?_eq name).trans (h.columns.column?_eq name).symm

end Context.Steady

namespace Run

variable {α β : Type} {w : World} {x : Run α} {f : α → Run β} {r : Except Halt α} {s : α → Except Halt β}

/-- Asking a host that never cancels shows in the count and in the events alone. -/
theorem exec_poll_calm {c : Context} (hc : c.Calm) {w : World} (hw : w.cancelled = false) :
    ∃ polls events, exec c.poll w = (.ok (), { w with polls := polls, events := events }) := by
  cases hhost : c.host with
  | none =>
    have hnone : c.poll = Pure.pure () := by rw [Context.poll, hhost]
    exact ⟨w.polls, w.events, by rw [hnone]; rfl⟩
  | some host =>
    rw [exec_poll hhost, hw, hc host hhost]
    exact ⟨_, _, rfl⟩

/-- In every world that agrees with `w` the run ends with `r`, in a world that agrees with `w`. -/
def Gives (w : World) (x : Run α) (r : Except Halt α) : Prop :=
  ∀ v, w.Agrees v → (x.exec v).1 = r ∧ w.Agrees (x.exec v).2

/-- In every world that agrees with `w` the run ends with this value. -/
def Yields (w : World) (x : Run α) (a : α) : Prop := ∀ v, w.Agrees v → (x.exec v).1 = .ok a

namespace Gives

/-- Runs that agree with the world before give what they yield. -/
theorem of_yields {a : α} (hx : Meets .agreeing x fun _ => True) (h : Yields w x a) : Gives w x (.ok a) :=
  fun v hv => ⟨h v hv, hv.trans (hx v trivial).2.1⟩

theorem yields {a : α} (h : Gives w x (.ok a)) : Yields w x a := fun v hv => (h v hv).1

theorem pure (a : α) : Gives w (Pure.pure a) (.ok a) := fun _ hv => ⟨rfl, hv⟩

theorem fail (f : Fault) : Gives w (Run.fail f : Run α) (.error (.fault f)) := fun _ hv => ⟨rfl, hv⟩

theorem note (e : Event) : Gives w (Run.note e) (.ok ()) := fun _ hv => ⟨rfl, hv.trans ⟨rfl, rfl, rfl, rfl, rfl⟩⟩

theorem get_bind {f : World → Run β} {s : Except Halt β} (hf : ∀ v, w.Agrees v → Gives w (f v) s) :
    Gives w (world >>= f) s := by
  intro v hv
  rw [exec_bind, exec_world]
  exact hf v hv v hv

theorem bind (hx : Gives w x r) (hf : ∀ a, r = .ok a → Gives w (f a) (s a)) : Gives w (x >>= f) (r >>= s) := by
  intro v hv
  obtain ⟨hresult, hagrees⟩ := hx v hv
  rw [exec_bind]
  rcases h : exec x v with ⟨halt | a, v'⟩
  · rw [h] at hresult hagrees
    subst hresult
    exact ⟨rfl, hagrees⟩
  · rw [h] at hresult hagrees
    subst hresult
    exact hf a rfl v' hagrees

theorem after {a : α} {s : Except Halt β} (hx : Gives w x (.ok a)) (hf : Gives w (f a) s) : Gives w (x >>= f) s :=
  bind (s := fun _ => s) hx fun b hb => by
    cases hb
    exact hf

theorem valueOf (function : String) (r : Except ValueCause α) :
    Gives w (Run.valueOf function r) (r.mapError fun cause => .fault (.ofCause function cause)) := by
  cases r with
  | ok a => exact pure a
  | error cause => exact fail _

theorem typed (function : String) (r : Except TypeCause α) :
    Gives w (Run.typed function r) (r.mapError fun cause => .fault (.type function cause)) := by
  cases r with
  | ok a => exact pure a
  | error cause => exact fail _

theorem readColumn (source : Nat) (name : String) (storage : Storage) :
    Gives w (Run.readColumn source name storage)
      ((w.cell source name storage).mapError fun d => .fault (.internal d)) := by
  intro v hv
  rw [exec_readColumn]
  exact ⟨by rw [hv.columns.cell_eq hv.row.symm], hv.trans (v.agrees_afterRead source name storage)⟩

theorem scope? (name : String) : Gives w (Run.scope? name) (.ok (w.scope? name)) :=
  get_bind fun v hv => by
    rw [hv.scope?_eq]
    exact pure _

theorem poll {c : Context} (hc : c.Calm) (hw : w.cancelled = false) : Gives w c.poll (.ok ()) := by
  intro v hv
  obtain ⟨polls, events, hexec⟩ := exec_poll_calm hc (hv.cancelled.trans hw)
  rw [hexec]
  exact ⟨rfl, hv.trans ⟨rfl, rfl, rfl, rfl, rfl⟩⟩

theorem nested (hx : Gives w x r) (function : String) :
    Gives w (Run.nested function x) (r.mapError (Halt.within function)) := by
  intro v hv
  obtain ⟨hresult, hagrees⟩ := hx v hv
  rw [exec_nested, hresult]
  exact ⟨rfl, hagrees⟩

theorem inText (hx : Gives w x r) : Gives w (Run.inText x) r := by
  intro v hv
  obtain ⟨hresult, hagrees⟩ := hx v.opening (hv.trans ⟨rfl, rfl, rfl, rfl, rfl⟩)
  rw [exec_inText]
  exact ⟨hresult, hagrees.trans ⟨rfl, rfl, rfl, rfl, rfl⟩⟩

theorem error {h : Halt} (hx : Gives w x (.error h)) : Gives w (x >>= f) (.error h) :=
  bind (s := fun _ => .error h) hx fun _ ha => by cases ha

end Gives

/-- Wherever the job is not cancelled the run gives the same result. -/
def Determined (x : Run α) : Prop := ∃ r, ∀ w : World, w.cancelled = false → Gives w x r

namespace Determined

theorem pure (a : α) : Determined (Pure.pure a) := ⟨.ok a, fun _ _ => .pure a⟩

theorem fail (f : Fault) : Determined (Run.fail f : Run α) := ⟨_, fun _ _ => .fail f⟩

theorem valueOf (function : String) (r : Except ValueCause α) : Determined (Run.valueOf function r) :=
  ⟨_, fun _ _ => .valueOf function r⟩

theorem poll {c : Context} (hc : c.Calm) : Determined c.poll := ⟨_, fun _ hw => .poll hc hw⟩

theorem bind (hx : Determined x) (hf : ∀ a, Determined (f a)) : Determined (x >>= f) := by
  obtain ⟨r, hr⟩ := hx
  cases r with
  | error h => exact ⟨.error h, fun w hw => (hr w hw).error⟩
  | ok a =>
    obtain ⟨s, hs⟩ := hf a
    exact ⟨s, fun w hw => (hr w hw).after (hs w hw)⟩

end Determined

end Run

end Rowwise
