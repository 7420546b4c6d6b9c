import Rowwise.Context.Context

/-!
# Rowwise.Proofs.Evaluation.Contract — what runs rely on and what they keep

A contract says what holds of the world before and after a run, how the run may change it, and with which halts it may
end.  `Run.Meets` says that a run meets a contract and that its result, if it has one, has a property.  There is one rule
for each way to build a run.
-/

namespace Rowwise

/-! ### Defects -/

/-- True for defects, also inside nested expressions. -/
def Fault.isDefect : Fault → Bool
  | internal _ => true
  | nested _ inner => inner.isDefect
  | _ => false

theorem Fault.isDefect_within {f : Fault} (h : f.isDefect = false) (function : String) :
    (f.within function).isDefect = false := by
  cases f <;> exact h

/-- True for cancellations, also inside nested expressions. -/
def Fault.aborts : Fault → Bool
  | aborted => true
  | nested _ inner => inner.aborts
  | _ => false

theorem Fault.aborts_ofCause (function : String) (cause : ValueCause) : (ofCause function cause).aborts = false := by
  cases cause <;> rfl

theorem Fault.ne_aborted_of_aborts {f : Fault} (h : f.aborts = false) : f ≠ .aborted := by
  rintro rfl
  cases h

/-- True for faults that are neither a defect nor a cancellation. -/
def Fault.isOrdinary (f : Fault) : Bool := !f.isDefect && !f.aborts

theorem Fault.isOrdinary_ofCause {cause : ValueCause} (h : cause ≠ .lostArgument) (function : String) :
    (ofCause function cause).isOrdinary = true := by
  cases cause <;> first | rfl | exact absurd rfl h

theorem Fault.isDefect_of_ordinary {f : Fault} (h : f.isOrdinary = true) : f.isDefect = false := by
  simp_all [isOrdinary]

theorem Fault.aborts_of_ordinary {f : Fault} (h : f.isOrdinary = true) : f.aborts = false := by
  simp_all [isOrdinary]

theorem Fault.kind_ofCause {cause : ValueCause} (h : cause ≠ .lostArgument) (function : String) :
    (ofCause function cause).kind = .value := by
  cases cause <;> first | rfl | exact absurd rfl h

/-! ### Notes -/

/-- True for the events that evaluation notes of functions. -/
def Event.isStep : Event → Bool
  | applied _ _ | ran _ | probe _ => true
  | _ => false

/-- True for the events that a run notes without reading a column or asking the host, and outside of texts. -/
def Event.isNote : Event → Bool
  | supplied | applied _ _ | built _ _ | ran _ | probe _ | drawn | timed => true
  | _ => false

theorem Event.isNote_of_isStep {e : Event} (h : e.isStep = true) : e.isNote = true := by
  cases e <;> first | rfl | cases h

/-! ### Contracts -/

/-- What runs rely on and what they keep. -/
structure Contract where
  /-- What holds of the world before and after. -/
  holds : World → Prop
  /-- How the world may change. -/
  moves : World → World → Prop
  /-- The halts with which a run may end. -/
  allows : Halt → Prop
  moves_refl (w : World) : moves w w
  moves_trans {u v w : World} : moves u v → moves v w → moves u w

namespace Contract

/-- The contract with other halts. -/
def allowing (K : Contract) (allows : Halt → Prop) : Contract := { K with allows := allows }

/-- The contract lets a world change in this way. -/
def Lets (K : Contract) (g : World → World) : Prop := ∀ w, K.holds w → K.holds (g w) ∧ K.moves w (g w)

/-- The contract lets the host be asked. -/
def LetsPoll (K : Contract) : Prop :=
  ∀ count cancelled, K.Lets fun w => { w with polls := count, events := .poll cancelled :: w.events }

/-- The contract lets the host be asked, notes be taken and random numbers be drawn, and allows all faults without defects;
what it allows it also allows inside a nested expression. -/
structure Usual (K : Contract) : Prop where
  poll : K.LetsPoll
  note {e : Event} : e.isNote = true → K.Lets fun w => { w with events := e :: w.events }
  streams (change : World → Array (Nat × Nat)) : K.Lets fun w => { w with streams := change w }
  fault {f : Fault} : f.isDefect = false → K.allows (.fault f)
  within {h : Halt} (function : String) : K.allows h → K.allows (h.within function)

end Contract

namespace World

/-- The world while a text is open that opens there. -/
def opening (w : World) : World := { w with events := .opened :: w.events }

/-- The world after an open text has been closed. -/
def closing (w : World) : World := { w with events := .closed :: w.events }

/-- From the first world to the second only such events have happened. -/
def Only (p : Event → Prop) (w w' : World) : Prop := ∃ es, w'.events = es ++ w.events ∧ ∀ e ∈ es, p e

variable {p : Event → Prop} {u w w' : World}

theorem Grows.inside (h : w.opening.Grows w') : w.Grows w'.closing :=
  ((List.suffix_cons _ _).trans h).trans (List.suffix_cons _ _)

namespace Only

theorem refl (w : World) : w.Only p w := ⟨[], rfl, nofun⟩

theorem of_event {e : Event} (he : p e) (h : w'.events = e :: w.events) : w.Only p w' := ⟨[e], h, by simpa using he⟩

theorem trans (h : u.Only p w) (h' : w.Only p w') : u.Only p w' := by
  obtain ⟨es, hes, hall⟩ := h
  obtain ⟨fs, hfs, hall'⟩ := h'
  exact ⟨fs ++ es, by rw [hfs, hes, List.append_assoc], fun e he => (List.mem_append.1 he).elim (hall' e) (hall e)⟩

/-- What holds of all events of a run holds of those of both its parts. -/
theorem split (h : u.Only p w') (hfirst : u.Grows w) (hrest : w.Grows w') : u.Only p w ∧ w.Only p w' := by
  obtain ⟨es, hes, hall⟩ := h
  obtain ⟨fs, hfs⟩ := hfirst
  obtain ⟨gs, hgs⟩ := hrest
  have hsplit : es = gs ++ fs := by
    refine List.append_cancel_right (?_ : es ++ u.events = gs ++ fs ++ u.events)
    rw [← hes, ← hgs, ← hfs, List.append_assoc]
  subst hsplit
  exact ⟨⟨fs, hfs.symm, fun e he => hall e (List.mem_append_right gs he)⟩,
    ⟨gs, hgs.symm, fun e he => hall e (List.mem_append_left fs he)⟩⟩

/-- What holds of all events of a text holds of those inside. -/
theorem inside (h : w.Only p w'.closing) (hgrows : w.opening.Grows w') : w.opening.Only p w' :=
  ((h.split (w := w.opening) (List.suffix_cons _ _) (hgrows.trans (List.suffix_cons _ _))).2.split hgrows
    (List.suffix_cons _ _)).1

theorem event {e : Event} (h : w.Only p w') (he : w'.events = e :: w.events) : p e := by
  obtain ⟨es, hes, hall⟩ := h
  have hone : es = [e] := List.append_cancel_right (hes.symm.trans he)
  exact hall e (hone ▸ List.mem_singleton_self e)

end Only

end World

namespace Run

variable {α β : Type} {K : Contract} {x : Run α} {f : α → Run β} {P Q : α → Prop} {R : β → Prop}

/-! ### Runs from a world -/

@[simp] theorem exec_pure (a : α) (w : World) : exec (pure a) w = (.ok a, w) := rfl

@[simp] theorem exec_throw (h : Halt) (w : World) : exec (throw h : Run α) w = (.error h, w) := rfl

@[simp] theorem exec_fail (f : Fault) (w : World) : exec (fail f : Run α) w = (.error (.fault f), w) := rfl

@[simp] theorem exec_world (w : World) : exec world w = (.ok w, w) := rfl

@[simp] theorem exec_scope? (name : String) (w : World) : exec (scope? name) w = (.ok (w.scope? name), w) := rfl

@[simp] theorem exec_alter (g : World → World) (hg : ∀ w : World, w.Grows (g w)) (w : World) :
    exec (alter g hg) w = (.ok (), g w) :=
  rfl

@[simp] theorem exec_note (e : Event) (w : World) : exec (note e) w = (.ok (), { w with events := e :: w.events }) := rfl

theorem exec_bind (x : Run α) (f : α → Run β) (w : World) : exec (x >>= f) w =
    match exec x w with
    | (.ok a, w') => exec (f a) w'
    | (.error h, w') => (.error h, w') :=
  rfl

theorem ext {x y : Run α} (h : ∀ w, x.exec w = y.exec w) : x = y := by
  obtain ⟨f, hf⟩ := x
  obtain ⟨g, hg⟩ := y
  have hfg : f = g := funext h
  subst hfg
  rfl

theorem id_map (x : Run α) : id <$> x = x := by
  refine ext fun w => ?_
  show (match x.exec w with
    | (.ok a, w') => (.ok a, w')
    | (.error h, w') => (.error h, w')) = x.exec w
  rcases x.exec w with ⟨_ | _, _⟩ <;> rfl

theorem bind_bind {γ : Type} (x : Run α) (f : α → Run β) (g : β → Run γ) : x >>= f >>= g = x >>= fun a => f a >>= g := by
  refine ext fun w => ?_
  simp only [exec_bind]
  rcases x.exec w with ⟨_ | _, _⟩ <;> rfl

instance : LawfulMonad Run := .mk' Run id_map (fun _ _ => rfl) bind_bind

/-- A run that yields something has been through its first part. -/
theorem exec_bind_ok {w : World} {b : β} (h : ((x >>= f).exec w).1 = .ok b) :
    ∃ a v, x.exec w = (.ok a, v) ∧ ((f a).exec v).1 = .ok b := by
  rw [exec_bind] at h
  rcases hr : exec x w with ⟨halt | a, v⟩
  · rw [hr] at h
    cases h
  · rw [hr] at h
    exact ⟨a, v, rfl, h⟩

theorem exec_tryCatch (x : Run α) (f : Halt → Run α) (w : World) : exec (tryCatch x f) w =
    match exec x w with
    | (.ok a, w') => (.ok a, w')
    | (.error h, w') => exec (f h) w' :=
  rfl

theorem exec_inText (x : Run α) (w : World) :
    exec (inText x) w = ((exec x w.opening).1, (exec x w.opening).2.closing) := by
  unfold inText
  simp only [exec_bind, exec_note, exec_tryCatch]
  rcases h : exec x w.opening with ⟨a | a, w'⟩ <;> simp only [World.opening] at h <;> rw [h] <;> rfl

theorem exec_nested (function : String) (x : Run α) (w : World) :
    exec (nested function x) w = ((exec x w).1.mapError (Halt.within function), (exec x w).2) := by
  unfold nested
  rw [exec_tryCatch]
  rcases exec x w with ⟨a | a, w'⟩ <;> rfl

/-! ### Meeting a contract -/

/-- The outcome of a run has the property if it is a result, and is allowed if it is a halt. -/
def Outcome (allows : Halt → Prop) (Q : α → Prop) : Except Halt α → Prop
  | .ok a => Q a
  | .error h => allows h

theorem Outcome.imp {A B : Halt → Prop} {r : Except Halt α} (h : Outcome A P r) (hA : ∀ halt, A halt → B halt)
    (hP : ∀ a, P a → Q a) : Outcome B Q r := by
  cases r with
  | error halt => exact hA halt h
  | ok a => exact hP a h

theorem Outcome.mapError {A B : Halt → Prop} {r : Except Halt α} {g : Halt → Halt} (h : Outcome A Q r)
    (hA : ∀ halt, A halt → B (g halt)) : Outcome B Q (r.mapError g) := by
  cases r with
  | error halt => exact hA halt h
  | ok a => exact h

/-- The run meets the contract, and its result has the property. -/
def Meets (K : Contract) (x : Run α) (Q : α → Prop) : Prop :=
  ∀ w, K.holds w → K.holds (x.exec w).2 ∧ K.moves w (x.exec w).2 ∧ Outcome K.allows Q (x.exec w).1

/-- A result with a property that has been computed. -/
theorem exists_ok {r : Except Halt α} {p : α → Bool} (h : r.toOption.any p = true) : ∃ a, r = .ok a ∧ p a = true := by
  cases r with
  | error halt => cases h
  | ok a => exact ⟨a, rfl, h⟩

theorem Meets.pure {a : α} (h : Q a) : Meets K (pure a) Q := fun w hw => ⟨hw, K.moves_refl w, h⟩

theorem Meets.throw {h : Halt} (hh : K.allows h) : Meets K (throw h) Q := fun w hw => ⟨hw, K.moves_refl w, hh⟩

theorem Meets.fail {f : Fault} (hf : K.allows (.fault f)) : Meets K (fail f) Q := Meets.throw hf

theorem Meets.world {Q : World → Prop} (h : ∀ w, K.holds w → Q w) : Meets K world Q :=
  fun w hw => ⟨hw, K.moves_refl w, h w hw⟩

theorem Meets.scope? {name : String} : Meets K (scope? name) fun _ => True := fun w hw => ⟨hw, K.moves_refl w, trivial⟩

theorem Meets.alter {g : World → World} {grows : ∀ w : World, w.Grows (g w)} {Q : Unit → Prop} (hg : K.Lets g)
    (h : Q ()) : Meets K (alter g grows) Q :=
  fun w hw => ⟨(hg w hw).1, (hg w hw).2, h⟩

theorem Meets.note {e : Event} {Q : Unit → Prop} (he : K.Lets fun w => { w with events := e :: w.events })
    (h : Q ()) : Meets K (note e) Q :=
  Meets.alter he h

theorem Meets.bind (hx : Meets K x P) (hf : ∀ a, P a → Meets K (f a) R) : Meets K (x >>= f) R := by
  intro w hw
  obtain ⟨hholds, hmoves, houtcome⟩ := hx w hw
  rw [exec_bind]
  rcases h : exec x w with ⟨h' | a, w'⟩
  · rw [h] at hholds hmoves houtcome
    exact ⟨hholds, hmoves, houtcome⟩
  · rw [h] at hholds hmoves houtcome
    obtain ⟨hholds', hmoves', houtcome'⟩ := hf a houtcome w' hholds
    exact ⟨hholds', K.moves_trans hmoves hmoves', houtcome'⟩

theorem Meets.mono (hx : Meets K x P) (h : ∀ a, P a → Q a) : Meets K x Q := by
  intro w hw
  obtain ⟨hholds, hmoves, houtcome⟩ := hx w hw
  exact ⟨hholds, hmoves, houtcome.imp (fun _ => id) h⟩

theorem Meets.tryCatch {A : Halt → Prop} {handle : Halt → Run α} (hx : Meets (K.allowing A) x Q)
    (hh : ∀ h, A h → Meets K (handle h) Q) : Meets K (tryCatch x handle) Q := by
  intro w hw
  obtain ⟨hholds, hmoves, houtcome⟩ := hx w hw
  rw [exec_tryCatch]
  rcases hr : exec x w with ⟨h' | a, w'⟩
  · rw [hr] at hholds hmoves houtcome
    obtain ⟨hholds', hmoves', houtcome'⟩ := hh h' houtcome w' hholds
    exact ⟨hholds', K.moves_trans hmoves hmoves', houtcome'⟩
  · rw [hr] at hholds hmoves houtcome
    exact ⟨hholds, hmoves, houtcome⟩

theorem Meets.nested_of_within {function : String} (hwithin : ∀ h, K.allows h → K.allows (h.within function))
    (hx : Meets K x Q) : Meets K (nested function x) Q :=
  Meets.tryCatch (A := K.allows) hx fun h hh => Meets.throw (hwithin h hh)

theorem Meets.nested {function : String} (hK : K.Usual) (hx : Meets K x Q) : Meets K (nested function x) Q :=
  hx.nested_of_within fun _ hh => hK.within function hh

theorem Meets.inText (hopened : K.Lets fun w => { w with events := .opened :: w.events })
    (hclosed : K.Lets fun w => { w with events := .closed :: w.events }) (hx : Meets K x Q) :
    Meets K (inText x) Q :=
  Meets.bind (P := fun _ => True) (Meets.note hopened trivial) fun _ _ =>
    Meets.bind
      (Meets.tryCatch (A := K.allows) hx fun _ hh =>
        Meets.bind (P := fun _ => True) (Meets.note hclosed trivial) fun _ _ => Meets.throw hh)
      fun _ ha => Meets.bind (P := fun _ => True) (Meets.note hclosed trivial) fun _ _ => Meets.pure ha

/-! ### Results of checks and readings -/

theorem Meets.ofExcept {r : Except Fault α} (hok : ∀ a, r = .ok a → Q a)
    (herror : ∀ f, r = .error f → K.allows (.fault f)) : Meets K (ofExcept r) Q := by
  cases r with
  | ok a => exact Meets.pure (hok a rfl)
  | error f => exact Meets.fail (herror f rfl)

theorem Meets.mapError {ε : Type} {r : Except ε α} {wrap : ε → Fault} (hok : ∀ a, r = .ok a → Q a)
    (herror : ∀ e, r = .error e → K.allows (.fault (wrap e))) : Meets K (Run.ofExcept (r.mapError wrap)) Q := by
  cases r with
  | ok a => exact Meets.pure (hok a rfl)
  | error e => exact Meets.fail (herror e rfl)

theorem Meets.valueOf {function : String} {r : Except ValueCause α} (hok : ∀ a, r = .ok a → Q a)
    (herror : ∀ cause, r = .error cause → K.allows (.fault (.ofCause function cause))) :
    Meets K (valueOf function r) Q :=
  Meets.mapError hok herror

theorem Meets.typed {function : String} {r : Except TypeCause α} (hok : ∀ a, r = .ok a → Q a)
    (herror : ∀ cause, r = .error cause → K.allows (.fault (.type function cause))) :
    Meets K (typed function r) Q :=
  Meets.mapError hok herror

theorem Meets.sound {r : Except Defect α} (hok : ∀ a, r = .ok a → Q a)
    (herror : ∀ d, r = .error d → K.allows (.fault (.internal d))) : Meets K (sound r) Q :=
  Meets.mapError hok herror

/-! ### The host -/

theorem exec_poll {c : Context} {host : Host} (hc : c.host = some host) (w : World) :
    exec c.poll w =
      (if w.cancelled || host.cancels (w.polls + 1) then .error (.fault .aborted) else .ok (),
        { w with
          polls := w.polls + 1
          events := .poll (w.cancelled || host.cancels (w.polls + 1)) :: w.events }) := by
  unfold Context.poll
  rw [hc]
  simp only [exec_bind, exec_world, exec_alter]
  split
  · rfl
  · rfl

theorem Meets.poll_of_lets {c : Context} {Q : Unit → Prop} (hpoll : K.LetsPoll) (haborted : K.allows (.fault .aborted))
    (h : Q ()) : Meets K c.poll Q := by
  cases hc : c.host with
  | none =>
    have hnone : c.poll = Pure.pure () := by rw [Context.poll, hc]
    rw [hnone]
    exact Meets.pure h
  | some host =>
    intro w hw
    rw [exec_poll hc]
    obtain ⟨hholds, hmoves⟩ := hpoll (w.polls + 1) (w.cancelled || host.cancels (w.polls + 1)) w hw
    refine ⟨hholds, hmoves, ?_⟩
    show Outcome K.allows Q (if _ then _ else _)
    split
    · exact haborted
    · exact h

theorem Meets.poll {c : Context} {Q : Unit → Prop} (hK : K.Usual) (h : Q ()) : Meets K c.poll Q :=
  Meets.poll_of_lets hK.poll (hK.fault rfl) h

end Run

end Rowwise
