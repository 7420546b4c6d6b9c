import Mathlib.Data.List.Infix
import Rowwise.Proofs.Evaluation.Simulation

/-!
# Rowwise.Proofs.Texts.Nesting — how many texts are open at once

A text within an expression is open while it is read and while what was read of it is evaluated.  Runs leave no text open
behind them, so what counts is how many were open at once on the way: `World.Nested` bounds them from above and
`World.Reaches` from below.  A run that gives up (`Halt.exhausted`) is compared with one that goes on in its place
(`Run.Approximates`).
-/

namespace Rowwise

/-! ### Open texts -/

/-- What an event adds to the number of open texts. -/
def Event.opens : Event → Int
  | opened => 1
  | closed => -1
  | _ => 0

/-- The number of texts that events leave open. -/
def openTexts : List Event → Int
  | [] => 0
  | e :: es => e.opens + openTexts es

/-- No text is left open by the events, and at no moment were there more than `k`; the latest event is the first. -/
def StaysWithin (k : Nat) (es : List Event) : Prop := openTexts es = 0 ∧ ∀ t, t <:+ es → openTexts t ≤ k

@[simp] theorem openTexts_nil : openTexts [] = 0 := rfl

@[simp] theorem openTexts_cons (e : Event) (es : List Event) : openTexts (e :: es) = e.opens + openTexts es := rfl

@[simp] theorem openTexts_append (es fs : List Event) : openTexts (es ++ fs) = openTexts es + openTexts fs := by
  induction es with
  | nil => simp
  | cons e es ih =>
    rw [List.cons_append, openTexts_cons, openTexts_cons, ih]
    omega

theorem suffix_append_cases {t es fs : List Event} (h : t <:+ es ++ fs) : t <:+ fs ∨ ∃ t', t = t' ++ fs ∧ t' <:+ es := by
  rcases List.suffix_or_suffix_of_suffix h (List.suffix_append es fs) with ht | ⟨t', rfl⟩
  · exact Or.inl ht
  · exact Or.inr ⟨t', rfl, List.suffix_append_self_iff.1 h⟩

namespace StaysWithin

variable {k k' : Nat} {es fs : List Event}

theorem nil (k : Nat) : StaysWithin k [] := by
  refine ⟨rfl, fun t ht => ?_⟩
  rw [List.suffix_nil.1 ht]
  exact Int.natCast_nonneg k

theorem quiet (k : Nat) {e : Event} (he : e.opens = 0) : StaysWithin k [e] := by
  refine ⟨by simp [he], fun t ht => ?_⟩
  rcases List.suffix_cons_iff.1 ht with rfl | ht
  · simp [he]
  · exact (nil k).2 t ht

theorem mono (h : StaysWithin k es) (hk : k ≤ k') : StaysWithin k' es :=
  ⟨h.1, fun t ht => Int.le_trans (h.2 t ht) (Int.ofNat_le.2 hk)⟩

/-- What comes later starts with no text open. -/
theorem append (hes : StaysWithin k es) (hfs : StaysWithin k fs) : StaysWithin k (es ++ fs) := by
  refine ⟨by simp [hes.1, hfs.1], fun t ht => ?_⟩
  rcases suffix_append_cases ht with ht | ⟨t', rfl, ht'⟩
  · exact hfs.2 t ht
  · simpa [hfs.1] using hes.2 t' ht'

/-- A text adds one to all that is open while it is. -/
theorem inside (h : StaysWithin k es) : StaysWithin (k + 1) (.closed :: (es ++ [.opened])) := by
  have hopened : ∀ t, t <:+ [Event.opened] → openTexts t ≤ 1 := by
    intro t ht
    rcases List.suffix_cons_iff.1 ht with rfl | ht
    · simp [Event.opens]
    · rw [List.suffix_nil.1 ht]
      decide
  refine ⟨by simp [h.1, Event.opens], fun t ht => ?_⟩
  rcases List.suffix_cons_iff.1 ht with rfl | ht
  · simp [h.1, Event.opens]
    omega
  · rcases suffix_append_cases ht with ht | ⟨t', rfl, ht'⟩
    · have := hopened t ht
      omega
    · have := h.2 t' ht'
      simp [Event.opens]
      omega

end StaysWithin

instance (k : Nat) (es : List Event) : Decidable (StaysWithin k es) :=
  decidable_of_iff (openTexts es = 0 ∧ ∀ t ∈ es.tails, openTexts t ≤ k) (by simp [StaysWithin, List.mem_tails])

/-! ### Between two worlds -/

namespace World

/-- The events between two worlds leave no text open, and at no moment were there more than `k`. -/
def Nested (k : Nat) (w w' : World) : Prop := ∃ es, w'.events = es ++ w.events ∧ StaysWithin k es

/-- At some moment between two worlds at least `p` texts were open. -/
def Reaches (p : Nat) (w w' : World) : Prop := ∃ es, es ++ w.events <:+ w'.events ∧ (p : Int) ≤ openTexts es

variable {k p : Nat} {u w w' : World}

theorem Nested.refl (k : Nat) (w : World) : Nested k w w := ⟨[], rfl, .nil k⟩

theorem Nested.of_same (k : Nat) (h : w'.events = w.events) : Nested k w w' := ⟨[], h, .nil k⟩

theorem Nested.of_quiet (k : Nat) {e : Event} (he : e.opens = 0) (h : w'.events = e :: w.events) : Nested k w w' :=
  ⟨[e], h, .quiet k he⟩

theorem Nested.trans (h : Nested k u w) (h' : Nested k w w') : Nested k u w' := by
  obtain ⟨es, hes, hwithin⟩ := h
  obtain ⟨fs, hfs, hwithin'⟩ := h'
  exact ⟨fs ++ es, by rw [hfs, hes, List.append_assoc], hwithin'.append hwithin⟩

theorem Nested.mono {k' : Nat} (h : Nested k w w') (hk : k ≤ k') : Nested k' w w' := by
  obtain ⟨es, hes, hwithin⟩ := h
  exact ⟨es, hes, hwithin.mono hk⟩

theorem Nested.grows (h : Nested k w w') : w.Grows w' := by
  obtain ⟨es, hes, -⟩ := h
  exact ⟨es, hes.symm⟩

theorem Nested.openTexts_eq (h : Nested k w w') : openTexts w'.events = openTexts w.events := by
  obtain ⟨es, hes, hwithin⟩ := h
  rw [hes, openTexts_append, hwithin.1, Int.zero_add]

theorem Grows.reaches (h : w.Grows w') : Reaches 0 w w' := ⟨[], h, Int.le_refl 0⟩

theorem Reaches.grows (h : Reaches p u w) (h' : w.Grows w') : Reaches p u w' := by
  obtain ⟨es, hes, hp⟩ := h
  exact ⟨es, hes.trans h', hp⟩

/-- What has left no text open does not count for what is reached later. -/
theorem Nested.reaches (h : Nested k u w) (h' : Reaches p w w') : Reaches p u w' := by
  obtain ⟨es, hes, hwithin⟩ := h
  obtain ⟨fs, hfs, hp⟩ := h'
  refine ⟨fs ++ es, ?_, by rw [openTexts_append, hwithin.1]; omega⟩
  rwa [List.append_assoc, ← hes]

theorem Nested.le_of_reaches (h : Nested k w w') (h' : Reaches p w w') : p ≤ k := by
  obtain ⟨es, hes, hwithin⟩ := h
  obtain ⟨fs, hfs, hp⟩ := h'
  rw [hes] at hfs
  have := hwithin.2 fs (List.suffix_append_self_iff.1 hfs)
  omega

theorem nested_iff_take :
    Nested k w w' ↔ w.Grows w' ∧ StaysWithin k (w'.events.take (w'.events.length - w.events.length)) := by
  constructor
  · rintro ⟨es, hes, hwithin⟩
    exact ⟨⟨es, hes.symm⟩, by simpa [hes] using hwithin⟩
  · rintro ⟨⟨es, hes⟩, hwithin⟩
    exact ⟨es, hes.symm, by simpa [← hes] using hwithin⟩

instance (k : Nat) (w w' : World) : Decidable (Nested k w w') :=
  haveI : Decidable (w.Grows w') := inferInstanceAs (Decidable (w.events <:+ w'.events))
  decidable_of_iff _ nested_iff_take.symm

theorem Nested.inside (h : Nested k w.opening w') : Nested (k + 1) w w'.closing := by
  obtain ⟨es, hes, hwithin⟩ := h
  refine ⟨.closed :: (es ++ [.opened]), ?_, hwithin.inside⟩
  simp [closing, hes, opening]

theorem Reaches.inside (h : Reaches p w.opening w') : Reaches (p + 1) w w'.closing := by
  obtain ⟨es, hes, hp⟩ := h
  refine ⟨es ++ [.opened], ?_, ?_⟩
  · rw [List.append_assoc]
    exact List.IsSuffix.trans hes (List.suffix_cons _ _)
  · simp [Event.opens]
    omega

end World

/-- Runs that leave no text open, with at most `k` open at once, and that do not give up. -/
def Contract.nesting (k : Nat) : Contract where
  holds _ := True
  moves := World.Nested k
  allows h := h ≠ .exhausted
  moves_refl := .refl k
  moves_trans := .trans

theorem Contract.plain_nesting (k : Nat) : (Contract.nesting k).Plain where
  poll _ _ _ _ := ⟨trivial, .of_quiet k rfl rfl⟩
  streams _ _ _ := ⟨trivial, .of_same k rfl⟩
  reads source name storage w _ := ⟨trivial, .of_quiet k rfl (Run.events_afterRead source name storage w)⟩
  note {e} he _ _ := ⟨trivial, .of_quiet k (by cases e <;> first | rfl | cases he) rfl⟩
  fault _ := by
    rintro ⟨⟩

namespace Run

variable {α β : Type} {k p : Nat} {x y : Run α} {f g : α → Run β} {Q : α → Prop}

/-! ### Runs in texts -/

theorem within_eq_exhausted {function : String} {r : Except Halt α} :
    r.mapError (Halt.within function) = .error .exhausted ↔ r = .error .exhausted := by
  rcases r with (h | _) | _
  · simp [Except.mapError, Halt.within]
  · simp [Except.mapError, Halt.within]
  · simp [Except.mapError]

theorem Meets.inText_nesting (h : Meets (.nesting k) x Q) : Meets (.nesting (k + 1)) (Run.inText x) Q := by
  intro w _
  obtain ⟨-, hnested, houtcome⟩ := h w.opening trivial
  rw [exec_inText]
  exact ⟨trivial, World.Nested.inside hnested, houtcome⟩

theorem Meets.nesting_mono {k' : Nat} (h : Meets (.nesting k) x Q) (hk : k ≤ k') : Meets (.nesting k') x Q := by
  intro w _
  obtain ⟨-, hnested, houtcome⟩ := h w trivial
  exact ⟨trivial, World.Nested.mono hnested hk, houtcome⟩

/-! ### Giving up and going on -/

/-- The first run opens at most `k` texts at once and leaves none open.  Unless it gives up, the second run is the same;
if it gives up, the second run opens at least `p` texts at once. -/
structure Approximates (k p : Nat) (x y : Run α) : Prop where
  nested (w : World) : w.Nested k (x.exec w).2
  grows (w : World) : w.Grows (y.exec w).2
  agrees (w : World) : (x.exec w).1 ≠ .error .exhausted → y.exec w = x.exec w
  reaches (w : World) : (x.exec w).1 = .error .exhausted → w.Reaches p (y.exec w).2

namespace Approximates

theorem refl (h : Meets (.nesting k) x Q) (p : Nat) : Approximates k p x x where
  nested w := (h w trivial).2.1
  grows w := World.Nested.grows (h w trivial).2.1
  agrees _ _ := rfl
  reaches w hw := by
    have houtcome := (h w trivial).2.2
    rw [hw] at houtcome
    exact absurd rfl houtcome

theorem pure (a : α) : Approximates k p (Pure.pure a) (Pure.pure a) :=
  refl (Q := fun _ => True) (Meets.pure trivial) p

/-- A run that opens at least one text more than it may before it gives up does not give up. -/
theorem meets (h : Approximates k (k + 1) x x) : Meets (.nesting k) x fun _ => True := by
  intro w _
  refine ⟨trivial, h.nested w, ?_⟩
  rcases hr : (exec x w).1 with halt | a
  · rintro rfl
    have := (h.nested w).le_of_reaches (h.reaches w hr)
    omega
  · trivial

theorem giveUp (hy : ∀ w : World, w.Grows (y.exec w).2) : Approximates k 0 (throw .exhausted) y where
  nested w := .refl k w
  grows := hy
  agrees _ hw := absurd rfl hw
  reaches w _ := (hy w).reaches

theorem mono {k' p' : Nat} (h : Approximates k p x y) (hk : k ≤ k') (hp : p' ≤ p) : Approximates k' p' x y where
  nested w := (h.nested w).mono hk
  grows := h.grows
  agrees := h.agrees
  reaches w hw := by
    obtain ⟨es, hes, hes'⟩ := h.reaches w hw
    exact ⟨es, hes, by omega⟩

/-- What follows is compared for the results of the second run alone, since those of the first are among them. -/
theorem bindOf (hx : Approximates k p x y)
    (hf : ∀ a w w', exec y w = (.ok a, w') → Approximates k p (f a) (g a)) : Approximates k p (x >>= f) (y >>= g) where
  nested w := by
    have hnested := hx.nested w
    have hagrees := hx.agrees w
    rw [exec_bind]
    rcases hr : exec x w with ⟨halt | a, w'⟩
    · rwa [hr] at hnested
    · rw [hr] at hnested hagrees
      exact hnested.trans ((hf a w w' (hagrees (by simp))).nested w')
  grows w := by
    have hgrows := hx.grows w
    rw [exec_bind]
    rcases hr : exec y w with ⟨halt | a, w'⟩
    · rwa [hr] at hgrows
    · rw [hr] at hgrows
      exact hgrows.trans ((hf a w w' hr).grows w')
  agrees w := by
    have hagrees := hx.agrees w
    rw [exec_bind, exec_bind]
    rcases hr : exec x w with ⟨halt | a, w'⟩
    · rw [hr] at hagrees
      intro hw
      rw [hagrees fun hhalt => hw (by cases hhalt; rfl)]
    · rw [hr] at hagrees
      have hy := hagrees (by simp)
      intro hw
      rw [hy]
      exact (hf a w w' hy).agrees w' hw
  reaches w := by
    have hnested := hx.nested w
    have hagrees := hx.agrees w
    have hreaches := hx.reaches w
    rw [exec_bind, exec_bind]
    rcases hr : exec x w with ⟨halt | a, w'⟩
    · -- the second run gets that far in its first part, and may go on
      rw [hr] at hreaches
      intro hw
      have hfirst := hreaches (by cases hw; rfl)
      rcases hr' : exec y w with ⟨halt' | b, w''⟩
      · rwa [hr'] at hfirst
      · rw [hr'] at hfirst
        exact hfirst.grows ((hf b w w'' hr').grows w'')
    · rw [hr] at hnested hagrees
      have hy := hagrees (by simp)
      intro hw
      rw [hy]
      exact hnested.reaches ((hf a w w' hy).reaches w' hw)

theorem bind (hx : Approximates k p x y) (hf : ∀ a, Approximates k p (f a) (g a)) :
    Approximates k p (x >>= f) (y >>= g) :=
  hx.bindOf fun a _ _ _ => hf a

/-- The first part is shared, and what is known of its results can be used in what follows. -/
theorem after {z : Run α} (hz : Meets (.nesting k) z Q) (hf : ∀ a, Q a → Approximates k p (f a) (g a)) :
    Approximates k p (z >>= f) (z >>= g) := by
  refine (refl hz p).bindOf fun a w w' hr => hf a ?_
  have houtcome := (hz w trivial).2.2
  rwa [hr] at houtcome

theorem nestedIn (h : Approximates k p x y) (function : String) :
    Approximates k p (Run.nested function x) (Run.nested function y) where
  nested w := by
    rw [exec_nested]
    exact h.nested w
  grows w := by
    rw [exec_nested]
    exact h.grows w
  agrees w := by
    rw [exec_nested, exec_nested]
    intro hw
    rw [h.agrees w (mt within_eq_exhausted.2 hw)]
  reaches w := by
    rw [exec_nested, exec_nested]
    intro hw
    exact h.reaches w (within_eq_exhausted.1 hw)

theorem inText (h : Approximates k p x y) : Approximates (k + 1) (p + 1) (Run.inText x) (Run.inText y) where
  nested w := by
    rw [exec_inText]
    exact (h.nested w.opening).inside
  grows w := by
    rw [exec_inText]
    exact (h.grows w.opening).inside
  agrees w := by
    rw [exec_inText, exec_inText]
    intro hw
    rw [h.agrees w.opening hw]
  reaches w := by
    rw [exec_inText, exec_inText]
    intro hw
    exact (h.reaches w.opening hw).inside

/-- A text makes the second run open one more, and that is more than it has to. -/
theorem simulation (p : Nat) : Simulation fun k {_} x y => Approximates k p x y where
  plain h := refl (h (Contract.plain_nesting _)) p
  bind := bind
  nested function h := h.nestedIn function
  inText h := h.inText.mono (Nat.le_refl _) (Nat.le_succ p)
  mono h hk := h.mono hk (Nat.le_refl p)

end Approximates

end Run

end Rowwise
