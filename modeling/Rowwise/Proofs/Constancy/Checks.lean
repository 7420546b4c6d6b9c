import Mathlib.Data.List.Forall2
import Rowwise.Proofs.Evaluation.Building

/-!
# Rowwise.Proofs.Constancy.Checks — constants that pass their checks pass them among fewer constants

A check looks at constants alone, and what it does not see it lets pass.  So checks that all arguments pass as constants are
passed whichever of them are constant (`ConstantCheck.forM_of_fewer`).
-/

namespace Rowwise.ConstantCheck

/-- Each argument that is constant in the first list has the same value in the second. -/
abbrev Fewer (ps qs : List (Option Value)) : Prop := List.Forall₂ (fun p q => p = none ∨ p = q) ps qs

variable {ps qs : List (Option Value)}

theorem Fewer.getElem? (h : Fewer ps qs) (place : Nat) :
    ps[place]?.bind id = none ∨ ps[place]?.bind id = qs[place]?.bind id := by
  induction h generalizing place with
  | nil => exact Or.inl rfl
  | @cons p q ps qs hp _ ih =>
    cases place with
    | zero => exact hp
    | succ place => simpa using ih place

theorem Fewer.textOf (h : Fewer ps qs) (place : Nat) :
    textOf ps place = none ∨ textOf ps place = textOf qs place := by
  unfold ConstantCheck.textOf
  rcases h.getElem? place with hnone | hsame
  · rw [hnone]
    exact Or.inl rfl
  · rw [hsame]
    exact Or.inr rfl

theorem onText_of_fewer (h : Fewer ps qs) {α : Type} {place : Nat} {read : String → Except ValueCause α}
    (hq : onText qs place read = .ok ()) : onText ps place read = .ok () := by
  unfold onText at hq ⊢
  rcases h.textOf place with hnone | hsame
  · rw [hnone]
  · rw [hsame]
    exact hq

theorem checkField_of_fewer (h : Fewer ps qs) {place unitPlace : Nat} {ofDay : Bool}
    (hq : checkField qs place unitPlace ofDay = .ok ()) : checkField ps place unitPlace ofDay = .ok () := by
  unfold checkField at hq ⊢
  rcases h.getElem? place with hnone | hsame
  · rw [hnone]
    rfl
  · rcases h.textOf unitPlace with hnone | hunit
    · rw [hnone]
      cases (ps[place]?.bind id).bind Value.number? <;> rfl
    · rw [hsame, hunit]
      exact hq

theorem run_of_fewer (h : Fewer ps qs) {check : ConstantCheck} (hq : check.run qs = .ok ()) :
    check.run ps = .ok () := by
  cases check with
  | unit place | unitOfDay place days | zone place | locale place | datePattern place => exact onText_of_fewer h hq
  | field place unitPlace ofDay => exact checkField_of_fewer h hq
  | regex place whole =>
    simp only [run] at hq ⊢
    rw [h.length_eq]
    split at hq
    · rename_i hplace
      rw [if_pos hplace]
      exact onText_of_fewer h hq
    · cases hq

theorem forM_of_fewer (h : Fewer ps qs) {checks : List ConstantCheck}
    (hq : (checks.forM fun check => check.run qs) = .ok ()) : (checks.forM fun check => check.run ps) = .ok () := by
  induction checks with
  | nil => rfl
  | cons check checks ih =>
    change (check.run qs >>= fun _ => checks.forM fun check => check.run qs) = .ok () at hq
    cases hcheck : check.run qs with
    | error cause =>
      rw [hcheck] at hq
      cases hq
    | ok u =>
      rw [hcheck] at hq
      change (check.run ps >>= fun _ => checks.forM fun check => check.run ps) = .ok ()
      rw [run_of_fewer h hcheck]
      exact ih hq

/-! ### No constants -/

theorem textOf_of_none (h : ∀ p ∈ ps, p = none) (place : Nat) : textOf ps place = none := by
  unfold textOf
  cases hplace : ps[place]? with
  | none => rfl
  | some p =>
    rw [h p (List.mem_of_getElem? hplace)]
    rfl

theorem onText_of_none (h : ∀ p ∈ ps, p = none) {α : Type} (place : Nat) (read : String → Except ValueCause α) :
    onText ps place read = .ok () := by
  rw [onText, textOf_of_none h]

/-- Where nothing is constant, checks of texts at places that there are judge nothing. -/
theorem forM_of_none (h : ∀ p ∈ ps, p = none) {checks : List ConstantCheck}
    (hchecks : ∀ check ∈ checks, ∃ place whole, check = .regex place whole ∧ place < ps.length) :
    (checks.forM fun check => check.run ps) = .ok () := by
  induction checks with
  | nil => rfl
  | cons check checks ih =>
    obtain ⟨place, whole, rfl, hplace⟩ := hchecks check List.mem_cons_self
    have hpassed : (regex place whole).run ps = .ok () := by
      rw [run, if_pos hplace]
      exact onText_of_none h place _
    show ((regex place whole).run ps >>= fun _ => checks.forM fun check => check.run ps) = .ok ()
    rw [hpassed]
    exact ih fun check hcheck => hchecks check (List.mem_cons_of_mem _ hcheck)

end Rowwise.ConstantCheck
