import Rowwise.Proofs.Evaluation.Order

/-!
# Rowwise.Proofs.Evaluation.Sequence — all runs of an evaluation one after the other

A node may occur several times in an expression.  An occurrence is told by the way to it, the places at which to go down
from the node that is evaluated (`Happening.starts`).  From what holds of the run of each node it follows that no
occurrence runs twice and that they begin in the order in which they stand in the expression, and that after the first
fault nothing begins and nothing else happens but that what has begun ends (`Happening.marks`).  All of it is said of the
evaluation itself in `Context.evaluation_orderly`.
-/

namespace Rowwise

/-- A property of all happenings holds of a run if it holds of its course. -/
theorem Happening.induction {P : Happening → Prop} (event : ∀ e, P (event e))
    (run : ∀ place n course outcome, (∀ k ∈ course, P k) → P (run place n course outcome)) : ∀ h, P h
  | .event e => event e
  | .run place n course outcome => run place n course outcome fun k _ => Happening.induction event run k

/-! ### Where runs begin -/

mutual

/-- The ways to all runs in a happening, in the order in which they begin. -/
def Happening.starts : Happening → List (List Nat)
  | .event _ => []
  | .run place _ course _ => [place] :: (allStarts course).map (place :: ·)

/-- The ways to all runs in a course. -/
def allStarts : List Happening → List (List Nat)
  | [] => []
  | h :: hs => h.starts ++ allStarts hs

end

theorem allStarts_eq (course : List Happening) : allStarts course = course.flatMap Happening.starts := by
  induction course with
  | nil => rfl
  | cons h hs ih => rw [allStarts, ih, List.flatMap_cons]

namespace Happening

/-- The way to a run in a happening begins with the place of the happening. -/
theorem exists_of_mem_starts {h : Happening} {way : List Nat} (hway : way ∈ h.starts) :
    ∃ place rest, h.place? = some place ∧ way = place :: rest := by
  cases h with
  | event e => cases hway
  | run place n course outcome =>
    rw [starts] at hway
    obtain rfl | hway := List.mem_cons.1 hway
    · exact ⟨place, [], rfl, rfl⟩
    · obtain ⟨way', -, rfl⟩ := List.mem_map.1 hway
      exact ⟨place, way', rfl, rfl⟩

/-- Runs begin in the order in which they stand: one before those within it, and those to the left first. -/
theorem Orderly.starts_ascending {h : Happening} (hh : h.Orderly) : h.starts.Pairwise (· < ·) := by
  induction h using Happening.induction with
  | event e => exact .nil
  | run place n course outcome ih =>
    obtain ⟨hrun, hcourse⟩ := orderly_run.1 hh
    have hall : (allStarts course).Pairwise (· < ·) := by
      rw [allStarts_eq]
      refine List.pairwise_flatMap.2 ⟨fun k hk => ih k hk (hcourse k hk), ?_⟩
      refine (List.pairwise_filterMap.1 hrun.ascending).imp fun hplaces way hway way' hway' => ?_
      obtain ⟨i, rest, hi, rfl⟩ := exists_of_mem_starts hway
      obtain ⟨j, rest', hj, rfl⟩ := exists_of_mem_starts hway'
      exact List.cons_lt_cons_iff.2 (Or.inl (hplaces i hi j hj))
    rw [starts]
    refine List.pairwise_cons.2 ⟨fun way hway => ?_, List.pairwise_map.2 (hall.imp fun hlt => ?_)⟩
    · obtain ⟨way', hway', rfl⟩ := List.mem_map.1 hway
      rw [allStarts_eq] at hway'
      obtain ⟨k, -, hk⟩ := List.mem_flatMap.1 hway'
      obtain ⟨i, rest, -, rfl⟩ := exists_of_mem_starts hk
      exact List.cons_lt_cons_iff.2 (Or.inr ⟨rfl, List.nil_lt_cons _ _⟩)
    · exact List.cons_lt_cons_iff.2 (Or.inr ⟨rfl, hlt⟩)

end Happening

/-! ### What happens after a fault -/

/-- What a happening consists of, one thing after the other. -/
inductive Mark where
  /-- The run of a node begins. -/
  | begins
  | event (e : Event)
  /-- The run of a node ends, with a value or without. -/
  | ends (hasValue : Bool)

/-- True for the end of a run without a value. -/
def Mark.isFault : Mark → Bool
  | ends hasValue => !hasValue
  | begins | event _ => false

/-- True for what may happen after a fault: other runs end without a value, and texts are closed. -/
def Mark.isUnwinding : Mark → Bool
  | ends hasValue => !hasValue
  | event e => e = .closed
  | begins => false

mutual

/-- The marks of a happening, in order. -/
def Happening.marks : Happening → List Mark
  | .event e => [.event e]
  | .run _ _ course outcome => .begins :: (allMarks course ++ [.ends outcome.isOk])

/-- The marks of a course, in order. -/
def allMarks : List Happening → List Mark
  | [] => []
  | h :: hs => h.marks ++ allMarks hs

end

theorem allMarks_eq (course : List Happening) : allMarks course = course.flatMap Happening.marks := by
  induction course with
  | nil => rfl
  | cons h hs ih => rw [allMarks, ih, List.flatMap_cons]

namespace Happening

/-- A run that ends with a value has no fault within it. -/
theorem Orderly.faultless {h : Happening} (hh : h.Orderly) (hfailed : h.hasFailed = false) :
    ∀ m ∈ h.marks, m.isFault = false := by
  induction h using Happening.induction with
  | event e => simp [marks, Mark.isFault]
  | run place n course outcome ih =>
    obtain ⟨hrun, hcourse⟩ := orderly_run.1 hh
    have hok : outcome.isOk = true := by simpa [hasFailed] using hfailed
    intro m hm
    simp only [marks, List.mem_cons, List.mem_append, List.not_mem_nil, or_false] at hm
    obtain rfl | hm | rfl := hm
    · rfl
    · rw [allMarks_eq] at hm
      obtain ⟨k, hk, hm⟩ := List.mem_flatMap.1 hm
      exact ih k hk (hcourse k hk) (hrun.fails hok k hk) m hm
    · simp [Mark.isFault, hok]

/-- After a fault nothing begins, and nothing happens but that what has begun ends. -/
theorem Orderly.marks_stop {h : Happening} (hh : h.Orderly) :
    h.marks.Pairwise fun m m' => m.isFault = true → m'.isUnwinding = true := by
  induction h using Happening.induction with
  | event e => exact List.pairwise_singleton _ _
  | run place n course outcome ih =>
    obtain ⟨hrun, hcourse⟩ := orderly_run.1 hh
    have hfault : ∀ k ∈ course, ∀ m ∈ k.marks, m.isFault = true → k.hasFailed = true := by
      intro k hk m hm hf
      by_cases hfailed : k.hasFailed = true
      · exact hfailed
      · have hnone := (hcourse k hk).faultless (Bool.eq_false_iff.2 hfailed) m hm
        rw [hf] at hnone
        cases hnone
    have hall : (allMarks course).Pairwise fun m m' => m.isFault = true → m'.isUnwinding = true := by
      rw [allMarks_eq]
      refine List.pairwise_flatMap.2 ⟨fun k hk => ih k hk (hcourse k hk), ?_⟩
      refine hrun.stops.imp_of_mem fun hk _ hstops m hm m' hm' hf => ?_
      rw [hstops (hfault _ hk m hm hf)] at hm'
      cases List.mem_singleton.1 hm'
      rfl
    rw [marks]
    refine List.pairwise_cons.2 ⟨fun m _ => nofun, List.pairwise_append.2 ⟨hall, List.pairwise_singleton _ _, ?_⟩⟩
    intro m hm m' hm' hf
    cases List.mem_singleton.1 hm'
    rw [allMarks_eq] at hm
    obtain ⟨k, hk, hm⟩ := List.mem_flatMap.1 hm
    -- the node fails with the one in its course
    cases hok : outcome.isOk with
    | false => rfl
    | true =>
      have hfailed := hfault k hk m hm hf
      rw [hrun.fails hok k hk] at hfailed
      cases hfailed

end Happening

/-! ### The whole evaluation -/

namespace Context

variable (c : Context)

/-- The evaluation of a node as one happening. -/
def wholeRun (fuel : Nat) (n : Node) (w : World) : Happening :=
  .run 0 n ((c.recorded fuel n).course w) ((c.evaluateWithin fuel n).exec w).1

/-- An evaluation runs each occurrence of a node once at most, and the occurrences in the order in which they stand, from
left to right.  After the first fault nothing begins.  The run of every node in it, however deep, is in order as well: only
subnodes run, all of them if the node does not select and does not fail, and a choice runs its condition and then the branch
that the condition selects, or none.  The record of all this is that of the evaluation itself, with the same outcome, world
and events. -/
theorem evaluation_orderly (fuel : Nat) (n : Node) (w : World) :
    ((c.recorded fuel n).run = c.evaluateWithin fuel n ∧
      ((c.evaluateWithin fuel n).exec w).2.events = (c.wholeRun fuel n w).events.reverse ++ w.events) ∧
    ((c.wholeRun fuel n w).starts.Nodup ∧ (c.wholeRun fuel n w).starts.Pairwise (· < ·)) ∧
    ((c.wholeRun fuel n w).marks.Pairwise fun m m' => m.isFault = true → m'.isUnwinding = true) ∧
    ∀ place m course outcome, (c.wholeRun fuel n w).Contains (.run place m course outcome) →
      m.InOrder course outcome := by
  have hrun : (c.recorded fuel n).run = c.evaluateWithin fuel n := run_recorded fuel n
  have hevents := (c.recorded fuel n).events_eq w
  have hkeeps := c.recorded_keeps fuel n w
  rw [hrun] at hevents hkeeps
  have horderly : (c.wholeRun fuel n w).Orderly := Happening.orderly_run.2 hkeeps
  have hnodup : (c.wholeRun fuel n w).starts.Nodup := horderly.starts_ascending.imp fun hlt heq => by
    subst heq
    exact List.lt_irrefl _ hlt
  exact ⟨⟨hrun, hevents⟩, ⟨hnodup, horderly.starts_ascending⟩, horderly.marks_stop, horderly⟩

/-- A choice whose condition holds runs the condition and then the first of its branches. -/
example (no : Node) : (c.wholeRun 0 (.choose .text (.varying (.boolean (some true))) .now no) {}).starts =
    [[0], [0, 0], [0, 1]] := rfl

end Context

end Rowwise
