import Rowwise.Proofs.Patterns.Tracking

/-!
# Rowwise.Proofs.Patterns.Ranges — reading characters and ranges of classes with more characters behind a pattern

A comment behind a hyphen may reach beyond the pattern, to the character that tells whether the hyphen makes a range.  If it makes
none, the reader has passed neither the hyphen nor the parenthesis, but what reads on from there is astray (`Regex.OpensRange`).
-/

namespace Rowwise.Regex

open PatternReader

variable {α β : Type} {m : PatternReader α} {f : α → PatternReader β} {s t : PatternState} {T cs ds : List Char} {a : α}

/-! ### What is left -/

theorem leaves_classItem {c : Char} (hs : s.rest = c :: cs) : Leaves classItem s cs := by
  unfold classItem
  refine .after peek_apply ?_
  split
  · exact (leaves_pass hs).bind fun _ => inferInstance
  · refine .after peek_apply ?_
    rw [hs, List.head?_cons]
    exact .after rfl ((leaves_pass hs).bind fun _ => inferInstance)

theorem classItem_of_plain {c : Char} (hs : s.rest = c :: cs) (hc : c ≠ '\\') :
    classItem s = some (.character c, { s with rest := cs }) := by
  rw [classItem, bind_of_some peek_apply, hs, List.head?_cons, if_neg fun heq => hc (Option.some.inj heq),
    bind_of_some peek_apply, hs]
  change some (Escaped.character c, { s with rest := s.rest.drop 1 }) = _
  rw [hs]
  rfl

theorem classItem_of_end (hs : s.rest = []) : classItem s = none := by
  rw [classItem, bind_of_some peek_apply, hs, List.head?_nil, if_neg (by decide), bind_of_some peek_apply, hs]
  rfl

instance : Shrinks classItem := .of_end classItem_of_end fun hs => leaves_classItem hs

/-- True if a range of characters goes on here. -/
def rangeGoesOn (f : Flags) : List Char → Bool
  | [] => false
  | '-' :: rest =>
    match (if f.spaced then afterSpace false rest else rest).head? with
    | some c => c ≠ ']' && c ≠ '-'
    | none => true
  | _ => false

/-- The range between two characters. -/
def rangeOf? : Escaped → Escaped → Option CharClass
  | .character lo, .character hi => if lo ≤ hi then some (.range lo hi) else none
  | _, _ => none

/-- What follows the first character of a range, or an item that is no range. -/
def rangeBehind (first : Escaped) : PatternReader CharClass := do
  space
  let here ← left
  let f ← flags
  if !rangeGoesOn f here then need (itemClass first)
  else
    step
    let second ← classItem
    need (rangeOf? first second)

theorem classRange_eq : classRange = classItem >>= rangeBehind := by
  have hend {first second : Escaped} : (match first, second with
      | .character lo, .character hi => if lo ≤ hi then return .range lo hi else refuse
      | _, _ => (refuse : PatternReader CharClass)) = need (rangeOf? first second) := by
    unfold rangeOf?
    split
    · split <;> rfl
    · rfl
  unfold classRange rangeBehind
  simp only [← hend]
  rfl

instance {first : Escaped} : Shrinks (rangeBehind first) := by
  unfold rangeBehind
  infer_instance

theorem leaves_classRange {c : Char} (hs : s.rest = c :: cs) : Leaves classRange s cs := by
  rw [classRange_eq]
  exact (leaves_classItem hs).bind fun _ => inferInstance

theorem classRange_of_end (hs : s.rest = []) : classRange s = none := by
  rw [classRange_eq]
  exact bind_of_none (classItem_of_end hs)

instance : Shrinks classRange := .of_end classRange_of_end fun hs => leaves_classRange hs

/-! ### Reading with more behind -/

theorem tracks_classItem : Tracks (fun T e t => t.rest <:+ T.tail ∨ ∃ a, e = .anchor a) classItem (fun _ => classItem) s := by
  cases hs : s.rest with
  | nil => exact (Tracks.of_end hs (classItem_of_end hs) fun T u hu => leaves_classItem hu).mono fun _ _ _ _ => Or.inl
  | cons c cs =>
    refine .peek (fun d ds hd => .ite (fun _ => .pass hd ?_) fun _ => ?_) fun hnil => ?_
    · exact tracks_escape.mono fun _ _ _ _ => Or.imp_right And.left
    · refine .peek (fun d ds hd => .need (.pass hd .still)) fun hnil => ?_
      rw [hs] at hnil
      cases hnil
    · rw [hs] at hnil
      cases hnil

theorem bind_refuses (hf : ∀ a t, f a t = none) : (m >>= f) s = none := by
  rw [bind_apply, Option.bind_eq_none_iff]
  exact fun x _ => hf x.1 x.2

/-- An edge of a word is no item of a class. -/
theorem rangeBehind_anchor {b : Anchor} : rangeBehind (.anchor b) s = none := by
  refine bind_refuses fun _ t => ?_
  rw [bind_of_some left_apply, bind_of_some flags_apply]
  split
  · rfl
  · exact bind_refuses fun _ _ => bind_refuses fun e _ => by cases e <;> rfl

theorem rangeGoesOn_hyphen {fl : Flags} : rangeGoesOn fl ('-' :: cs) =
    (match (if fl.spaced then afterSpace false cs else cs).head? with
      | some c => c ≠ ']' && c ≠ '-'
      | none => true) := rfl

theorem rangeGoesOn_other {fl : Flags} (h : cs.head? ≠ some '-') : rangeGoesOn fl cs = false := by
  unfold rangeGoesOn
  split
  · rfl
  · exact absurd rfl h
  · rfl

/-- A parenthesis may be the end of a range like any other character, if the reader comes to it. -/
theorem rangeGoesOn_append (fl : Flags) (cs : List Char) : (∀ T, Closing T → rangeGoesOn fl (cs ++ T) = rangeGoesOn fl cs) ∨
    ∃ ds, cs = '-' :: ds ∧ fl.spaced = true ∧ EndsInComment false ds := by
  have hhead {ds : List Char} {T : List Char} (hT : Closing T) :
      (match (ds ++ T).head? with
        | some c => c ≠ ']' && c ≠ '-'
        | none => true) =
      (match ds.head? with
        | some c => c ≠ ']' && c ≠ '-'
        | none => true : Bool) := by
    obtain ⟨T, rfl⟩ := hT
    cases ds <;> rfl
  by_cases hcs : cs.head? = some '-'
  · obtain ⟨ds, rfl⟩ := List.head?_eq_some_iff.1 hcs
    simp only [List.cons_append, rangeGoesOn_hyphen]
    by_cases hspaced : fl.spaced = true
    · simp only [hspaced, if_true]
      rcases afterSpace_append false ds with hsame | hcomment
      · refine Or.inl fun T hT => ?_
        rw [hsame T hT]
        exact hhead hT
      · exact Or.inr ⟨ds, rfl, trivial, hcomment⟩
    · simp only [if_neg hspaced]
      exact Or.inl fun T hT => hhead hT
  · refine Or.inl fun T hT => ?_
    rw [rangeGoesOn_other hcs, rangeGoesOn_other]
    cases cs with
    | nil =>
      rw [List.nil_append, hT.head?]
      decide
    | cons c cs => exact hcs

/-- A hyphen with a comment behind it that the pattern ends within. -/
def OpensRange (T : List Char) (t : PatternState) : Prop :=
  ∃ cs, t.rest = '-' :: cs ∧ T <:+ cs ∧ t.flags.spaced = true ∧ afterSpace false cs <:+ T.tail

theorem rangeOf?_anchor {e : Escaped} {b : Anchor} : rangeOf? e (.anchor b) = none := by
  cases e <;> rfl

theorem tracks_rangeEnd {first : Escaped} {c : Char} (hs : s.rest = c :: cs) : Tracks Beyond
    (step >>= fun _ => classItem >>= fun second => need (rangeOf? first second))
    (fun _ => step >>= fun _ => classItem >>= fun second => need (rangeOf? first second)) s := by
  refine (tracks_step hs).bind fun _ _ _ => ?_
  refine tracks_classItem.bindOr (fun T e t _ hE c u h => ?_) (fun _ _ _ => .still) (fun _ _ _ _ _ => rfl) inferInstance
  rcases hE with hbeyond | ⟨b, rfl⟩
  · exact (Shrinks.leaves t c u h).trans hbeyond
  · rw [rangeOf?_anchor] at h
    cases h

theorem tracks_rangeBehind {first : Escaped} : Tracks (fun T _ t => t.rest <:+ T.tail ∨ OpensRange T t)
    (rangeBehind first) (fun _ => rangeBehind first) s := by
  unfold rangeBehind
  refine tracks_space.bindOr (fun T _ t _ hbeyond c u h => Or.inl ?_) (fun _ t _ => .left (.flags ?_))
    (fun _ _ _ _ _ => rfl) inferInstance
  · exact (Shrinks.leaves t c u h).trans hbeyond
  · rcases rangeGoesOn_append t.flags t.rest with hsame | ⟨ds, hds, hspaced, hcomment⟩
    · refine Tracks.ofEq (.ite (fun _ => .still) fun hgoes => ?_) rfl fun T hT => by rw [hsame T hT]
      rw [Bool.not_eq_true', Bool.not_eq_false] at hgoes
      have hhead : t.rest.head? = some '-' := Decidable.byContradiction fun hother => by
        rw [rangeGoesOn_other hother] at hgoes
        cases hgoes
      obtain ⟨ds, hds⟩ := List.head?_eq_some_iff.1 hhead
      exact (tracks_rangeEnd hds).mono fun _ _ _ _ => Or.inl
    · refine .astray (fun T hT c u h => ?_) fun c u h => ?_
      · split at h
        · rw [need_apply] at h
          obtain ⟨_, -, h⟩ := Option.map_eq_some_iff.1 h
          cases h
          exact Or.inr ⟨ds ++ T, by simp [hds], List.suffix_append ds T, hspaced, (hcomment.2 T hT).1⟩
        · have hrest : (t.before T).rest = '-' :: (ds ++ T) := by rw [PatternState.before_rest, hds, List.cons_append]
          rw [bind_of_some (step_of_spaced hrest hspaced)] at h
          exact Or.inl ((Shrinks.leaves _ c u h).trans (hcomment.2 T hT).1)
      · have hgoes : rangeGoesOn t.flags t.rest = true := by
          rw [hds, rangeGoesOn_hyphen, if_pos hspaced, hcomment.1]
          rfl
        rw [hgoes, if_neg (by decide), bind_of_some (step_of_spaced hds hspaced), hcomment.1,
          bind_of_none (classItem_of_end rfl)] at h
        cases h

theorem tracks_classRange : Tracks (fun T _ t => t.rest <:+ T.tail ∨ OpensRange T t) classRange (fun _ => classRange) s := by
  rw [classRange_eq]
  refine tracks_classItem.bindOr (fun T e t _ hE c u h => ?_) (fun _ _ _ => tracks_rangeBehind) (fun _ _ _ _ _ => rfl)
    inferInstance
  rcases hE with hbeyond | ⟨b, rfl⟩
  · exact Or.inl ((Shrinks.leaves t c u h).trans hbeyond)
  · rw [rangeBehind_anchor] at h
    cases h

end Rowwise.Regex
