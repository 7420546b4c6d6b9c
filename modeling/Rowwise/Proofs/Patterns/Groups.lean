import Rowwise.Proofs.Patterns.Classes

/-!
# Rowwise.Proofs.Patterns.Groups — reading what opens a group with more characters behind a pattern

Behind an opening parenthesis there is the name of a group, flags, or neither.
-/

namespace Rowwise.Regex

open PatternReader

variable {α β : Type} {m : PatternReader α} {f : α → PatternReader β} {s t : PatternState} {T cs ds : List Char} {a : α}

/-! ### What is left -/

/-- True if a new group may have the name. -/
def newName (names : List (List Char × Nat)) (name : List Char) : Bool :=
  match name with
  | [] => false
  | c :: cs => isGroupName true c && cs.all (isGroupName false) && !(names.lookup name).isSome

/-- Goes on behind the name of a new group. -/
def nameGroup (name rest : List Char) : PatternReader Nat := do
  goTo rest
  let index ← newGroup
  modify fun s => { s with names := (name, index) :: s.names }
  return index

theorem leaves_nameGroup {name rest : List Char} : Leaves (nameGroup name rest) s rest :=
  leaves_goTo.bind fun _ => .bind inferInstance fun _ => .bind (.modify fun _ => rfl) fun _ => inferInstance

theorem namedGroup_apply : namedGroup s =
    match Text.splitAt? '>' s.rest with
    | none => none
    | some (name, rest) => if newName s.names name then nameGroup name rest s else none := by
  unfold namedGroup
  rw [bind_of_some (a := s) (t := s) rfl]
  cases Text.splitAt? '>' s.rest with
  | none => rfl
  | some x =>
    obtain ⟨name, rest⟩ := x
    cases name with
    | nil => rfl
    | cons c cs =>
      have hnew : newName s.names (c :: cs) =
          (!(!isGroupName true c || !cs.all (isGroupName false)) && !(s.names.lookup (c :: cs)).isSome) := by
        rw [newName, Bool.not_or, Bool.not_not, Bool.not_not]
      dsimp only
      rw [hnew]
      split
      · rename_i hname
        rw [hname]
        rfl
      · rename_i hname
        rw [Bool.not_eq_true] at hname
        rw [hname]
        split
        · rename_i hseen
          rw [hseen]
          rfl
        · rename_i hseen
          rw [Bool.not_eq_true] at hseen
          rw [hseen]
          rfl

instance : Shrinks namedGroup where
  leaves s b u h := by
    rw [namedGroup_apply] at h
    split at h
    · cases h
    · rename_i name rest hsplit
      split at h
      · rw [splitAt?_eq_some hsplit]
        exact (leaves_nameGroup b u h).trans ((List.suffix_cons _ _).trans (List.suffix_append _ _))
      · cases h

theorem readFlags_suffix {on : Bool} {seen seen' : List Char} {f f' : Flags} {c : Char} {rest : List Char}
    (h : readFlags on seen f cs = some (f', c, seen', rest)) : rest <:+ cs := by
  induction cs generalizing on seen f with
  | nil => simp [readFlags] at h
  | cons d cs ih =>
    rw [readFlags] at h
    split at h
    · split at h
      · cases h
      · cases h
        exact List.suffix_cons _ _
    · split at h
      · cases h
      · split at h
        · exact (ih h).trans (List.suffix_cons _ _)
        · obtain ⟨g, -, hread⟩ := Option.bind_eq_some_iff.1 h
          exact (ih hread).trans (List.suffix_cons _ _)

/-- What flags are for: a colon opens a group without a number, a parenthesis sets flags that are there. -/
def flagsFor (f : Flags) (close : Char) (seen : List Char) : PatternReader Opening :=
  if close = ':' then return .group none f
  else if seen.isEmpty then refuse
  else return .flags f

instance {f : Flags} {close : Char} {seen : List Char} : Still (flagsFor f close seen) := by
  unfold flagsFor
  infer_instance

/-- The flags behind a question mark, with what they are for. -/
def flagGroup (f : Flags) : PatternReader Opening := do
  let (f, close, seen, rest) ← need (readFlags true [] f (← left))
  goTo rest
  flagsFor f close seen

theorem leaves_flagGroup {f f' : Flags} {close : Char} {seen rest : List Char}
    (h : readFlags true [] f s.rest = some (f', close, seen, rest)) : Leaves (flagGroup f) s rest := by
  refine .after left_apply ?_
  rw [h]
  exact .after rfl (leaves_goTo.bind fun _ => inferInstance)

theorem flagGroup_of_none {f : Flags} (h : readFlags true [] f s.rest = none) : flagGroup f s = none := by
  rw [flagGroup, bind_of_some left_apply, h]
  rfl

instance {f : Flags} : Shrinks (flagGroup f) where
  leaves s := by
    cases h : readFlags true [] f s.rest with
    | none =>
      intro _ _ hs
      rw [flagGroup_of_none h] at hs
      cases hs
    | some x => exact (leaves_flagGroup h).mono (readFlags_suffix h)

/-- A group, with or without a number and a name, or flags. -/
def groupOrFlags (f : Flags) : PatternReader Opening := do
  if ← accept "?P<" then return .group (some (← namedGroup)) f
  if ← accept "?<" then return .group (some (← namedGroup)) f
  if ← accept "?" then flagGroup f
  else return .group (some (← newGroup)) f

/-- Refuses conditions on what stands around a match. -/
def refuseConditions : PatternReader PUnit :=
  forIn ["?=", "?!", "?<=", "?<!"] PUnit.unit fun ahead _ => do
    if Text.startsWith ahead.toList (← left) then refuse
    return .yield PUnit.unit

theorem opening_eq : opening = (do
    space
    let f ← flags
    let _ ← refuseConditions
    groupOrFlags f) := rfl

instance : Shrinks refuseConditions := by
  unfold refuseConditions
  infer_instance

instance {f : Flags} : Shrinks (groupOrFlags f) := by
  unfold groupOrFlags
  infer_instance

instance : Shrinks opening := by
  rw [opening_eq]
  infer_instance

/-! ### Reading with more behind -/

theorem Tracks.forIn {γ δ : Type} {xs : List γ} {b : δ} {f : γ → δ → PatternReader (ForInStep δ)} [∀ x b, Shrinks (f x b)]
    (h : ∀ x ∈ xs, ∀ b t, Tracks Beyond (f x b) (fun _ => f x b) t) :
    Tracks Beyond (ForIn.forIn xs b f) (fun _ => ForIn.forIn xs b f) s := by
  induction xs generalizing b s with
  | nil => exact (Tracks.still : Tracks Beyond (pure b) (fun _ => pure b) s)
  | cons x xs ih =>
    simp only [List.forIn_cons]
    have ih (b : δ) (t : PatternState) := ih (b := b) (s := t) fun x hx => h x (List.mem_cons_of_mem _ hx)
    refine (h x List.mem_cons_self b s).bindOr (fun T y t _ hbeyond c u hu => ?_) (fun y t _ => ?_)
      (fun _ _ _ _ _ => rfl) fun y => ?_
    · cases y with
      | done b =>
        cases hu
        exact hbeyond
      | yield b => exact (Shrinks.leaves t c u hu).trans hbeyond
    · cases y with
      | done b => exact (Tracks.still : Tracks Beyond (pure b) (fun _ => pure b) t)
      | yield b => exact ih b t
    · cases y <;> infer_instance

theorem tracks_nameGroup {name rest : List Char} :
    Tracks Beyond (nameGroup name rest) (fun T => nameGroup name (rest ++ T)) s :=
  .goTo (tracks_newGroup.bindOr (fun T _ t _ hbeyond i u h => by cases h; exact hbeyond)
    (fun index t _ => .same fun _ _ => rfl) (fun _ _ _ _ _ => rfl)
    fun index => .bind (.modify fun _ => rfl) fun _ => inferInstance)

theorem tracks_namedGroup : Tracks Beyond namedGroup (fun _ => namedGroup) s := by
  cases hsplit : Text.splitAt? '>' s.rest with
  | some x =>
    obtain ⟨name, rest⟩ := x
    have hplain : namedGroup s = if newName s.names name then nameGroup name rest s else none := by
      rw [namedGroup_apply, hsplit]
    have hlonger (T : List Char) : namedGroup (s.before T) =
        if newName s.names name then nameGroup name (rest ++ T) (s.before T) else none := by
      rw [namedGroup_apply, PatternState.before_rest, splitAt?_append, hsplit]
      rfl
    by_cases hname : newName s.names name = true
    · have hgroup : Tracks Beyond (nameGroup name rest) (fun T => nameGroup name (rest ++ T)) s := tracks_nameGroup
      exact hgroup.congr (hplain.trans (if_pos hname)) fun T _ => (hlonger T).trans (if_pos hname)
    · refine .same fun T _ => ?_
      rw [hplain, hlonger, if_neg hname, if_neg hname]
      rfl
  | none =>
    refine .astray (fun T hT i t h => ?_) fun i t h => ?_
    · rw [namedGroup_apply, PatternState.before_rest, splitAt?_append, hsplit] at h
      cases hbehind : Text.splitAt? '>' T with
      | none =>
        rw [hbehind] at h
        cases h
      | some x =>
        simp only [hbehind, Option.map_some] at h
        split at h
        · exact (leaves_nameGroup i t h).trans (splitAt?_closing (by decide) hT hbehind).2
        · cases h
    · rw [namedGroup_apply, hsplit] at h
      cases h

theorem readFlags_append (on : Bool) (seen : List Char) (f : Flags) (cs : List Char) :
    (∃ f' close seen' rest, readFlags on seen f cs = some (f', close, seen', rest) ∧
      ∀ T, readFlags on seen f (cs ++ T) = some (f', close, seen', rest ++ T)) ∨
    readFlags on seen f cs = none ∧ ∀ T, Closing T → ∀ f' close seen' rest,
      readFlags on seen f (cs ++ T) = some (f', close, seen', rest) → rest <:+ T.tail := by
  induction cs generalizing on seen f with
  | nil =>
    refine Or.inr ⟨rfl, ?_⟩
    rintro _ ⟨T, rfl⟩ f' close seen' rest h
    rw [List.nil_append, readFlags, if_pos (Or.inr rfl)] at h
    split at h
    · cases h
    · cases h
      exact List.suffix_rfl
  | cons c cs ih =>
    simp only [List.cons_append, readFlags]
    by_cases hclose : c = ':' ∨ c = ')'
    · simp only [if_pos hclose]
      by_cases hminus : seen.head? = some '-'
      · simp only [if_pos hminus]
        exact Or.inr ⟨trivial, fun _ _ _ _ _ _ h => by cases h⟩
      · simp only [if_neg hminus]
        exact Or.inl ⟨f, c, seen, cs, rfl, fun _ => rfl⟩
    · simp only [if_neg hclose]
      by_cases hseen : c ∈ seen
      · simp only [if_pos hseen]
        exact Or.inr ⟨trivial, fun _ _ _ _ _ _ h => by cases h⟩
      · simp only [if_neg hseen]
        by_cases hc : c = '-'
        · simp only [if_pos hc]
          exact ih false ('-' :: seen) f
        · simp only [if_neg hc]
          cases f.set on c with
          | none => exact Or.inr ⟨rfl, fun _ _ _ _ _ _ h => by cases h⟩
          | some g => exact ih on (c :: seen) g

theorem tracks_flagGroup {f : Flags} : Tracks Beyond (flagGroup f) (fun _ => flagGroup f) s := by
  rcases readFlags_append true [] f s.rest with ⟨f', close, seen, rest, hread, hlonger⟩ | ⟨hnone, hlonger⟩
  · have hon : Tracks Beyond (goTo rest >>= fun _ => flagsFor f' close seen)
        (fun T => goTo (rest ++ T) >>= fun _ => flagsFor f' close seen) s := .goTo .still
    refine hon.congr ?_ fun T _ => ?_
    · rw [flagGroup, bind_of_some left_apply, hread]
      rfl
    · rw [flagGroup, bind_of_some left_apply, PatternState.before_rest, hlonger]
      rfl
  · refine .astray (fun T hT o t h => ?_) fun o t h => ?_
    · cases hread : readFlags true [] f (s.before T).rest with
      | none =>
        rw [flagGroup_of_none hread] at h
        cases h
      | some x => exact (leaves_flagGroup hread o t h).trans (hlonger T hT _ _ _ _ hread)
    · rw [flagGroup_of_none hnone] at h
      cases h

theorem tracks_groupOrFlags {f : Flags} : Tracks Beyond (groupOrFlags f) (fun _ => groupOrFlags f) s := by
  have hnamed {t : PatternState} : Tracks Beyond (namedGroup >>= fun i => pure (Opening.group (some i) f))
      (fun _ => namedGroup >>= fun i => pure (Opening.group (some i) f)) t := tracks_namedGroup.bind fun _ _ _ => .still
  refine (tracks_accept (by decide)).bind fun _ _ _ => .ite (fun _ => hnamed) fun _ => ?_
  refine (tracks_accept (by decide)).bind fun _ _ _ => .ite (fun _ => hnamed) fun _ => ?_
  refine (tracks_accept (by decide)).bind fun _ _ _ => .ite (fun _ => tracks_flagGroup) fun _ => ?_
  exact tracks_newGroup.bind fun _ _ _ => .still

/-- No text that is looked for has a parenthesis in it. -/
theorem tracks_refuseConditions : Tracks Beyond refuseConditions (fun _ => refuseConditions) s := by
  have hahead : ∀ w ∈ ["?=", "?!", "?<=", "?<!"], ')' ∉ w.toList := by decide
  refine .forIn fun w hw _ t => .left ?_
  refine Tracks.still.ofEq rfl fun T hT => ?_
  rw [Text.startsWith, Text.startsWith, dropPrefix?_append (hahead w hw) hT, Option.isSome_map]

theorem tracks_opening : Tracks Beyond opening (fun _ => opening) s := by
  rw [opening_eq]
  exact tracks_space.bind fun _ _ _ => .flags (tracks_refuseConditions.bind fun _ _ _ => tracks_groupOrFlags)

end Rowwise.Regex
