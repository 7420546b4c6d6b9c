import Rowwise.Proofs.Patterns.Groups

/-!
# Rowwise.Proofs.Patterns.Parts — reading parts and alternatives with more characters behind a pattern

Parts, their repetitions, groups and alternatives are read the same way with more characters behind the pattern, until a reader
goes astray (`Regex.tracks_alternatives_parts`).
-/

namespace Rowwise.Regex

open PatternReader

variable {s t : PatternState} {T cs : List Char}

/-! ### What is left -/

theorem leaves_plainPart {c : Char} (hs : s.rest = c :: cs) : Leaves (plainPart c) s cs := by
  unfold plainPart
  refine .after flags_apply ?_
  split <;> refine (leaves_pass hs).bind fun _ => ?_
  all_goals try infer_instance
  refine .bind inferInstance fun e => ?_
  cases e <;> infer_instance

instance {c : Char} : Shrinks (plainPart c) := by
  unfold plainPart
  refine .bind inferInstance fun f => ?_
  split <;> try infer_instance
  refine .bind inferInstance fun _ => .bind inferInstance fun e => ?_
  cases e <;> infer_instance

/-- The greatest count behind a comma. -/
def countsTo (least : Nat) : PatternReader (Nat × Option Nat) := do
  if (← peek) = some '\x7d' then
    pass
    return (least, none)
  let most ← need (← count)
  expect '\x7d'
  if least ≤ most then return (least, some most) else refuse

/-- The counts in braces behind the first of them. -/
def countsBehind (least : Option Nat) : PatternReader (Nat × Option Nat) := do
  if (← peek) = some ',' then
    step
    let least ← need least
    countsTo least
  else
    let least ← need least
    expect '\x7d'
    return (least, some least)

theorem counts_eq : counts = step >>= fun _ => count >>= countsBehind := rfl

instance {least : Nat} : Shrinks (countsTo least) := by
  unfold countsTo
  infer_instance

instance {least : Option Nat} : Shrinks (countsBehind least) := by
  unfold countsBehind
  infer_instance

theorem leaves_counts {c : Char} (hs : s.rest = c :: cs) : Leaves counts s cs := by
  rw [counts_eq]
  exact (leaves_step hs).bind fun _ => inferInstance

instance : Shrinks counts := by
  rw [counts_eq]
  infer_instance

instance : Shrinks greed := by
  unfold greed
  infer_instance

theorem leaves_repetition? {c : Char} (hc : c = '*' ∨ c = '+' ∨ c = '?' ∨ c = '\x7b') (hs : s.rest = c :: cs) :
    Leaves (repetition? c) s cs := by
  rcases hc with rfl | rfl | rfl | rfl
  · exact (leaves_pass hs).bind fun _ => inferInstance
  · exact (leaves_pass hs).bind fun _ => inferInstance
  · exact (leaves_pass hs).bind fun _ => inferInstance
  · exact (leaves_counts hs).bind fun _ => inferInstance

instance {c : Char} : Shrinks (repetition? c) := by
  unfold repetition?
  split <;> infer_instance

instance {greedy : Bool} {r : Regex} {least : Nat} {most : Option Nat} : Shrinks (repeatPart greedy r least most) := by
  unfold repeatPart
  exact .ite inferInstance (.bind (.modify fun _ => rfl) fun _ => inferInstance)

/-- The part read last with the repetition that comes next, and the parts behind it. -/
def repetitionOn (n : Nat) (before : List Regex) (repeatable : Bool) (c : Char) : PatternReader Regex :=
  match before, repeatable with
  | r :: before, true => do
    let (least, most, greedy) ← need (← repetition? c)
    let r ← repeatPart greedy r least most
    parts n (r :: before) true
  | _, _ => refuse

/-- The end of a group, and the parts behind it. -/
def groupEnd (n : Nat) (before : List Regex) (index : Option Nat) (outside : Flags) (r : Regex) : PatternReader Regex := do
  expect ')'
  setFlags outside
  parts n ((match index with
    | some i => .group i r
    | none => r) :: before) true

/-- What an opening parenthesis starts, and the parts behind it. -/
def openingOn (n : Nat) (before : List Regex) : Opening → PatternReader Regex
  | .flags f => do
    setFlags f
    parts n before false
  | .group index inside => do
    let outside ← flags
    setFlags inside
    let r ← alternatives n
    groupEnd n before index outside r

/-- The parts from one with this character in front. -/
def partsOn (n : Nat) (before : List Regex) (repeatable : Bool) (c : Char) : PatternReader Regex :=
  if c = '|' ∨ c = ')' then return sequence before
  else if c = '*' ∨ c = '+' ∨ c = '?' ∨ c = '\x7b' then repetitionOn n before repeatable c
  else if c = '(' then do
    pass
    let o ← opening
    openingOn n before o
  else do
    let r ← plainPart c
    parts n (r :: before) true

theorem parts_succ {n : Nat} {before : List Regex} {repeatable : Bool} : parts (n + 1) before repeatable = (do
    space
    match ← peek with
    | none => return sequence before
    | some c => partsOn n before repeatable c) := by
  rw [parts]
  refine congrArg _ (funext fun _ => congrArg _ (funext fun o => ?_))
  cases o with
  | none => rfl
  | some c =>
    refine ite_congr rfl (fun _ => rfl) fun _ => ite_congr rfl (fun _ => ?_) fun _ => ite_congr rfl (fun _ => ?_) fun _ => rfl
    · cases before with
      | nil => rfl
      | cons r before =>
        cases repeatable with
        | false => rfl
        | true =>
          dsimp only [repetitionOn]
          refine congrArg _ (funext fun o => ?_)
          cases o <;> rfl
    · refine congrArg _ (funext fun _ => congrArg _ (funext fun o => ?_))
      cases o <;> rfl

theorem alternatives_succ {n : Nat} : alternatives (n + 1) = (do
    let first ← parts n [] false
    if (← peek) = some '|' then do
      pass
      let others ← alternatives n
      return .alt first others
    else return first) := by
  rw [alternatives]

theorem shrinks_parts (n : Nat) :
    Shrinks (alternatives n) ∧ ∀ before repeatable, Shrinks (parts n before repeatable) := by
  induction n with
  | zero =>
    unfold alternatives parts
    exact ⟨inferInstance, fun _ _ => inferInstance⟩
  | succ n ih =>
    obtain ⟨halternatives, hparts⟩ := ih
    constructor
    · rw [alternatives_succ]
      infer_instance
    · intro before repeatable
      rw [parts_succ]
      refine .bind inferInstance fun _ => .bind inferInstance fun o => ?_
      cases o with
      | none => infer_instance
      | some c =>
        refine .ite inferInstance (.ite ?_ (.ite (.bind inferInstance fun _ => .bind inferInstance fun o => ?_) inferInstance))
        · unfold repetitionOn
          split <;> infer_instance
        · cases o with
          | flags f => exact .bind inferInstance fun _ => inferInstance
          | group index inside =>
            exact .bind inferInstance fun _ => .bind inferInstance fun _ => .bind inferInstance fun _ =>
              .bind inferInstance fun _ => inferInstance

instance {n : Nat} : Shrinks (alternatives n) := (shrinks_parts n).1

instance {n : Nat} {before : List Regex} {repeatable : Bool} : Shrinks (parts n before repeatable) :=
  (shrinks_parts n).2 before repeatable

instance {n : Nat} {before : List Regex} {index : Option Nat} {outside : Flags} {r : Regex} :
    Shrinks (groupEnd n before index outside r) := by
  unfold groupEnd
  infer_instance

instance {n : Nat} {before : List Regex} {o : Opening} : Shrinks (openingOn n before o) := by
  cases o <;> exact .bind inferInstance fun _ => inferInstance

/-! ### Repetitions -/

theorem tracks_countsTo {least : Nat} : Tracks Beyond (countsTo least) (fun _ => countsTo least) s := by
  have hmost {t : PatternState} : Tracks Beyond
      (count >>= fun o => need o >>= fun most => expect '\x7d' >>= fun _ =>
        if least ≤ most then pure (least, some most) else refuse)
      (fun _ => count >>= fun o => need o >>= fun most => expect '\x7d' >>= fun _ =>
        if least ≤ most then pure (least, some most) else refuse) t :=
    tracks_count.bind fun _ _ _ => Tracks.still.bind fun _ _ _ => tracks_expect.bind fun _ _ _ => .still
  exact .peek (fun c cs hs => .ite (fun _ => .pass hs .still) fun _ => hmost) fun _ => hmost

theorem tracks_countsBehind {least : Option Nat} : Tracks Beyond (countsBehind least) (fun _ => countsBehind least) s := by
  have hleast {t : PatternState} : Tracks Beyond
      (need least >>= fun least => expect '\x7d' >>= fun _ => pure (least, some least))
      (fun _ => need least >>= fun least => expect '\x7d' >>= fun _ => pure (least, some least)) t :=
    Tracks.still.bind fun _ _ _ => tracks_expect.bind fun _ _ _ => .still
  refine .peek (fun c cs hs => .ite (fun _ => ?_) fun _ => hleast) fun _ => hleast
  exact (tracks_step hs).bind fun _ _ _ => Tracks.still.bind fun _ _ _ => tracks_countsTo

theorem tracks_counts {c : Char} (hs : s.rest = c :: cs) : Tracks Beyond counts (fun _ => counts) s := by
  rw [counts_eq]
  exact (tracks_step hs).bind fun _ _ _ => tracks_count.bind fun _ _ _ => tracks_countsBehind

theorem tracks_greed : Tracks Beyond greed (fun _ => greed) s :=
  (tracks_accept (by decide)).bind fun _ _ _ => .flags .still

theorem tracks_repetition? {c : Char} (hs : s.rest = c :: cs) : Tracks Beyond (repetition? c) (fun _ => repetition? c) s := by
  unfold repetition?
  split
  · exact .pass hs (tracks_greed.bind fun _ _ _ => .still)
  · exact .pass hs (tracks_greed.bind fun _ _ _ => .still)
  · exact .pass hs (tracks_greed.bind fun _ _ _ => .still)
  · exact (tracks_counts hs).bind fun _ _ _ => tracks_space.bind fun _ _ _ => tracks_greed.bind fun _ _ _ => .still
  · exact .still

theorem tracks_repeatPart {greedy : Bool} {r : Regex} {least : Nat} {most : Option Nat} :
    Tracks Beyond (repeatPart greedy r least most) (fun _ => repeatPart greedy r least most) s :=
  .ite (fun _ => .still) fun _ => (tracks_modify fun _ => rfl).bind fun _ _ _ => .still

theorem count_of_closing (hs : s.rest = ')' :: cs) : count s = some (none, s) := by
  have hgo : goTo (s.rest.dropWhile Text.isBlank) s = some ((), s) := by
    have hdrop : s.rest.dropWhile Text.isBlank = s.rest := by
      rw [hs]
      rfl
    rw [goTo_apply, hdrop]
  have hblanks : passBlanks s = some ((), s) := by
    rw [passBlanks, bind_of_some left_apply, bind_of_some hgo]
    exact space_of_none (by rw [hs]; rfl)
  have hdigits : takeDigits s.rest.length [] s = some ([], s) := by
    refine takeDigits_of_other fun c hc => ?_
    rw [hs] at hc
    cases hc
    rfl
  rw [count, bind_of_some left_apply, bind_of_some hgo, bind_of_some left_apply, bind_of_some hdigits, bind_of_some hblanks]
  rfl

/-- A brace that the reader went back to is read as a repetition without a count. -/
theorem counts_of_opensBrace {x : Nat × Option Nat} {u : PatternState} (hT : Closing T) (hs : OpensBrace T s)
    (h : counts s = some (x, u)) : u.rest <:+ T.tail := by
  rw [counts_eq] at h
  obtain ⟨_, v, hv, h⟩ := bind_eq_some h
  have hrest := hs.2 _ v hv
  rw [hT.eq_cons_tail, List.suffix_cons_iff] at hrest
  rcases hrest with hrest | hrest
  · rw [bind_of_some (count_of_closing hrest), countsBehind, bind_of_some peek_apply, hrest, List.head?_cons,
      if_neg (by decide)] at h
    cases h
  · exact (Shrinks.leaves v x u h).trans hrest

/-! ### Parts -/

theorem tracks_plainPart {c : Char} (hs : s.rest = c :: cs) :
    Tracks (fun T _ t => t.rest <:+ T.tail ∨ OpensBrace T t) (plainPart c) (fun _ => plainPart c) s := by
  unfold plainPart
  refine .flags ?_
  split
  · refine Tracks.mono ?_ fun _ _ _ _ => Or.inl
    refine .pass hs (.left (((tracks_class _).1 _ _ ?_ fun T => ?_).bind fun _ _ _ => .still))
    · dsimp only
      omega
    · simp only [List.length_append]
      omega
  · refine .pass hs (tracks_escape.bindOr (fun T e t _ hE r u h => ?_) (fun e t _ => ?_) (fun _ _ _ _ _ => rfl) fun e => ?_)
    · rcases hE with hbeyond | ⟨⟨a, rfl⟩, hopens⟩
      · refine Or.inl (List.IsSuffix.trans ?_ hbeyond)
        cases e <;> cases h <;> exact List.suffix_refl _
      · cases h
        exact Or.inr hopens
    · cases e <;> exact .still
    · cases e <;> infer_instance
  all_goals exact .pass hs .still

theorem parts_of_end {n : Nat} {before : List Regex} {repeatable : Bool} (hs : s.rest = []) :
    parts (n + 1) before repeatable s = some (sequence before, s) := by
  rw [parts_succ, bind_of_some (space_of_none (by rw [hs]; rfl)), bind_of_some peek_apply, hs]
  rfl

theorem alternatives_of_end {n : Nat} (hs : s.rest = []) : alternatives (n + 2) s = some (.empty, s) := by
  rw [alternatives_succ, bind_of_some (parts_of_end hs), bind_of_some peek_apply, hs]
  rfl

/-- Where nothing is left it does not matter how many rounds there are. -/
theorem parts_eq_of_end {n n' : Nat} {before : List Regex} {repeatable : Bool} (hn : 1 ≤ n) (hn' : n ≤ n') (hs : s.rest = []) :
    parts n' before repeatable s = parts n before repeatable s := by
  obtain ⟨k, rfl⟩ := Nat.exists_eq_add_of_le' hn
  obtain ⟨k', rfl⟩ := Nat.exists_eq_add_of_le' (Nat.le_trans hn hn')
  rw [parts_of_end hs, parts_of_end hs]

theorem groupEnd_of_end {n : Nat} {before : List Regex} {index : Option Nat} {outside : Flags} {r : Regex}
    (hs : s.rest = []) : groupEnd n before index outside r s = none := by
  have hexpect : expect ')' s = none := by
    rw [expect, bind_of_some peek_apply, hs]
    rfl
  exact bind_of_none hexpect

theorem group_of_end {n : Nat} {before : List Regex} {index : Option Nat} {outside : Flags} (hn : 2 ≤ n)
    (hs : s.rest = []) : (alternatives n >>= groupEnd n before index outside) s = none := by
  obtain ⟨k, rfl⟩ := Nat.exists_eq_add_of_le' hn
  rw [bind_of_some (alternatives_of_end hs), groupEnd_of_end hs]

/-- A brace that the reader went back to passes the parenthesis or is refused. -/
theorem parts_of_opensBrace {n : Nat} {before : List Regex} {repeatable : Bool} {r : Regex} {u : PatternState}
    (hT : Closing T) (hs : OpensBrace T s) (h : parts n before repeatable s = some (r, u)) : u.rest <:+ T.tail := by
  obtain ⟨cs, hcs⟩ := List.head?_eq_some_iff.1 hs.1
  cases n with
  | zero => cases h
  | succ n =>
    rw [parts_succ, bind_of_some (space_of_none (by rw [hcs]; rfl)), bind_of_some peek_apply, hcs] at h
    have hrepetition : repetitionOn n before repeatable '\x7b' s = some (r, u) := h
    unfold repetitionOn at hrepetition
    split at hrepetition
    · rename_i first _
      have hcounts : repetition? '\x7b' = counts >>= fun x => space >>= fun _ => greed >>= fun greedy =>
        pure (some (x.1, x.2, greedy)) := rfl
      rw [hcounts, bind_assoc] at hrepetition
      obtain ⟨x, v, hv, hbehind⟩ := bind_eq_some hrepetition
      exact (Shrinks.leaves v r u hbehind).trans (counts_of_opensBrace hT hs hv)
    · cases hrepetition

section Parts

variable {k : Nat} {k' : List Char → Nat} (hk' : ∀ T, k ≤ k' T)
  (hparts : ∀ (before : List Regex) (repeatable : Bool) (s : PatternState), 2 * s.rest.length + 1 ≤ k →
    Tracks Beyond (parts k before repeatable) (fun T => parts (k' T) before repeatable) s)
  {before : List Regex} {repeatable : Bool}

include hk' hparts

theorem tracks_repetitionOn {c : Char} (hc : c = '*' ∨ c = '+' ∨ c = '?' ∨ c = '\x7b') (hs : s.rest = c :: cs)
    (hk : 2 * cs.length + 2 ≤ k) :
    Tracks Beyond (repetitionOn k before repeatable c) (fun T => repetitionOn (k' T) before repeatable c) s := by
  unfold repetitionOn
  split
  · refine (tracks_repetition? hs).bindWith (fun o t ht => ?_) fun o t ht hend T => ?_
    · have hlength := (leaves_repetition? hc hs o t ht).length_le
      cases o with
      | none => exact .needNone
      | some x =>
        refine .need (tracks_repeatPart.bindWith (fun r u hu => hparts _ _ u ?_) fun r u _ hend T => ?_)
        · have := (Shrinks.leaves t r u hu).length_le
          omega
        · exact parts_eq_of_end (by omega) (hk' T) hend
    · refine bind_congr_some fun x u hu => bind_congr_some fun r v hv => parts_eq_of_end (by omega) (hk' T) ?_
      exact Shrinks.rest_eq_nil inferInstance (Shrinks.rest_eq_nil inferInstance hend hu) hv
  · exact .still

theorem tracks_setFlags_parts {f : Flags} (hk : 2 * s.rest.length + 1 ≤ k) :
    Tracks Beyond (setFlags f >>= fun _ => parts k before repeatable)
      (fun T => setFlags f >>= fun _ => parts (k' T) before repeatable) s := by
  refine tracks_setFlags.bindWith (fun _ t ht => hparts _ _ t ?_) fun _ t _ hend T => ?_
  · cases ht
    exact hk
  · exact parts_eq_of_end (by omega) (hk' T) hend

omit hparts in
theorem setFlags_parts_of_end {f : Flags} (hk : 1 ≤ k) (hs : s.rest = []) (T : List Char) :
    (setFlags f >>= fun _ => parts (k' T) before repeatable) s = (setFlags f >>= fun _ => parts k before repeatable) s :=
  bind_congr_some fun _ _ ht => parts_eq_of_end hk (hk' T) (Shrinks.rest_eq_nil inferInstance hs ht)

theorem tracks_groupEnd {index : Option Nat} {outside : Flags} {r : Regex} (hk : 2 * s.rest.length + 1 ≤ k) :
    Tracks Beyond (groupEnd k before index outside r) (fun T => groupEnd (k' T) before index outside r) s := by
  refine tracks_expect.bindWith (fun _ t ht => tracks_setFlags_parts hk' hparts ?_) fun _ t _ hend T =>
    setFlags_parts_of_end hk' (by omega) hend T
  have := (Shrinks.leaves s _ t ht).length_le
  omega

omit hparts in
theorem group_eq_of_end {index : Option Nat} {outside : Flags} (hk : 2 ≤ k) (hs : s.rest = []) (T : List Char) :
    (alternatives (k' T) >>= groupEnd (k' T) before index outside) s =
      (alternatives k >>= groupEnd k before index outside) s :=
  (group_of_end (Nat.le_trans hk (hk' T)) hs).trans (group_of_end hk hs).symm

section Inside

variable (halternatives : ∀ s : PatternState, 2 * s.rest.length + 2 ≤ k →
  Tracks Beyond (alternatives k) (fun T => alternatives (k' T)) s)

include halternatives

theorem tracks_group {index : Option Nat} {outside : Flags} (hk : 2 * s.rest.length + 2 ≤ k) :
    Tracks Beyond (alternatives k >>= groupEnd k before index outside)
      (fun T => alternatives (k' T) >>= groupEnd (k' T) before index outside) s := by
  refine (halternatives s hk).bindWith (fun r u hu => tracks_groupEnd hk' hparts ?_) fun r u _ hend T => ?_
  · have := (Shrinks.leaves s r u hu).length_le
    omega
  · exact (groupEnd_of_end hend).trans (groupEnd_of_end hend).symm

theorem tracks_openingOn {o : Opening} (hk : 2 * s.rest.length + 2 ≤ k) :
    Tracks Beyond (openingOn k before o) (fun T => openingOn (k' T) before o) s := by
  cases o with
  | flags f => exact tracks_setFlags_parts hk' hparts (by omega)
  | group index inside =>
    refine .flags (tracks_setFlags.bindWith (fun _ t ht => ?_) fun _ t _ hend T => ?_)
    · cases ht
      exact tracks_group hk' hparts halternatives hk
    · exact group_eq_of_end hk' (by omega) hend T

end Inside

omit hparts in
theorem openingOn_eq_of_end {o : Opening} (hk : 2 ≤ k) (hs : s.rest = []) (T : List Char) :
    openingOn (k' T) before o s = openingOn k before o s := by
  cases o with
  | flags f => exact setFlags_parts_of_end hk' (by omega) hs T
  | group index inside =>
    refine bind_congr_some fun outside t ht => bind_congr_some fun _ u hu => ?_
    have hu : u.rest = [] := Shrinks.rest_eq_nil inferInstance (Shrinks.rest_eq_nil inferInstance hs ht) hu
    exact group_eq_of_end hk' hk hu T

theorem tracks_partsOn {c : Char} (hs : s.rest = c :: cs) (hk : 2 * cs.length + 2 ≤ k)
    (halternatives : ∀ s : PatternState, 2 * s.rest.length + 2 ≤ k →
      Tracks Beyond (alternatives k) (fun T => alternatives (k' T)) s) :
    Tracks Beyond (partsOn k before repeatable c) (fun T => partsOn (k' T) before repeatable c) s := by
  refine .ite (fun _ => .still) fun _ => .ite (fun hc => ?_) fun _ => .ite (fun _ => .pass hs ?_) fun _ => ?_
  · exact tracks_repetitionOn hk' hparts hc hs hk
  · refine tracks_opening.bindWith (fun o t ht => ?_) fun o t _ hend T => openingOn_eq_of_end hk' (by omega) hend T
    have := (Shrinks.leaves _ o t ht).length_le
    exact tracks_openingOn hk' hparts halternatives (by dsimp only at this; omega)
  · refine (tracks_plainPart hs).bindOr (fun T r t hT hE b u h => ?_) (fun r t ht => hparts _ _ t ?_)
      (fun r t ht hend T => parts_eq_of_end (by omega) (hk' T) hend) inferInstance
    · rcases hE with hbeyond | hopens
      · exact (Shrinks.leaves t b u h).trans hbeyond
      · exact parts_of_opensBrace hT hopens h
    · have := (leaves_plainPart hs r t ht).length_le
      omega

end Parts

theorem tracks_alternatives_parts (n : Nat) :
    (∀ (s : PatternState) (n' : List Char → Nat), 2 * s.rest.length + 2 ≤ n → (∀ T, n ≤ n' T) →
      Tracks Beyond (alternatives n) (fun T => alternatives (n' T)) s) ∧
    (∀ (before : List Regex) (repeatable : Bool) (s : PatternState) (n' : List Char → Nat), 2 * s.rest.length + 1 ≤ n →
      (∀ T, n ≤ n' T) → Tracks Beyond (parts n before repeatable) (fun T => parts (n' T) before repeatable) s) := by
  induction n with
  | zero => exact ⟨fun _ _ hn => absurd hn (by omega), fun _ _ _ _ hn => absurd hn (by omega)⟩
  | succ n ih =>
    obtain ⟨halternatives, hparts⟩ := ih
    constructor
    · intro s n' hn hn'
      obtain ⟨k', rfl, hk'⟩ := exists_succ hn'
      simp only [alternatives_succ]
      refine (hparts [] false s k' (by omega) hk').bindWith (fun first t ht => ?_) fun first t _ hend T => ?_
      · have hlength := (Shrinks.leaves s first t ht).length_le
        refine .peek (fun c cs hs => .ite (fun _ => .pass hs ?_) fun _ => .still) fun _ =>
          (Tracks.still : Tracks Beyond (pure first) (fun _ => pure first) t)
        rw [hs, List.length_cons] at hlength
        exact (halternatives _ k' (by dsimp only; omega) hk').bind fun _ _ _ => .still
      · rw [bind_of_some peek_apply, bind_of_some peek_apply, hend]
        rfl
    · intro before repeatable s n' hn hn'
      obtain ⟨k', rfl, hk'⟩ := exists_succ hn'
      simp only [parts_succ]
      refine .space (parts_succ ▸ inferInstance) (fun T => parts_succ ▸ inferInstance) (fun t ht => ?_) fun t ht hnil T => ?_
      · have htn := (Shrinks.leaves s _ t ht).length_le
        refine .peek (fun c cs hs => ?_) fun _ => ?_
        · rw [hs, List.length_cons] at htn
          exact tracks_partsOn hk' (fun b r s hs => hparts b r s k' hs hk') hs (by omega) fun s hs => halternatives s k' hs hk'
        · exact .still
      · rw [bind_of_some peek_apply, bind_of_some peek_apply, hnil]
        rfl

end Rowwise.Regex
