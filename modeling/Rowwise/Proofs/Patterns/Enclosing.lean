import Rowwise.Eval.Build
import Rowwise.Proofs.Patterns.Matching
import Rowwise.Proofs.Patterns.Parts

/-!
# Rowwise.Proofs.Patterns.Enclosing — a pattern for the whole text

To match a whole text a pattern is put into a group between a condition for the start and one for the end of the text
(`patternSource`).  The text of the pattern is not looked at, so it may close the group itself or hide its end in a comment.
A pattern that does neither (`Regex.Enclosable`) is read in the group as it is read alone (`Regex.read_enclosed`), and no other
pattern is refused in the group exactly if it is refused alone (`readPattern_errors_iff`).
-/

namespace Rowwise.Regex

open PatternReader

variable {s t : PatternState} {T cs p front back : List Char} {r : Regex}

/-- The text is a pattern, of whatever size. -/
def IsPattern (cs : List Char) : Prop := read cs ≠ .error .malformed

/-- What stands before and behind a pattern for the whole text. -/
def enclosed (p : List Char) : List Char := "^(?:".toList ++ p ++ ")$".toList

/-- The pattern between conditions for the start and the end of the text. -/
def anchored (r : Regex) : Regex := .seq (.anchor .textStart) (.seq r (.anchor .textEnd))

/-- No closing parenthesis stands behind a whole pattern, unless a comment takes it. -/
def Balanced (p : List Char) : Prop :=
  ∀ front back, p = front ++ ')' :: back → IsPattern front → IsPattern (front ++ [')'])

/-- What is put around the pattern makes one group of it. -/
structure Enclosable (p : List Char) : Prop where
  /-- No comment at the end of the pattern takes what is put behind it. -/
  seen : IsPattern p → ¬IsPattern (p ++ [')'])
  /-- What is put around the pattern does not make one of what is none, closed from within and opened anew. -/
  balanced : IsPattern (enclosed p) → Balanced p
  /-- The conditions do not make the pattern too large. -/
  small : ∀ r names, read p = .ok (r, names) → room r + 2 ≤ maxRoom

/-! ### Reading a pattern alone -/

/-- The state before a pattern is read. -/
abbrev PatternState.of (cs : List Char) : PatternState := ⟨cs, {}, 0, [], false⟩

theorem read_of_none (h : alternatives (2 * cs.length + 3) (.of cs) = none) : read cs = .error .malformed := by
  rw [read, h]

theorem read_of_some (h : alternatives (2 * cs.length + 3) (.of cs) = some (r, s)) : read cs =
    if !s.rest.isEmpty then .error .malformed
    else if s.large || maxRoom < room r then .error .tooLarge
    else .ok (r, s.names) := by
  rw [read, h]

theorem isPattern_iff :
    IsPattern cs ↔ ∃ r s, alternatives (2 * cs.length + 3) (.of cs) = some (r, s) ∧ s.rest = [] := by
  cases h : alternatives (2 * cs.length + 3) (.of cs) with
  | none => simp [IsPattern, read_of_none h]
  | some x =>
    obtain ⟨r, s⟩ := x
    rw [IsPattern, read_of_some h]
    cases hrest : s.rest with
    | nil =>
      refine iff_of_true ?_ ⟨r, s, rfl, hrest⟩
      rw [List.isEmpty_nil, Bool.not_true, if_neg Bool.false_ne_true]
      split <;> exact nofun
    | cons c rest =>
      refine iff_of_false (fun hp => hp rfl) ?_
      rintro ⟨_, _, ⟨⟩, hnil⟩
      rw [hrest] at hnil
      cases hnil

instance : Decidable (IsPattern cs) := inferInstanceAs (Decidable (read cs ≠ .error .malformed))

theorem tracks_read {n' : List Char → Nat} (hn' : ∀ T, 2 * p.length + 3 ≤ n' T) :
    Tracks Beyond (alternatives (2 * p.length + 3)) (fun T => alternatives (n' T)) (.of p) :=
  (tracks_alternatives_parts _).1 (.of p) n' (Nat.le_succ _) hn'

theorem rounds_le (T : List Char) : 2 * p.length + 3 ≤ 2 * (p ++ T).length + 3 := by
  rw [List.length_append]
  omega

/-- Where the reading of a pattern goes the same way with a parenthesis behind it, the parenthesis is too much. -/
theorem not_isPattern_of_same (h : alternatives (2 * (p ++ [')']).length + 3) (.of (p ++ [')'])) =
    (alternatives (2 * p.length + 3) (.of p)).map fun x => (x.1, x.2.before [')'])) : ¬IsPattern (p ++ [')']) := by
  rw [isPattern_iff, h]
  rintro ⟨r, s, hs, hnil⟩
  obtain ⟨⟨r, t⟩, -, hx⟩ := Option.map_eq_some_iff.1 hs
  cases hx
  exact List.append_ne_nil_of_right_ne_nil _ (List.cons_ne_nil _ _) hnil

/-- A pattern that does not hide what stands behind it is read the same way with more characters there. -/
theorem alternatives_before {n' : List Char → Nat} (hn' : ∀ T, 2 * p.length + 3 ≤ n' T)
    (hone : n' [')'] = 2 * (p ++ [')']).length + 3) (hp : IsPattern p) (hseen : ¬IsPattern (p ++ [')'])) (hT : Closing T) :
    alternatives (n' T) (.of (p ++ T)) =
      (alternatives (2 * p.length + 3) (.of p)).map fun x => (x.1, x.2.before T) := by
  cases tracks_read hn' with
  | same hsame => exact hsame T hT
  | astray _ hend =>
    obtain ⟨r, t, ht, -⟩ := isPattern_iff.1 hp
    obtain ⟨hnil, hline⟩ := hend r t ht
    have hlonger := hline [')'] ⟨[], rfl⟩ (by decide)
    rw [hone] at hlonger
    exact absurd (isPattern_iff.2 ⟨r, t, hlonger, hnil⟩) hseen

/-- Where the reading of a text stops at a closing parenthesis, a whole pattern stands before it. -/
theorem not_balanced_of_closing (h : alternatives (2 * p.length + 3) (.of p) = some (r, t))
    (hrest : t.rest = ')' :: back) : ¬Balanced p := by
  obtain ⟨front, hfront⟩ : t.rest <:+ p := Shrinks.leaves (.of p) r t h
  rw [hrest] at hfront
  subst hfront
  intro hbalanced
  cases tracks_read (p := front) rounds_le with
  | astray hbeyond _ =>
    have hsuffix : t.rest <:+ back := hbeyond (')' :: back) ⟨back, rfl⟩ r t h
    rw [hrest] at hsuffix
    exact absurd hsuffix.length_le (Nat.not_succ_le_self _)
  | same hsame =>
    have hlonger := (hsame (')' :: back) ⟨back, rfl⟩).symm.trans h
    obtain ⟨⟨r', u⟩, hu, hx⟩ := Option.map_eq_some_iff.1 hlonger
    cases hx
    have hnil : u.rest = [] := List.append_left_eq_self.1 hrest
    exact not_isPattern_of_same (hsame [')'] ⟨[], rfl⟩) (hbalanced front back rfl (isPattern_iff.2 ⟨_, u, hu, hnil⟩))

theorem IsPattern.balanced (hp : IsPattern p) : Balanced p := by
  rintro front back rfl hfront
  refine Classical.byContradiction fun hclosed => ?_
  obtain ⟨r, s, hs, hnil⟩ := isPattern_iff.1 hp
  have hlonger := (alternatives_before rounds_le rfl hfront hclosed ⟨back, rfl⟩).symm.trans hs
  obtain ⟨⟨r, t⟩, -, hx⟩ := Option.map_eq_some_iff.1 hlonger
  cases hx
  exact List.append_ne_nil_of_right_ne_nil _ (List.cons_ne_nil _ _) hnil

/-! ### Reading a pattern in a group -/

theorem parts_enclosed {n : Nat} : parts (n + 2) [] false (.of ('^' :: '(' :: '?' :: ':' :: cs)) =
    (alternatives n >>= groupEnd n [.anchor .textStart] none {}) (.of cs) := by
  have hopening : opening (.of ('?' :: ':' :: cs)) = some (.group none {}, .of cs) := rfl
  calc parts (n + 2) [] false (.of ('^' :: '(' :: '?' :: ':' :: cs))
      = parts (n + 1) [.anchor .textStart] true (.of ('(' :: '?' :: ':' :: cs)) := by rw [parts_succ]; rfl
    _ = (opening >>= openingOn n [.anchor .textStart]) (.of ('?' :: ':' :: cs)) := by rw [parts_succ]; rfl
    _ = openingOn n [.anchor .textStart] (.group none {}) (.of cs) := bind_of_some hopening

theorem rest_of_groupEnd {n : Nat} {before : List Regex} {index : Option Nat} {outside : Flags} {x : Regex}
    (h : groupEnd n before index outside r s = some (x, t)) : ∃ back, s.rest = ')' :: back := by
  cases hrest : s.rest with
  | nil =>
    rw [groupEnd_of_end hrest] at h
    cases h
  | cons c back =>
    by_cases hc : c = ')'
    · exact ⟨back, by rw [hc]⟩
    · have hexpect : expect ')' s = none := by
        rw [expect, bind_of_some peek_apply, hrest, List.head?_cons, if_neg (by simpa using hc)]
        rfl
      have hnone : groupEnd n before index outside r s = none := bind_of_none hexpect
      rw [hnone] at h
      cases h

theorem groupEnd_enclosed {n : Nat} (hs : s.rest = ")$".toList) : groupEnd (n + 2) [.anchor .textStart] none {} r s =
    some (anchored r, { s with rest := [], flags := {} }) := by
  obtain ⟨rest, f, groups, names, large⟩ := s
  cases hs
  calc groupEnd (n + 2) [.anchor .textStart] none {} r ⟨")$".toList, f, groups, names, large⟩
      = parts (n + 2) [r, .anchor .textStart] true ⟨['$'], {}, groups, names, large⟩ := rfl
    _ = parts (n + 1) [.anchor .textEnd, r, .anchor .textStart] true ⟨[], {}, groups, names, large⟩ := by
      rw [parts_succ]
      rfl
    _ = some (anchored r, ⟨[], {}, groups, names, large⟩) := parts_of_end rfl

theorem alternatives_enclosed {n : Nat} (hinside : alternatives (n + 2) (.of (p ++ ")$".toList)) = some (r, s))
    (hs : s.rest = ")$".toList) :
    alternatives (n + 5) (.of (enclosed p)) = some (anchored r, { s with rest := [], flags := {} }) := by
  have hparts : parts (n + 4) [] false (.of (enclosed p)) = some (anchored r, { s with rest := [], flags := {} }) :=
    parts_enclosed.trans ((bind_of_some hinside).trans (groupEnd_enclosed hs))
  rw [alternatives_succ, bind_of_some hparts]
  rfl

theorem enclosed_length : (enclosed p).length = p.length + 6 := by
  simp [enclosed]

/-- The rounds that are left for a pattern in a group, and those for a pattern with a parenthesis behind it. -/
def roundsInside (p T : List Char) : Nat := if T = [')'] then 2 * (p ++ T).length + 3 else 2 * p.length + 12

theorem le_roundsInside (T : List Char) : 2 * p.length + 3 ≤ roundsInside p T := by
  unfold roundsInside
  split
  · rw [List.length_append]
    omega
  · omega

theorem inside_of_enclosed (h : IsPattern (enclosed p)) : ∃ r s back,
    alternatives (roundsInside p ")$".toList) (.of (p ++ ")$".toList)) = some (r, s) ∧ s.rest = ')' :: back := by
  obtain ⟨x, t, hx, -⟩ := isPattern_iff.1 h
  have hrounds : 2 * (enclosed p).length + 3 = roundsInside p ")$".toList + 2 + 1 := by rw [enclosed_length]; rfl
  rw [hrounds, alternatives_succ] at hx
  obtain ⟨first, u, hu, -⟩ := bind_eq_some hx
  obtain ⟨r, s, hs, hend⟩ := bind_eq_some (parts_enclosed.symm.trans hu)
  obtain ⟨back, hback⟩ := rest_of_groupEnd hend
  exact ⟨r, s, back, hs, hback⟩

theorem room_anchored : room (anchored r) = room r + 2 := by
  simp only [anchored, room]
  omega

/-- In the group a pattern that does not hide what stands behind it is read as it is alone, but takes more room. -/
theorem read_both (hp : IsPattern p) (hseen : ¬IsPattern (p ++ [')'])) : ∃ r names large,
    read p = (if large || maxRoom < room r then .error .tooLarge else .ok (r, names)) ∧
    read (enclosed p) = if large || maxRoom < room r + 2 then .error .tooLarge else .ok (anchored r, names) := by
  obtain ⟨r, s, hs, hnil⟩ := isPattern_iff.1 hp
  have hinside : alternatives (2 * p.length + 12) (.of (p ++ ")$".toList)) = some (r, s.before ")$".toList) :=
    (alternatives_before le_roundsInside (if_pos rfl) hp hseen ⟨['$'], rfl⟩).trans (by rw [hs]; rfl)
  have hlonger := alternatives_enclosed (n := 2 * p.length + 10) hinside (PatternState.before_rest_of_end hnil)
  rw [show 2 * p.length + 10 + 5 = 2 * (enclosed p).length + 3 by rw [enclosed_length]; omega] at hlonger
  refine ⟨r, s.names, s.large, ?_, ?_⟩
  · rw [read_of_some hs, hnil]
    rfl
  · rw [read_of_some hlonger, room_anchored]
    rfl

/-- Where a text can be read in the group, it is read the same way with a parenthesis behind it. -/
theorem same_of_enclosed (h : IsPattern (enclosed p)) (hT : Closing T) :
    alternatives (roundsInside p T) (.of (p ++ T)) =
      (alternatives (2 * p.length + 3) (.of p)).map fun x => (x.1, x.2.before T) := by
  cases tracks_read (p := p) le_roundsInside with
  | same hsame => exact hsame T hT
  | astray hbeyond _ =>
    obtain ⟨r, t, back, hinside, hrest⟩ := inside_of_enclosed h
    have hsuffix : t.rest <:+ ['$'] := hbeyond ")$".toList ⟨['$'], rfl⟩ r t hinside
    rw [hrest] at hsuffix
    exact absurd (hsuffix.subset List.mem_cons_self) (by decide)

theorem seen_of_enclosed (h : IsPattern (enclosed p)) : ¬IsPattern (p ++ [')']) :=
  not_isPattern_of_same (same_of_enclosed h ⟨[], rfl⟩)

theorem isPattern_of_enclosed (h : IsPattern (enclosed p)) (hbalanced : Balanced p) : IsPattern p := by
  obtain ⟨r, t, back, hinside, hrest⟩ := inside_of_enclosed h
  have hlonger := (same_of_enclosed h ⟨['$'], rfl⟩).symm.trans hinside
  obtain ⟨⟨r', v⟩, hv, hx⟩ := Option.map_eq_some_iff.1 hlonger
  cases hx
  cases hnil : v.rest with
  | nil => exact isPattern_iff.2 ⟨_, v, hv, hnil⟩
  | cons c behind =>
    rw [PatternState.before_rest, hnil] at hrest
    cases hrest
    exact absurd hbalanced (not_balanced_of_closing hv hnil)

/-- In the group a pattern is read as it is alone. -/
theorem read_enclosed (h : Enclosable p) : read (enclosed p) = (read p).map fun x => (anchored x.1, x.2) := by
  by_cases hp : IsPattern p
  · obtain ⟨r, names, large, hread, hreadLonger⟩ := read_both hp (h.seen hp)
    rw [hreadLonger]
    by_cases hlarge : large = true ∨ maxRoom < room r
    · have hlargeLonger : large = true ∨ maxRoom < room r + 2 := hlarge.imp id (Nat.lt_add_right 2)
      rw [if_pos (by simpa using hlargeLonger), hread, if_pos (by simpa using hlarge)]
      rfl
    · have hok : read p = .ok (r, names) := by rw [hread, if_neg (by simpa using hlarge)]
      have hsmall := h.small r names hok
      have hsmallLonger : ¬(large = true ∨ maxRoom < room r + 2) := by
        rw [not_or] at hlarge ⊢
        exact ⟨hlarge.1, Nat.not_lt_of_le hsmall⟩
      rw [hok, if_neg (by simpa using hsmallLonger)]
      rfl
  · have hlonger : ¬IsPattern (enclosed p) := fun hlonger => hp (isPattern_of_enclosed hlonger (h.balanced hlonger))
    rw [Classical.not_not.1 hp, Classical.not_not.1 hlonger]
    rfl

theorem isPattern_of_read {x : Regex × List (List Char × Nat)} (h : read cs = .ok x) : IsPattern cs := by
  rw [IsPattern, h]
  exact nofun

theorem room_le_of_enclosed {names : List (List Char × Nat)} {x : Regex × List (List Char × Nat)}
    (h : read p = .ok (r, names)) (hlonger : read (enclosed p) = .ok x) : room r + 2 ≤ maxRoom := by
  obtain ⟨r', names', large, hread, hreadLonger⟩ :=
    read_both (isPattern_of_read h) (seen_of_enclosed (isPattern_of_read hlonger))
  rw [hread] at h
  rw [hreadLonger] at hlonger
  split at h
  · cases h
  · cases h
    split at hlonger
    · cases hlonger
    · rename_i hsmall
      simp only [Bool.or_eq_true, decide_eq_true_eq, not_or] at hsmall
      exact Nat.le_of_not_lt hsmall.2

end Rowwise.Regex

namespace Rowwise

variable {s pattern : String}

theorem patternSource_true : patternSource true pattern = Regex.enclosed pattern.toList := rfl

theorem patternSource_false : patternSource false pattern = pattern.toList := rfl

theorem readPattern_eq_ok {whole : Bool} {x : Regex × List (List Char × Nat)} :
    readPattern whole pattern = .ok x ↔ Regex.read (patternSource whole pattern) = .ok x := by
  unfold readPattern
  cases Regex.read (patternSource whole pattern) with
  | ok y => simp
  | error e => cases e <;> simp

theorem readPattern_of_read {x : Regex × List (List Char × Nat)} (h : Regex.read pattern.toList = .ok x) :
    readPattern false pattern = .ok x := by
  rw [readPattern_eq_ok, patternSource_false, h]

theorem readPattern_eq_badRegex {whole : Bool} :
    readPattern whole pattern = .error (.badRegex pattern) ↔ ¬Regex.IsPattern (patternSource whole pattern) := by
  unfold readPattern Regex.IsPattern
  cases Regex.read (patternSource whole pattern) with
  | ok y => simp
  | error e => cases e <;> simp

theorem readPattern_whole (h : Regex.Enclosable pattern.toList) :
    readPattern true pattern = (readPattern false pattern).map fun x => (Regex.anchored x.1, x.2) := by
  unfold readPattern
  rw [patternSource_true, patternSource_false, Regex.read_enclosed h]
  cases Regex.read pattern.toList with
  | ok x => rfl
  | error e => cases e <;> rfl

theorem map_eq_error {α β ε : Type} {f : α → β} {x : Except ε α} {e : ε} : x.map f = .error e ↔ x = .error e := by
  cases x <;> simp [Except.map]

/-- Only patterns that make one group with what is put around them are refused for the same reasons in it and alone. -/
theorem readPattern_errors_iff :
    (∀ cause, readPattern true pattern = .error cause ↔ readPattern false pattern = .error cause) ↔
      Regex.Enclosable pattern.toList := by
  constructor
  · intro h
    have hsame : Regex.IsPattern (Regex.enclosed pattern.toList) ↔ Regex.IsPattern pattern.toList := by
      have hbad := h (.badRegex pattern)
      rw [readPattern_eq_badRegex, readPattern_eq_badRegex, patternSource_true, patternSource_false] at hbad
      exact not_iff_not.1 hbad
    refine ⟨fun hp => Regex.seen_of_enclosed (hsame.2 hp), fun henclosed => (hsame.1 henclosed).balanced,
      fun r names hread => ?_⟩
    cases hwhole : readPattern true pattern with
    | error cause =>
      have hpart := (h cause).1 hwhole
      rw [readPattern_of_read hread] at hpart
      cases hpart
    | ok x =>
      rw [readPattern_eq_ok, patternSource_true] at hwhole
      exact Regex.room_le_of_enclosed hread hwhole
  · intro h cause
    rw [readPattern_whole h, map_eq_error]

namespace TextFunction

theorem run_wholeMatch : wholeMatch.run [.text (some s), .text (some pattern)] =
    (readPattern true pattern).map fun x => .ofBool (x.1.occursIn s.toList) := by
  show (readPattern true pattern >>= fun x => pure (Value.ofBool (x.1.occursIn s.toList))) = _
  cases readPattern true pattern <;> rfl

theorem run_partMatch : partMatch.run [.text (some s), .text (some pattern)] =
    (readPattern false pattern).map fun x => .ofBool (x.1.occursIn s.toList) := by
  show (readPattern false pattern >>= fun x => pure (Value.ofBool (x.1.occursIn s.toList))) = _
  cases readPattern false pattern <;> rfl

theorem forM_regex {whole : Bool} {text : Option Value} :
    ([ConstantCheck.regex 1 whole].forM fun check => check.run [text, some (.text (some pattern))]) =
      (readPattern whole pattern).map fun _ => () := by
  show (ConstantCheck.judged (readPattern whole pattern) >>= fun _ => pure ()) = _
  cases readPattern whole pattern <;> rfl

theorem checks_wholeMatch {text : Option Value} :
    (wholeMatch.checks.forM fun check => check.run [text, some (.text (some pattern))]) =
      (readPattern true pattern).map fun _ => () := forM_regex

theorem checks_partMatch {text : Option Value} :
    (partMatch.checks.forM fun check => check.run [text, some (.text (some pattern))]) =
      (readPattern false pattern).map fun _ => () := forM_regex

end TextFunction

end Rowwise
