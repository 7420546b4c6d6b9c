import Mathlib.Data.List.Basic
import Mathlib.Logic.Relation
import Rowwise.Regex.Search

/-!
# Rowwise.Proofs.Patterns.Matching — the search decides what a pattern matches

What a pattern matches is a relation between two places of a text (`Regex.Matches`).  The search follows tasks; tasks lead from
one place to another if their parts match one after the other, where a round of a repetition that takes no character is the
last (`Regex.Runs`).  The branches of the tasks at a place are all ways on (`Regex.runs_iff_branches`), and each step keeps one of
them that leads to a match if there is one (`Regex.follow_isSome_iff`).  So a match is found exactly if there is one
(`Regex.occursIn_iff`).
-/

namespace Rowwise.Regex

/-! ### What a pattern matches -/

/-- The second place is one character behind the first. -/
def Place.Follows (c : Char) (p q : Place) : Prop := p.rest = c :: q.rest ∧ q.offset = p.offset + 1 ∧ q.last = some c

/-- The second place is some characters behind the first, or the same. -/
def Place.Onward : Place → Place → Prop := Relation.ReflTransGen fun p q => ∃ c, p.Follows c q

/-- The pattern matches what stands between two places. -/
inductive Matches : Regex → Place → Place → Prop where
  | empty {p : Place} : Matches .empty p p
  | set {cls : CharClass} {c : Char} {p q : Place} : cls.contains c = true → p.Follows c q → Matches (.set cls) p q
  | anchor {a : Anchor} {p : Place} : a.holds p = true → Matches (.anchor a) p p
  | group {i : Nat} {r : Regex} {p q : Place} : Matches r p q → Matches (.group i r) p q
  | seq {a b : Regex} {p q t : Place} : Matches a p t → Matches b t q → Matches (.seq a b) p q
  | left {a b : Regex} {p q : Place} : Matches a p q → Matches (.alt a b) p q
  | right {a b : Regex} {p q : Place} : Matches b p q → Matches (.alt a b) p q
  | stop {greedy : Bool} {r : Regex} {p : Place} : Matches (.star greedy r) p p
  | more {greedy : Bool} {r : Regex} {p q t : Place} :
      Matches r p t → Matches (.star greedy r) t q → Matches (.star greedy r) p q

variable {r a b : Regex} {p q t : Place}

/-! ### Places -/

theorem Place.Follows.lt {c : Char} (h : p.Follows c q) : p.offset < q.offset := by
  rw [h.2.1]
  exact Nat.lt_succ_self _

theorem Place.not_follows_nil {d : Char} {offset : Nat} {last : Option Char} :
    ¬Place.Follows d ⟨offset, last, []⟩ q :=
  fun h => List.cons_ne_nil _ _ h.1.symm

theorem Place.follows_cons {c d : Char} {offset : Nat} {last : Option Char} {rest : List Char} :
    Place.Follows d ⟨offset, last, c :: rest⟩ q ↔ d = c ∧ q = ⟨offset + 1, some c, rest⟩ := by
  obtain ⟨offset', last', rest'⟩ := q
  simp only [Place.Follows, List.cons.injEq, Place.mk.injEq]
  constructor
  · rintro ⟨⟨rfl, rfl⟩, rfl, rfl⟩
    exact ⟨rfl, rfl, rfl, rfl⟩
  · rintro ⟨rfl, rfl, rfl, rfl⟩
    exact ⟨⟨rfl, rfl⟩, rfl, rfl⟩

theorem Place.onward_nil {offset : Nat} {last : Option Char} :
    Place.Onward ⟨offset, last, []⟩ q ↔ q = ⟨offset, last, []⟩ := by
  rw [Place.Onward, Relation.ReflTransGen.cases_head_iff]
  simp [not_follows_nil, eq_comm]

theorem Place.onward_cons {c : Char} {offset : Nat} {last : Option Char} {rest : List Char} :
    Place.Onward ⟨offset, last, c :: rest⟩ q ↔
      q = ⟨offset, last, c :: rest⟩ ∨ Place.Onward ⟨offset + 1, some c, rest⟩ q := by
  rw [Place.Onward, Relation.ReflTransGen.cases_head_iff]
  simp [follows_cons, eq_comm]

theorem Place.Onward.le (h : p.Onward q) : p.offset ≤ q.offset := by
  induction h with
  | refl => exact Nat.le_refl _
  | tail _ hstep ih =>
    obtain ⟨c, hfollows⟩ := hstep
    exact Nat.le_trans ih (Nat.le_of_lt hfollows.lt)

/-- On the way to a place no further on there is no character. -/
theorem Place.Onward.eq_of_le (h : p.Onward q) (hle : q.offset ≤ p.offset) : p = q := by
  rcases Relation.ReflTransGen.cases_head_iff.1 h with heq | ⟨t, ⟨c, hfollows⟩, honward⟩
  · exact heq
  · exact absurd (Place.Onward.le honward) (Nat.not_le_of_lt (Nat.lt_of_le_of_lt hle hfollows.lt))

/-! ### Matches -/

/-- A match goes forward or takes nothing. -/
theorem Matches.eq_or_lt (h : r.Matches p q) : p = q ∨ p.offset < q.offset := by
  induction h with
  | empty | anchor _ | stop => exact Or.inl rfl
  | set _ hfollows => exact Or.inr hfollows.lt
  | group _ ih | left _ ih | right _ ih => exact ih
  | seq _ _ ih ih' | more _ _ ih ih' =>
    rcases ih with rfl | hlt
    · exact ih'
    · rcases ih' with rfl | hlt'
      · exact Or.inr hlt
      · exact Or.inr (Nat.lt_trans hlt hlt')

theorem matches_empty : (empty).Matches p q ↔ p = q :=
  ⟨fun h => by cases h; rfl, fun h => h ▸ .empty⟩

theorem matches_seq : (seq a b).Matches p q ↔ ∃ t, a.Matches p t ∧ b.Matches t q :=
  ⟨fun h => by cases h with | seq ha hb => exact ⟨_, ha, hb⟩, fun ⟨_, ha, hb⟩ => .seq ha hb⟩

theorem matches_anchor {c : Anchor} : (anchor c).Matches p q ↔ p = q ∧ c.holds p = true :=
  ⟨fun h => by cases h with | anchor hc => exact ⟨rfl, hc⟩, fun ⟨hpq, hc⟩ => hpq ▸ .anchor hc⟩

/-- Rounds of a repetition that take no character can be left out. -/
theorem matches_star {greedy : Bool} : (star greedy r).Matches p q ↔
    p = q ∨ ∃ t, r.Matches p t ∧ p.offset < t.offset ∧ (star greedy r).Matches t q := by
  constructor
  · intro h
    generalize hs : star greedy r = s at h
    induction h with
    | stop => exact Or.inl rfl
    | more hround hrest _ ih =>
      cases hs
      rcases hround.eq_or_lt with rfl | hlt
      · exact ih rfl
      · exact Or.inr ⟨_, hround, hlt, hrest⟩
    | _ => cases hs
  · rintro (rfl | ⟨t, hround, -, hrest⟩)
    · exact .stop
    · exact .more hround hrest

/-! ### What tasks do -/

/-- The task leads from one place to another. -/
def Task.Does : Task → Place → Place → Prop
  | run r, p, q => r.Matches p q
  | close _, p, q => p = q
  | again _ _ true, p, q => p = q
  | again greedy r false, p, q => (star greedy r).Matches p q

theorem Task.Does.eq_or_lt {task : Task} (h : task.Does p q) : p = q ∨ p.offset < q.offset := by
  cases task with
  | run r => exact Matches.eq_or_lt h
  | close i => exact Or.inl h
  | again greedy r idle =>
    cases idle with
    | true => exact Or.inl h
    | false => exact Matches.eq_or_lt h

/-- The tasks left, which know whether a character has been taken on the way between two places. -/
def since (p q : Place) (ts : List Task) : List Task := if p.offset < q.offset then ts.map Task.moved else ts

/-- Tasks lead from one place to another, one after the other. -/
inductive Runs : List Task → Place → Place → Prop where
  | done {p : Place} : Runs [] p p
  | cons {task : Task} {ts : List Task} {p t q : Place} : task.Does p t → Runs (since p t ts) t q → Runs (task :: ts) p q

variable {ts : List Task} {task : Task} {marks : List Mark}

@[simp] theorem since_self : since p p ts = ts := if_neg (Nat.lt_irrefl _)

theorem since_of_lt (h : p.offset < q.offset) : since p q ts = ts.map Task.moved := if_pos h

@[simp] theorem since_nil : since p q [] = [] := by
  rw [since, List.map_nil, ite_self]

@[simp] theorem since_run : since p q (.run r :: ts) = .run r :: since p q ts := by
  rw [since, since]
  split <;> rfl

@[simp] theorem since_close {i : Nat} : since p q (.close i :: ts) = .close i :: since p q ts := by
  rw [since, since]
  split <;> rfl

theorem map_moved_map_moved : (ts.map Task.moved).map Task.moved = ts.map Task.moved := by
  rw [List.map_map]
  refine List.map_congr_left fun task _ => ?_
  cases task <;> rfl

/-- What tasks know after two ways, one after the other. -/
theorem since_since (hpt : p = t ∨ p.offset < t.offset) (htq : t = q ∨ t.offset < q.offset) :
    since t q (since p t ts) = since p q ts := by
  rcases hpt with rfl | hlt
  · rw [since_self]
  · rcases htq with rfl | hlt'
    · rw [since_self]
    · rw [since_of_lt hlt, since_of_lt hlt', since_of_lt (Nat.lt_trans hlt hlt'), map_moved_map_moved]

theorem runs_nil : Runs [] p q ↔ p = q :=
  ⟨fun h => by cases h; rfl, fun h => h ▸ .done⟩

theorem runs_cons : Runs (task :: ts) p q ↔ ∃ t, task.Does p t ∧ Runs (since p t ts) t q :=
  ⟨fun h => by cases h with | cons hdoes hrest => exact ⟨_, hdoes, hrest⟩, fun ⟨_, hdoes, hrest⟩ => .cons hdoes hrest⟩

/-- A task that stays where it is, under a condition. -/
theorem runs_of_stays {P : Prop} (h : ∀ t, task.Does p t ↔ p = t ∧ P) : Runs (task :: ts) p q ↔ P ∧ Runs ts p q := by
  rw [runs_cons]
  constructor
  · rintro ⟨t, hdoes, hrest⟩
    obtain ⟨rfl, hP⟩ := (h t).1 hdoes
    rw [since_self] at hrest
    exact ⟨hP, hrest⟩
  · rintro ⟨hP, hrest⟩
    exact ⟨p, (h p).2 ⟨rfl, hP⟩, by rwa [since_self]⟩

/-- A task that does nothing. -/
theorem runs_of_idle (h : ∀ t, task.Does p t ↔ p = t) : Runs (task :: ts) p q ↔ Runs ts p q := by
  rw [runs_of_stays (P := True) fun t => by rw [h, and_true], true_and]

theorem runs_empty : Runs (.run .empty :: ts) p q ↔ Runs ts p q :=
  runs_of_idle fun _ => matches_empty

theorem runs_anchor {c : Anchor} : Runs (.run (.anchor c) :: ts) p q ↔ c.holds p = true ∧ Runs ts p q :=
  runs_of_stays fun _ => matches_anchor

theorem runs_set {cls : CharClass} : Runs (.run (.set cls) :: ts) p q ↔
    ∃ c t, p.Follows c t ∧ cls.contains c = true ∧ Runs (ts.map Task.moved) t q := by
  rw [runs_cons]
  constructor
  · rintro ⟨t, hdoes, hrest⟩
    cases hdoes with
    | set hc hfollows => exact ⟨_, t, hfollows, hc, since_of_lt hfollows.lt ▸ hrest⟩
  · rintro ⟨c, t, hfollows, hc, hrest⟩
    exact ⟨t, .set hc hfollows, (since_of_lt hfollows.lt).symm ▸ hrest⟩

theorem runs_seq : Runs (.run (.seq a b) :: ts) p q ↔ Runs (.run a :: .run b :: ts) p q := by
  simp only [runs_cons, since_run]
  constructor
  · rintro ⟨t, hdoes, hrest⟩
    obtain ⟨m, ha, hb⟩ := matches_seq.1 hdoes
    exact ⟨m, ha, t, hb, (since_since ha.eq_or_lt hb.eq_or_lt).symm ▸ hrest⟩
  · rintro ⟨m, ha, t, hb, hrest⟩
    exact ⟨t, .seq ha hb, since_since ha.eq_or_lt hb.eq_or_lt ▸ hrest⟩

theorem runs_alt : Runs (.run (.alt a b) :: ts) p q ↔ Runs (.run a :: ts) p q ∨ Runs (.run b :: ts) p q := by
  simp only [runs_cons]
  constructor
  · rintro ⟨t, hdoes, hrest⟩
    cases hdoes with
    | left ha => exact Or.inl ⟨t, ha, hrest⟩
    | right hb => exact Or.inr ⟨t, hb, hrest⟩
  · rintro (⟨t, ha, hrest⟩ | ⟨t, hb, hrest⟩)
    · exact ⟨t, .left ha, hrest⟩
    · exact ⟨t, .right hb, hrest⟩

theorem runs_group {i : Nat} : Runs (.run (.group i r) :: ts) p q ↔ Runs (.run r :: .close i :: ts) p q := by
  simp only [runs_cons, since_close]
  constructor
  · rintro ⟨t, hdoes, hrest⟩
    cases hdoes with
    | group hr => exact ⟨t, hr, t, rfl, by rwa [since_self]⟩
  · rintro ⟨t, hr, _, rfl, hrest⟩
    exact ⟨t, .group hr, by rwa [since_self] at hrest⟩

theorem runs_star {greedy : Bool} : Runs (.run (.star greedy r) :: ts) p q ↔
    Runs (.run r :: .again greedy r true :: ts) p q ∨ Runs ts p q := by
  simp only [runs_cons]
  constructor
  · rintro ⟨t, hdoes, hrest⟩
    rcases matches_star.1 hdoes with rfl | ⟨m, hround, hlt, hmore⟩
    · rw [since_self] at hrest
      exact Or.inr hrest
    · refine Or.inl ⟨m, hround, ?_⟩
      rw [since_of_lt hlt, List.map_cons, runs_cons]
      exact ⟨t, hmore, by rwa [← since_of_lt hlt, since_since hround.eq_or_lt hmore.eq_or_lt]⟩
  · rintro (⟨m, hround, hrest⟩ | hrest)
    · rcases hround.eq_or_lt with rfl | hlt
      · rw [since_self, runs_of_idle fun t => Iff.rfl] at hrest
        exact ⟨p, .stop, by rwa [since_self]⟩
      · rw [since_of_lt hlt, List.map_cons, runs_cons] at hrest
        obtain ⟨t, hmore, hrest⟩ := hrest
        have hmore : (star greedy r).Matches m t := hmore
        rw [← since_of_lt hlt, since_since hround.eq_or_lt hmore.eq_or_lt] at hrest
        exact ⟨t, .more hround hmore, hrest⟩
    · exact ⟨p, .stop, by rwa [since_self]⟩

/-! ### Branches -/

/-- A branch at a place leads to another: by a character that its way goes on behind, or since it is a match. -/
def Branch.Leads (p q : Place) : Branch → Prop
  | take cls way => ∃ c t, p.Follows c t ∧ cls.contains c = true ∧ Runs (way.tasks.map Task.moved) t q
  | found _ => p = q

/-- The branches of tasks at a place are all ways on from there. -/
theorem runs_iff_branches : Runs ts p q ↔ ∃ b ∈ branches p ts marks, b.Leads p q := by
  induction ts, marks using branches.induct p with
  | case1 marks => simp [branches, Branch.Leads, runs_nil]
  | case2 ts marks ih =>
    rw [branches, ← ih, runs_empty]
  | case3 cls ts marks => simp [branches, Branch.Leads, runs_set]
  | case4 c ts marks hc ih =>
    rw [branches, if_pos hc, ← ih, runs_anchor]
    exact and_iff_right hc
  | case5 c ts marks hc =>
    rw [branches, if_neg hc, runs_anchor]
    simp [hc]
  | case6 i r ts marks ih => rw [branches, ← ih, runs_group]
  | case7 a b ts marks ih => rw [branches, ← ih, runs_seq]
  | case8 a b ts marks ih ih' => simp only [branches, List.mem_append, or_and_right, exists_or, ← ih, ← ih', runs_alt]
  | case9 r ts marks ih ih' =>
    simp only [branches, if_true, List.mem_append, or_and_right, exists_or, ← ih, ← ih', runs_star]
  | case10 greedy r ts marks hgreedy ih ih' =>
    simp only [branches, if_neg hgreedy, List.mem_append, or_and_right, exists_or, ← ih, ← ih', runs_star, or_comm]
  | case11 i ts marks ih =>
    rw [branches, ← ih, runs_of_idle fun t => Iff.rfl]
  | case12 greedy r ts marks ih =>
    rw [branches, ← ih, runs_of_idle fun t => Iff.rfl]
  | case13 greedy r ts marks ih =>
    rw [branches, ← ih, runs_cons, runs_cons]
    rfl

/-! ### The search -/

section Cut

variable {bs : List Branch} {cls : CharClass} {way : Way}

theorem cut_isSome_iff : (cut bs).2.isSome = true ↔ ∃ marks, .found marks ∈ bs := by
  induction bs with
  | nil => simp [cut]
  | cons b bs ih => cases b <;> simp [cut, ih]

theorem mem_of_mem_cut (h : (cls, way) ∈ (cut bs).1) : .take cls way ∈ bs := by
  induction bs with
  | nil => simp [cut] at h
  | cons b bs ih =>
    cases b with
    | found marks => simp [cut] at h
    | take cls' way' =>
      rcases List.mem_cons.1 h with heq | hmem
      · cases heq
        exact List.mem_cons_self
      · exact List.mem_cons_of_mem _ (ih hmem)

/-- Before the first match nothing is cut. -/
theorem mem_cut (h : .take cls way ∈ bs) (hnone : (cut bs).2 = none) : (cls, way) ∈ (cut bs).1 := by
  induction bs with
  | nil => simp at h
  | cons b bs ih =>
    cases b with
    | found marks => simp [cut] at hnone
    | take cls' way' =>
      rcases List.mem_cons.1 h with heq | hmem
      · cases heq
        exact List.mem_cons_self
      · exact List.mem_cons_of_mem _ (ih hmem hnone)

end Cut

/-- Of the ways with the same tasks one is kept. -/
theorem exists_distinct {P : List Task → Prop} {seen : List (List Task)} {ways : List Way} :
    (∃ w ∈ distinct seen ways, P w.tasks) ↔ ∃ w ∈ ways, w.tasks ∉ seen ∧ P w.tasks := by
  induction ways generalizing seen with
  | nil => simp [distinct]
  | cons w ways ih =>
    by_cases hw : w.tasks ∈ seen
    · rw [distinct, if_pos hw, ih]
      simp [hw]
    · rw [distinct, if_neg hw]
      simp only [List.mem_cons, exists_eq_or_imp, ih, hw, not_false_eq_true, true_and, not_or]
      constructor
      · rintro (hP | ⟨w', hmem, ⟨-, hseen⟩, hP⟩)
        · exact Or.inl hP
        · exact Or.inr ⟨w', hmem, hseen, hP⟩
      · rintro (hP | ⟨w', hmem, hseen, hP⟩)
        · exact Or.inl hP
        · by_cases heq : w'.tasks = w.tasks
          · exact Or.inl (heq ▸ hP)
          · exact Or.inr ⟨w', hmem, ⟨heq, hseen⟩, hP⟩

theorem exists_stepped {P : List Task → Prop} {c : Char} {takes : List (CharClass × Way)} :
    (∃ w ∈ stepped c takes, P w.tasks) ↔
      ∃ t ∈ takes, t.1.contains c = true ∧ P (t.2.tasks.map Task.moved) := by
  simp only [stepped, exists_distinct, List.mem_map, List.mem_filter, List.not_mem_nil, not_false_eq_true, true_and]
  constructor
  · rintro ⟨_, ⟨t, ⟨hmem, hc⟩, rfl⟩, hP⟩
    exact ⟨t, hmem, hc, hP⟩
  · rintro ⟨t, hmem, hc, hP⟩
    exact ⟨_, ⟨t, ⟨hmem, hc⟩, rfl⟩, hP⟩

/-- One of the ways leads on from a place to a match. -/
def Live (ways : List Way) (p : Place) : Prop := ∃ w ∈ ways, ∃ q, Runs w.tasks p q

/-- One of the takes leads on from a place to a match. -/
def TakesLive (takes : List (CharClass × Way)) (p : Place) : Prop :=
  ∃ t ∈ takes, ∃ q, (Branch.take t.1 t.2).Leads p q

/-- At a place there is a match or a way to one, exactly if there was one before. -/
theorem cutAt_live {ways : List Way} {best : Option Found} :
    ((follow.cutAt p ways best).2.isSome = true ∨ TakesLive (follow.cutAt p ways best).1 p) ↔
      (best.isSome = true ∨ Live ways p) := by
  have hlive : Live ways p ↔ ∃ q, ∃ b ∈ ways.flatMap fun w => branches p w.tasks w.marks, b.Leads p q := by
    have hbranch (w : Way) (q : Place) : Runs w.tasks p q ↔ ∃ b ∈ branches p w.tasks w.marks, b.Leads p q :=
      runs_iff_branches
    constructor
    · rintro ⟨w, hw, q, hruns⟩
      obtain ⟨b, hb, hleads⟩ := (hbranch w q).1 hruns
      exact ⟨q, b, List.mem_flatMap.2 ⟨w, hw, hb⟩, hleads⟩
    · rintro ⟨q, b, hb, hleads⟩
      obtain ⟨w, hw, hb⟩ := List.mem_flatMap.1 hb
      exact ⟨w, hw, q, (hbranch w q).2 ⟨b, hb, hleads⟩⟩
  rw [hlive]
  simp only [follow.cutAt, Option.isSome_or, Option.isSome_map, Bool.or_eq_true, cut_isSome_iff]
  constructor
  · rintro ((⟨marks, hfound⟩ | hbest) | ⟨t, ht, q, hleads⟩)
    · exact Or.inr ⟨p, _, hfound, rfl⟩
    · exact Or.inl hbest
    · exact Or.inr ⟨q, _, mem_of_mem_cut ht, hleads⟩
  · rintro (hbest | ⟨q, b, hb, hleads⟩)
    · exact Or.inl (Or.inr hbest)
    · cases b with
      | found marks => exact Or.inl (Or.inl ⟨marks, hb⟩)
      | take cls way =>
        by_cases hcut : ∃ marks, Branch.found marks ∈ ways.flatMap fun w => branches p w.tasks w.marks
        · exact Or.inl (Or.inl hcut)
        · rw [← cut_isSome_iff, Bool.not_eq_true, Option.isSome_eq_false_iff, Option.isNone_iff_eq_none] at hcut
          exact Or.inr ⟨(cls, way), mem_cut hb hcut, q, hleads⟩

theorem takesLive_nil {offset : Nat} {last : Option Char} {takes : List (CharClass × Way)} :
    ¬TakesLive takes ⟨offset, last, []⟩ := by
  rintro ⟨t, -, q, c, u, hfollows, -⟩
  exact Place.not_follows_nil hfollows

theorem takesLive_cons {offset : Nat} {last : Option Char} {c : Char} {rest : List Char}
    {takes : List (CharClass × Way)} :
    TakesLive takes ⟨offset, last, c :: rest⟩ ↔ Live (stepped c takes) ⟨offset + 1, some c, rest⟩ := by
  rw [Live, exists_stepped (P := fun ts => ∃ q, Runs ts ⟨offset + 1, some c, rest⟩ q)]
  constructor
  · rintro ⟨t, ht, q, d, u, hfollows, hd, hruns⟩
    obtain ⟨rfl, rfl⟩ := Place.follows_cons.1 hfollows
    exact ⟨t, ht, hd, q, hruns⟩
  · rintro ⟨t, ht, hc, q, hruns⟩
    exact ⟨t, ht, q, c, _, ⟨rfl, rfl, rfl⟩, hc, hruns⟩

/-- Following ways ends with a match if there was one before or one of them leads to one. -/
theorem follow_isSome_iff {offset : Nat} {last : Option Char} {ways : List Way} {best : Option Found} {cs : List Char} :
    (follow offset last ways best cs).isSome = true ↔ best.isSome = true ∨ Live ways ⟨offset, last, cs⟩ := by
  induction cs generalizing offset last ways best with
  | nil => rw [follow, ← cutAt_live, or_iff_left takesLive_nil]
  | cons c rest ih =>
    rw [← cutAt_live, takesLive_cons]
    rw [follow]
    cases hcut : follow.cutAt ⟨offset, last, c :: rest⟩ ways best with
    | mk takes best' =>
      cases hways : stepped c takes with
      | nil => simp [hways, Live]
      | cons w ways' => simp only [hways, ih]

theorem matchAt_isSome_iff : (r.matchAt p).isSome = true ↔ ∃ q, r.Matches p q := by
  rw [matchAt, follow_isSome_iff]
  simp [Live, runs_cons, runs_nil, Task.Does]

theorem findFrom_isSome_iff {offset : Nat} {last : Option Char} {cs : List Char} :
    (r.findFrom offset last cs).isSome = true ↔ ∃ p q, Place.Onward ⟨offset, last, cs⟩ p ∧ r.Matches p q := by
  induction cs generalizing offset last with
  | nil =>
    simp only [Place.onward_nil, exists_and_left, exists_eq_left, ← matchAt_isSome_iff, findFrom]
    cases r.matchAt ⟨offset, last, []⟩ <;> rfl
  | cons c rest ih =>
    have hhere := matchAt_isSome_iff (r := r) (p := ⟨offset, last, c :: rest⟩)
    simp only [Place.onward_cons, exists_and_left, or_and_right, exists_or, exists_eq_left, ← hhere, findFrom]
    cases r.matchAt ⟨offset, last, c :: rest⟩ with
    | none => simp [ih]
    | some found => simp

/-- A search finds a match exactly if there is one somewhere in the text. -/
theorem occursIn_iff {cs : List Char} : r.occursIn cs = true ↔ ∃ p q, (Place.start cs).Onward p ∧ r.Matches p q :=
  findFrom_isSome_iff

/-- With a condition for the start and the end of the text around it, a pattern must match the whole text. -/
theorem occursIn_anchored_iff {cs : List Char} :
    (seq (anchor .textStart) (seq r (anchor .textEnd))).occursIn cs = true ↔
      ∃ q, r.Matches (.start cs) q ∧ q.rest = [] := by
  simp only [occursIn_iff, matches_seq, matches_anchor, Anchor.holds, decide_eq_true_eq, List.isEmpty_iff]
  constructor
  · rintro ⟨p, _, honward, _, ⟨rfl, hstart⟩, q, hr, rfl, hend⟩
    obtain rfl := honward.eq_of_le (Nat.le_of_eq hstart)
    exact ⟨q, hr, hend⟩
  · rintro ⟨q, hr, hend⟩
    exact ⟨_, q, .refl, _, ⟨rfl, rfl⟩, q, hr, rfl, hend⟩

end Rowwise.Regex
