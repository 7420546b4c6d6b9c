import Mathlib.Data.Int.LeastGreatest
import Mathlib.Data.List.Chain
import Rowwise.Calendar.ZoneTable
import Rowwise.Proofs.Calendar.Walls

/-!
# Rowwise.Proofs.Calendar.LocalTimes — local times and the instants that show them

A zone's table says what its clocks show at each second (`Zone.shownAt`).  If the table is one that zones have
(`Zone.WellFormed`), `Zone.seconds` lists all seconds that show a local time, in order (`Zone.mem_seconds_iff`,
`Zone.pairwise_seconds`), so that the first of them is the earliest (`Zone.earliest?_eq_some_iff`).

A local time that no second shows lies in a gap: the clocks jump over it at some transition (`Zone.exists_gap`).  It is looked up
an hour later, so it is resolved if that time is shown (`Zone.resolve_local_time`), but not within a gap that goes on for longer
(`Zone.resolve_skipped_day`).  In universal time each local time of the range is shown once (`Zone.resolve_utc_eq_some_iff`).
-/

namespace Rowwise

/-! ### Walls -/

/-- The local time an hour later; a leap second is used up on the way. -/
def Wall.hourLater (w : Wall) : Wall := w.addNanos (3600 * nanosPerSecond)

theorem Wall.second_hourLater (w : Wall) : w.hourLater.second = w.second + 3600 := by
  obtain ⟨⟨day⟩, ⟨seconds, nanos, hseconds, hnanos⟩⟩ := w
  unfold hourLater addNanos TimeOfDay.addNanos nanosPerSecond
  rw [dif_neg (by simp only; omega)]
  unfold Wall.second Date.addDays TimeOfDay.totalNanos TimeOfDay.isLeap nanosPerSecond
  simp only [Bool.and_eq_true, decide_eq_true_eq]
  split <;> omega

/-- The second of a span at which its offset shows a local time. -/
def Span.second? (sp : Span) (shown : Int) : Option Int :=
  if sp.contains (shown - sp.offset.seconds) then some (shown - sp.offset.seconds) else none

theorem Span.second?_eq_some_iff {sp : Span} {s shown : Int} :
    sp.second? shown = some s ↔ sp.contains s = true ∧ s + sp.offset.seconds = shown := by
  have hmove : shown - sp.offset.seconds = s ↔ s + sp.offset.seconds = shown := by omega
  rw [second?, Option.ite_none_right_eq_some, Option.some_inj, hmove]
  refine and_congr_left fun h => ?_
  rw [hmove.2 h]

namespace Zone

/-- The second that the zone's clocks show at a second of UTC, counted as if it were UTC. -/
def shownAt (z : Zone) (second : Int) : Int := second + (z.offsetAt second).seconds

/-- A table as zones have it: the transitions follow one another in time, and clocks are less than a day away from UTC. -/
structure WellFormed (z : Zone) : Prop where
  ascending : z.transitions.Pairwise fun a b => a.since ≤ b.since
  near : ∀ o ∈ z.start :: z.transitions.map Transition.offset, o.seconds.natAbs < 86400

/-- The first instant at which clocks show a local time: no second before it shows that. -/
def Earliest (z : Zone) (w : Wall) (t : Instant) : Prop := z.wall t = w ∧ ∀ s, z.shownAt s = w.second → t.seconds ≤ s

/-- The clocks jump over a local second: they show less until `since`, and more at `since`. -/
def OpensGap (z : Zone) (since shown : Int) : Prop := (∀ s < since, z.shownAt s < shown) ∧ shown < z.shownAt since

/-- No transition changes the clocks within the hour after `since`, which lies in the range. -/
def QuietHour (z : Zone) (since : Int) : Prop :=
  (∀ c ∈ z.transitions, ¬ (since < c.since ∧ c.since < since + 3600)) ∧ firstSecond ≤ since ∧ since + 3600 ≤ lastSecond

variable {z : Zone} {w : Wall} {t : Instant} {s shown : Int}

/-! ### Tables -/

/-- The named tables are such tables. -/
theorem wellFormed_of_mem (h : z ∈ all) : z.WellFormed := by
  have hall : ∀ z ∈ all, z.transitions.IsChain (fun a b => a.since ≤ b.since) ∧
      ∀ o ∈ z.start :: z.transitions.map Transition.offset, o.seconds.natAbs < 86400 := by
    decide +kernel
  have : IsTrans Transition fun a b => a.since ≤ b.since := ⟨fun _ _ _ => le_trans⟩
  exact ⟨List.isChain_iff_pairwise.1 (hall z h).1, (hall z h).2⟩

theorem offsetFrom_mem (current : Offset) (s : Int) (ts : List Transition) :
    offsetFrom current s ts ∈ current :: ts.map Transition.offset := by
  induction ts generalizing current with
  | nil => exact List.mem_singleton.2 rfl
  | cons t ts ih =>
    rw [offsetFrom]
    split
    · exact List.mem_cons_self
    · exact List.mem_cons_of_mem _ (ih t.offset)

/-- Clocks are less than a day away from UTC. -/
theorem WellFormed.shownAt_near (hz : z.WellFormed) (s : Int) : s - 86400 < z.shownAt s ∧ z.shownAt s < s + 86400 := by
  have := hz.near _ (offsetFrom_mem z.start s z.transitions)
  unfold shownAt offsetAt
  omega

theorem wall_eq_iff : z.wall t = w ↔ z.shownAt t.seconds = w.second ∧ t.nanos = w.time.nanos := Instant.wall_eq_iff

/-! ### The seconds that show a local time -/

/-- A lower bound, absent in front of the first transition. -/
def Reached : Option Int → Int → Prop
  | none, _ => True
  | some a, s => a ≤ s

section Spans

variable {since : Option Int} {current : Offset} {ts : List Transition}

/-- From `since` on, the seconds that the spans give are those that show the local time. -/
theorem mem_seconds_spansFrom (hts : ts.Pairwise fun a b => a.since ≤ b.since) (hsince : ∀ c ∈ ts, Reached since c.since) :
    s ∈ (spansFrom since current ts).filterMap (·.second? shown) ↔
      Reached since s ∧ s + (offsetFrom current s ts).seconds = shown := by
  induction ts generalizing since current with
  | nil =>
    have hcontains : (⟨since, none, current⟩ : Span).contains s = true ↔ Reached since s := by
      cases since <;> simp [Span.contains, Reached]
    simp only [spansFrom, offsetFrom, List.mem_filterMap, List.mem_singleton, exists_eq_left, Span.second?_eq_some_iff,
      hcontains]
  | cons c ts ih =>
    rw [List.pairwise_cons] at hts
    have hrest : s ∈ (spansFrom (some c.since) c.offset ts).filterMap (·.second? shown) ↔
        Reached (some c.since) s ∧ s + (offsetFrom c.offset s ts).seconds = shown := ih hts.2 hts.1
    have hcontains : (⟨since, some c.since, current⟩ : Span).contains s = true ↔ Reached since s ∧ s < c.since := by
      cases since <;> simp [Span.contains, Reached]
    have hbefore : Reached since c.since := hsince c List.mem_cons_self
    simp only [List.mem_filterMap, Span.second?_eq_some_iff] at hrest
    rw [spansFrom, offsetFrom]
    simp only [List.mem_filterMap, List.mem_cons, exists_eq_or_imp, Span.second?_eq_some_iff, hcontains, hrest]
    by_cases hs : s < c.since
    · have hless : ¬ Reached (some c.since) s := Int.not_le.2 hs
      simp [hs, hless]
    · have hreached : Reached (some c.since) s := Int.not_lt.1 hs
      have hreached' : Reached since s := by
        cases since with
        | none => trivial
        | some a => exact le_trans hbefore hreached
      simp [hs, hreached, hreached']

theorem pairwise_seconds_spansFrom (hts : ts.Pairwise fun a b => a.since ≤ b.since) :
    ((spansFrom since current ts).filterMap (·.second? shown)).Pairwise (· < ·) := by
  induction ts generalizing since current with
  | nil =>
    rw [spansFrom, List.filterMap_cons]
    split <;> simp
  | cons c ts ih =>
    rw [List.pairwise_cons] at hts
    rw [spansFrom, List.filterMap_cons]
    split
    · exact ih hts.2
    · rename_i s hs
      refine List.pairwise_cons.2 ⟨fun s' hs' => ?_, ih hts.2⟩
      -- the first span ends where the others begin
      have hlater : ∀ d ∈ ts, Reached (some c.since) d.since := hts.1
      have hreached : c.since ≤ s' := ((mem_seconds_spansFrom hts.2 hlater).1 hs').1
      have hcontains := (Span.second?_eq_some_iff.1 hs).1
      have hend : s < c.since := by
        simp only [Span.contains, Bool.and_eq_true, decide_eq_true_eq] at hcontains
        exact hcontains.2
      exact lt_of_lt_of_le hend hreached

end Spans

section Table

variable (hz : z.WellFormed)

include hz

/-- The seconds listed for a local time are all that show it. -/
theorem mem_seconds_iff : s ∈ z.seconds shown ↔ z.shownAt s = shown := by
  have hmem : s ∈ z.seconds shown ↔ Reached none s ∧ z.shownAt s = shown :=
    mem_seconds_spansFrom hz.ascending fun _ _ => trivial
  exact hmem.trans (iff_of_eq (true_and _))

/-- They are listed in order. -/
theorem pairwise_seconds (shown : Int) : (z.seconds shown).Pairwise (· < ·) := pairwise_seconds_spansFrom hz.ascending

theorem earliest?_of_unshown (h : ∀ s, z.shownAt s ≠ w.second) : z.earliest? w = none := by
  have hnone : z.seconds w.second = [] := List.eq_nil_iff_forall_not_mem.2 fun s hs => h s ((mem_seconds_iff hz).1 hs)
  rw [earliest?, hnone]

/-- If a local time is shown, it is looked up at the first second that shows it. -/
theorem exists_first_second (h : z.shownAt s = w.second) : ∃ first, z.shownAt first = w.second ∧
    (∀ s, z.shownAt s = w.second → first ≤ s) ∧ z.earliest? w = Instant.of? first w.time.nanos := by
  have hmem := (mem_seconds_iff hz).2 h
  have hsorted := pairwise_seconds hz w.second
  cases hseconds : z.seconds w.second with
  | nil => simp [hseconds] at hmem
  | cons first rest =>
    rw [hseconds, List.pairwise_cons] at hsorted
    refine ⟨first, (mem_seconds_iff hz).1 (by rw [hseconds]; exact List.mem_cons_self), fun s hs => ?_, by
      rw [earliest?, hseconds]⟩
    rw [← mem_seconds_iff hz, hseconds, List.mem_cons] at hs
    rcases hs with rfl | hs
    · exact le_refl _
    · exact le_of_lt (hsorted.1 s hs)

theorem earliest?_eq_some_iff : z.earliest? w = some t ↔ z.Earliest w t := by
  constructor
  · intro h
    by_cases hshown : ∃ s, z.shownAt s = w.second
    · obtain ⟨s, hs⟩ := hshown
      obtain ⟨first, hfirst, hleast, hearliest⟩ := exists_first_second hz hs
      rw [hearliest, Instant.of?_eq_some_iff] at h
      obtain ⟨rfl, hnanos⟩ := h
      exact ⟨wall_eq_iff.2 ⟨hfirst, hnanos⟩, hleast⟩
    · rw [earliest?_of_unshown hz fun s hs => hshown ⟨s, hs⟩] at h
      cases h
  · rintro ⟨hwall, hleast⟩
    obtain ⟨hseconds, hnanos⟩ := wall_eq_iff.1 hwall
    obtain ⟨first, hfirst, hleast', hearliest⟩ := exists_first_second hz hseconds
    have hsame : t.seconds = first := Int.le_antisymm (hleast first hfirst) (hleast' _ hseconds)
    rw [hearliest, Instant.of?_eq_some_iff]
    exact ⟨hsame, hnanos⟩

/-- A local time is resolved to the first instant that shows it, else to the first that shows the time an hour later. -/
theorem resolve_eq_some_iff : z.resolve w = some t ↔
    z.Earliest w t ∨ (∀ t', ¬ z.Earliest w t') ∧ w.hourLater.inRange = true ∧ z.Earliest w.hourLater t := by
  rw [← earliest?_eq_some_iff hz, ← earliest?_eq_some_iff hz]
  simp only [← earliest?_eq_some_iff hz]
  have hlater : w.addNanos (3600 * nanosPerSecond) = w.hourLater := rfl
  unfold resolve
  rw [hlater]
  cases hearliest : z.earliest? w with
  | some t' => simp
  | none => simp

end Table

/-! ### Universal time -/

theorem wall_utc (t : Instant) : utc.wall t = t.wall 0 := rfl

theorem earliest?_utc (w : Wall) : utc.earliest? w = Instant.of? w.second w.time.nanos := by
  have hseconds : utc.seconds w.second = [w.second - 0] := rfl
  rw [earliest?, hseconds, Int.sub_zero]

/-- In universal time a local time in the range is looked up as it is. -/
theorem resolve_utc (h : w.inRange = true) : utc.resolve w = Instant.of? w.second w.time.nanos := by
  obtain ⟨hfirst, hlast⟩ := Wall.inRange_iff.1 h
  have hfound : Instant.of? w.second w.time.nanos = some ⟨w.second, w.time.nanos, hfirst, hlast, w.time.nanos_lt⟩ :=
    dif_pos ⟨hfirst, hlast, w.time.nanos_lt⟩
  rw [resolve, earliest?_utc, hfound]

/-- Clocks of universal time show each date and time of the range at one instant. -/
theorem exists_resolve_utc (h : w.inRange = true) : ∃ t, utc.resolve w = some t ∧ utc.wall t = w := by
  obtain ⟨hfirst, hlast⟩ := Wall.inRange_iff.1 h
  refine ⟨⟨w.second, w.time.nanos, hfirst, hlast, w.time.nanos_lt⟩, ?_, Instant.wall_eq_iff.2 ⟨Int.add_zero _, rfl⟩⟩
  rw [resolve_utc h, Instant.of?_eq_some_iff]
  exact ⟨rfl, rfl⟩

theorem inRange_wall_utc (t : Instant) : (utc.wall t).date.inRange = true := t.inRange_wall

/-- Instants that show the same in universal time are the same. -/
theorem wall_utc_inj {t' : Instant} (h : utc.wall t = utc.wall t') : t = t' := by
  rw [wall_utc, wall_utc] at h
  obtain ⟨hseconds, hnanos⟩ := Instant.wall_eq_iff.1 h
  rw [Instant.second_wall, Int.add_zero, Int.add_zero] at hseconds
  have hsame : Instant.of? t'.seconds t'.nanos = some t := Instant.of?_eq_some_iff.2 ⟨hseconds, hnanos⟩
  have hself : Instant.of? t'.seconds t'.nanos = some t' := Instant.of?_eq_some_iff.2 ⟨rfl, rfl⟩
  exact Option.some_inj.1 (hsame.symm.trans hself)

theorem resolve_utc_eq_some_iff (h : w.inRange = true) : utc.resolve w = some t ↔ utc.wall t = w := by
  obtain ⟨t', hresolve, hwall⟩ := exists_resolve_utc h
  rw [hresolve, Option.some_inj, ← hwall]
  exact ⟨fun heq => heq ▸ rfl, fun heq => (wall_utc_inj heq).symm⟩

/-! ### Gaps -/

/-- Clocks go on steadily where no transition is. -/
theorem offsetFrom_pred {ts : List Transition} (h : ∀ c ∈ ts, c.since ≠ s) (current : Offset) :
    offsetFrom current (s - 1) ts = offsetFrom current s ts := by
  induction ts generalizing current with
  | nil => rfl
  | cons c ts ih =>
    have hc := h c List.mem_cons_self
    have hsame : s - 1 < c.since ↔ s < c.since := by omega
    rw [offsetFrom, offsetFrom, ih fun d hd => h d (List.mem_cons_of_mem _ hd)]
    simp only [hsame]

theorem shownAt_pred (h : ∀ c ∈ z.transitions, c.since ≠ s) : z.shownAt s = z.shownAt (s - 1) + 1 := by
  unfold shownAt offsetAt
  rw [offsetFrom_pred h]
  omega

/-- Within an hour without a transition clocks go on steadily. -/
theorem shownAt_of_quietHour {since : Int} (hquiet : z.QuietHour since) {n : Nat} (hn : n < 3600) :
    z.shownAt (since + n) = z.shownAt since + n := by
  induction n with
  | zero => simp
  | succ n ih =>
    have hnone : ∀ c ∈ z.transitions, c.since ≠ since + (n + 1 : Nat) := by
      intro c hc hsince
      exact hquiet.1 c hc (by omega)
    rw [shownAt_pred hnone, show since + ((n + 1 : Nat) : Int) - 1 = since + n by omega, ih (by omega)]
    omega

/-- Over a local time that no second shows the clocks jump at some transition. -/
theorem exists_gap (hz : z.WellFormed) (h : ∀ s, z.shownAt s ≠ shown) :
    ∃ c ∈ z.transitions, z.OpensGap c.since shown := by
  have hlater : ∃ s, shown < z.shownAt s := by
    have := hz.shownAt_near (shown + 86400)
    exact ⟨shown + 86400, by omega⟩
  have hbound : ∀ s, shown < z.shownAt s → shown - 86400 ≤ s := by
    intro s hs
    have := hz.shownAt_near s
    omega
  obtain ⟨since, hmore, hleast⟩ := Int.exists_least_of_bdd ⟨_, hbound⟩ hlater
  have hless : ∀ s < since, z.shownAt s < shown := by
    intro s hs
    have hnot : ¬ shown < z.shownAt s := fun hs' => absurd (hleast s hs') (Int.not_le.2 hs)
    have := h s
    omega
  -- without a transition the clocks would show the local time on their way
  have htransition : ∃ c ∈ z.transitions, c.since = since := by
    by_contra hnone
    push Not at hnone
    have hstep := shownAt_pred hnone
    have hbefore := hless (since - 1) (by omega)
    omega
  obtain ⟨c, hc, rfl⟩ := htransition
  exact ⟨c, hc, hless, hmore⟩

/-- The time an hour later is shown if the gap ends by then and is followed by an hour without another transition. -/
theorem exists_wall_hourLater {since : Int} (hgap : z.OpensGap since w.second) (hend : z.shownAt since ≤ w.second + 3600)
    (hquiet : z.QuietHour since) : ∃ t, z.wall t = w.hourLater := by
  obtain ⟨n, hn⟩ := Int.le.dest hend
  have hless := hgap.2
  have hshown := shownAt_of_quietHour hquiet (by omega : n < 3600)
  have hnanos := w.hourLater.time.nanos_lt
  have hrange := hquiet.2
  refine ⟨⟨since + n, w.hourLater.time.nanos, by omega, by omega, by unfold nanosPerSecond; omega⟩, wall_eq_iff.2 ⟨?_, rfl⟩⟩
  rw [Wall.second_hourLater]
  simp only
  omega

/-! ### Local times inside the range -/

section Inside

variable (hz : z.WellFormed) (hfirst : firstSecond + 86400 ≤ w.second) (hlast : w.second + 86400 ≤ lastSecond)

include hz hfirst

/-- The first instant that shows a local time lies in the range if any instant that shows it does. -/
theorem exists_earliest_of_wall (h : z.wall t = w) : ∃ t, z.Earliest w t := by
  obtain ⟨hseconds, hnanos⟩ := wall_eq_iff.1 h
  obtain ⟨first, hshown, hleast, -⟩ := exists_first_second hz hseconds
  have hnear := hz.shownAt_near first
  have hle := hleast _ hseconds
  have hinside : firstSecond ≤ first ∧ first ≤ lastSecond := ⟨by omega, le_trans hle t.le_last⟩
  exact ⟨⟨first, w.time.nanos, hinside.1, hinside.2, hnanos ▸ t.nanos_lt⟩, wall_eq_iff.2 ⟨hshown, rfl⟩, hleast⟩

include hlast

theorem exists_wall_of_shownAt (h : z.shownAt s = w.second) : ∃ t, z.wall t = w := by
  have hnear := hz.shownAt_near s
  have hnanos := w.time.nanos_lt
  exact ⟨⟨s, w.time.nanos, by omega, by omega, by unfold nanosPerSecond; omega⟩, wall_eq_iff.2 ⟨h, rfl⟩⟩

end Inside

/-- A local time more than a day inside the range, in a zone with any table.  If it is shown, it is resolved to the first instant
that shows it.  If not, it lies in a gap that some transition opens, and it is resolved exactly if the time an hour later is
shown, to the first instant that shows that; this is not before the transition that opens the gap.  The time an hour later is
shown if the gap is over by then and the hour after the transition sees no other one. -/
theorem resolve_local_time (hz : z.WellFormed) (hfirst : firstSecond + 86400 ≤ w.second)
    (hlast : w.second + 86400 ≤ lastSecond) :
    (∀ t, z.wall t = w → ∃ t, z.resolve w = some t ∧ z.Earliest w t) ∧
    ((∀ t, z.wall t ≠ w) → ∃ c ∈ z.transitions, z.OpensGap c.since w.second ∧
      ((∃ t, z.resolve w = some t) ↔ ∃ t, z.wall t = w.hourLater) ∧
      (∀ t, z.resolve w = some t → z.Earliest w.hourLater t ∧ c.since ≤ t.seconds) ∧
      (z.shownAt c.since ≤ w.second + 3600 → z.QuietHour c.since → ∃ t, z.resolve w = some t)) := by
  have hlater := w.second_hourLater
  refine ⟨fun t ht => ?_, fun hunshown => ?_⟩
  · obtain ⟨first, hearliest⟩ := exists_earliest_of_wall hz hfirst ht
    exact ⟨first, (resolve_eq_some_iff hz).2 (Or.inl hearliest), hearliest⟩
  have hnever : ∀ t, ¬ z.Earliest w t := fun t h => hunshown t h.1
  have hrange : w.hourLater.inRange = true := Wall.inRange_iff.2 (by omega)
  have hresolve : ∀ t, z.resolve w = some t ↔ z.Earliest w.hourLater t := by
    intro t
    rw [resolve_eq_some_iff hz]
    exact ⟨fun h => (h.resolve_left (hnever t)).2.2, fun h => Or.inr ⟨hnever, hrange, h⟩⟩
  have hiff : (∃ t, z.resolve w = some t) ↔ ∃ t, z.wall t = w.hourLater := by
    refine ⟨fun ⟨t, h⟩ => ⟨t, ((hresolve t).1 h).1⟩, fun ⟨t, h⟩ => ?_⟩
    obtain ⟨first, hearliest⟩ := exists_earliest_of_wall hz (by omega) h
    exact ⟨first, (hresolve first).2 hearliest⟩
  have hshown : ∀ s, z.shownAt s ≠ w.second := fun s hs => by
    obtain ⟨t, ht⟩ := exists_wall_of_shownAt hz hfirst hlast hs
    exact hunshown t ht
  obtain ⟨c, hc, hgap⟩ := exists_gap hz hshown
  refine ⟨c, hc, hgap, hiff, fun t h => ⟨(hresolve t).1 h, ?_⟩, fun hend hquiet =>
    hiff.2 (exists_wall_hourLater hgap hend hquiet)⟩
  -- before the gap clocks show less than the time looked up
  have hwall := (wall_eq_iff.1 ((hresolve t).1 h).1).1
  by_contra hbefore
  have hless := hgap.1 t.seconds (Int.not_le.1 hbefore)
  omega

/-- Clocks of Berlin. -/
def berlin : Zone := ⟨"Europe/Berlin", berlinMean, berlinHistory ++ yearsFrom 1996 europeanYear⟩

/-- Half past two on the morning of March 28, 2021, when summer time began at two. -/
def springMorning : Wall := ⟨⟨18714⟩, ⟨9000, 0, by decide, TimeOfDay.midnight.nanos_lt⟩⟩

theorem resolve_local_time_spring : (∀ t, berlin.wall t ≠ springMorning) ∧
    ∃ t, berlin.resolve springMorning = some t ∧ berlin.wall t = springMorning.hourLater := by
  have hz : berlin.WellFormed := wellFormed_of_mem (by decide +kernel)
  have hunshown : ∀ t, berlin.wall t ≠ springMorning := by
    intro t ht
    have hmem := (mem_seconds_iff hz).2 (wall_eq_iff.1 ht).1
    rw [show berlin.seconds springMorning.second = [] by decide +kernel] at hmem
    cases hmem
  obtain ⟨c, -, -, hiff, hresult, -⟩ :=
    (resolve_local_time (w := springMorning) hz (by decide +kernel) (by decide +kernel)).2 hunshown
  obtain ⟨t, ht⟩ := hiff.2 ⟨⟨1616895000, 0, by decide, by decide, by decide⟩, by decide +kernel⟩
  exact ⟨hunshown, t, ht, (hresult t ht).1.1⟩

/-- Clocks of Apia, which left out December 30, 2011. -/
def apia : Zone := ⟨"Pacific/Apia", apiaMeanWest, apiaHistory⟩

/-- Noon on December 30, 2011. -/
def skippedNoon : Wall := ⟨⟨15338⟩, ⟨43200, 0, by decide, TimeOfDay.midnight.nanos_lt⟩⟩

/-- Within a gap of a whole day a local time is not resolved. -/
theorem resolve_skipped_day : apia.WellFormed ∧ firstSecond + 86400 ≤ skippedNoon.second ∧
    skippedNoon.second + 86400 ≤ lastSecond ∧ apia.resolve skippedNoon = none :=
  ⟨wellFormed_of_mem (by decide +kernel), by decide +kernel, by decide +kernel, by decide +kernel⟩

end Zone

end Rowwise
