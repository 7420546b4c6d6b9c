import Mathlib
import Rowwise.Proofs.Calendar.Setting

/-!
# Rowwise.Proofs.Calendar.Counting — differences count the steps of sums

Sums in universal time are followed on one line: `Instant.position` in nanoseconds since the start of 1970.  `Instant.mark` says
which position `n` units lead to, and `Instant.lands_addUnits` that the sum is the instant there, if the range has it.  A difference
is the number of marks on the way to the other instant (`Counts`): nanoseconds by subtraction, days since the end is moved
by a day if its time of day is not reached yet (`Wall.counts_days`), months of days (`Wall.counts_months`), and all longer units in
groups (`Counts.groups`).  `Instant.unitsUntil_counts_sums` puts the two together.

Months are steps of equal standing only from days that all of them have: from January 31 one month leads to February 28, and the
difference of the two is no month.
-/

namespace Rowwise

/-! ### Steps -/

/-- Steps lead from place to place, `f n` being the place after `n` steps, before the start if `n` is negative.  Of the whole steps
that lie between the start and `x` there are `n`, counted down if `x` lies behind. -/
structure Counts (f : Int → Int) (x n : Int) : Prop where
  ahead : f 0 ≤ x → 0 ≤ n ∧ f n ≤ x ∧ x < f (n + 1)
  behind : x ≤ f 0 → n ≤ 0 ∧ x ≤ f n ∧ f (n - 1) < x

namespace Counts

variable {f g : Int → Int} {x n m c : Int}

/-- Steps made of steps: the whole ones among the shorter ones that are counted. -/
theorem trans (hf : Monotone f) (hg : g 0 = 0) (h : Counts f x n) (h' : Counts g n m) : Counts (fun k => f (g k)) x m := by
  constructor
  · intro hx
    simp only [hg] at hx
    obtain ⟨hn, hreached, hpassed⟩ := h.ahead hx
    obtain ⟨hm, hreached', hpassed'⟩ := h'.ahead (by omega)
    have hlo : f (g m) ≤ f n := hf hreached'
    have hhi : f (n + 1) ≤ f (g (m + 1)) := hf hpassed'
    exact ⟨hm, le_trans hlo hreached, lt_of_lt_of_le hpassed hhi⟩
  · intro hx
    simp only [hg] at hx
    obtain ⟨hn, hreached, hpassed⟩ := h.behind hx
    obtain ⟨hm, hreached', hpassed'⟩ := h'.behind (by omega)
    have hhi : f n ≤ f (g m) := hf hreached'
    have hlo : f (g (m - 1)) ≤ f (n - 1) := hf (by omega)
    exact ⟨hm, le_trans hreached hhi, lt_of_le_of_lt hlo hpassed⟩

theorem tdiv_bounds (hc : 0 < c) (hn : 0 ≤ n) : 0 ≤ n.tdiv c ∧ n.tdiv c * c ≤ n ∧ n < n.tdiv c * c + c := by
  have hsplit := Int.tdiv_mul_add_tmod n c
  have hrest := Int.tmod_nonneg c hn
  have hless := Int.tmod_lt_of_pos n hc
  exact ⟨Int.tdiv_nonneg hn (le_of_lt hc), by omega, by omega⟩

/-- Division toward zero counts groups of steps. -/
theorem groups (hf : Monotone f) (hc : 0 < c) (h : Counts f x n) : Counts (fun k => f (k * c)) x (n.tdiv c) := by
  refine h.trans hf (Int.zero_mul c) ⟨fun hn => ?_, fun hn => ?_⟩
  · simp only [Int.zero_mul] at hn
    obtain ⟨hnonneg, hreached, hpassed⟩ := tdiv_bounds hc hn
    refine ⟨hnonneg, hreached, ?_⟩
    rwa [Int.add_mul, Int.one_mul]
  · simp only [Int.zero_mul] at hn
    obtain ⟨hnonneg, hreached, hpassed⟩ := tdiv_bounds hc (show 0 ≤ -n by omega)
    rw [Int.neg_tdiv, Int.neg_mul] at hreached hpassed
    rw [Int.neg_tdiv] at hnonneg
    simp only [Int.sub_mul, Int.one_mul]
    exact ⟨by omega, by omega, by omega⟩

end Counts

namespace Date

variable {d : Date} {i n : Int}

/-! ### Months on the line of days -/

/-- The first day of a month, counted by months since the start of the year 0. -/
def firstOfMonth (i : Int) : Int := (monthStart (i / 12) ((i % 12).toNat + 1)).day

theorem le_daysInMonth (year : Int) (month : Nat) : 28 ≤ daysInMonth year month := by
  unfold daysInMonth
  split <;> split <;> decide

theorem firstOfMonth_succ (i : Int) :
    firstOfMonth (i + 1) = firstOfMonth i + daysInMonth (i / 12) ((i % 12).toNat + 1) := by
  have hnext : nextMonth (i / 12) ((i % 12).toNat + 1) = ((i + 1) / 12, ((i + 1) % 12).toNat + 1) := by
    unfold nextMonth
    split <;> rw [Prod.mk.injEq] <;> omega
  have hmonth : 1 ≤ (i % 12).toNat + 1 ∧ (i % 12).toNat + 1 ≤ 12 := by omega
  have hday : (monthStart (nextMonth (i / 12) ((i % 12).toNat + 1)).1 (nextMonth (i / 12) ((i % 12).toNat + 1)).2).day = _ :=
    nextMonth_day hmonth.1 hmonth.2
  rw [hnext] at hday
  exact hday

theorem firstOfMonth_mono : Monotone firstOfMonth := by
  refine monotone_int_of_le_succ fun i => ?_
  have := firstOfMonth_succ i
  omega

theorem ofCivil_day (year : Int) (month dayOfMonth : Nat) :
    (ofCivil ⟨year, month, dayOfMonth⟩).day = (monthStart year month).day + dayOfMonth - 1 := by
  unfold monthStart ofCivil
  simp only
  omega

/-- A date is a day of its month. -/
theorem day_eq (d : Date) : d.day = firstOfMonth d.monthIndex + d.dayOfMonth - 1 ∧ d.day < firstOfMonth (d.monthIndex + 1) := by
  obtain ⟨hmonth, hmonth', hone, hlength⟩ := d.month_bounds
  have hyear : d.monthIndex / 12 = d.year := by
    unfold monthIndex
    omega
  have hsame : (d.monthIndex % 12).toNat + 1 = d.month := by
    unfold monthIndex
    omega
  have hself : d.day = (monthStart d.year d.month).day + d.dayOfMonth - 1 := by
    rw [← ofCivil_day]
    exact congrArg Date.day d.ofCivil_civil.symm
  have hsucc := firstOfMonth_succ d.monthIndex
  have hfirst : firstOfMonth d.monthIndex = (monthStart d.year d.month).day := by
    rw [firstOfMonth, hyear, hsame]
  rw [hyear, hsame] at hsucc
  omega

/-- The date `n` months later, in range or not. -/
def monthsLater (d : Date) (n : Int) : Date :=
  clamped ((d.monthIndex + n) / 12) (((d.monthIndex + n) % 12).toNat + 1) d.dayOfMonth

theorem addMonths?_eq (d : Date) (n : Int) : d.addMonths? n = (d.monthsLater n).checked := by
  obtain ⟨-, -, hone, -⟩ := d.month_bounds
  exact if_pos (isValid_clamped (by omega) (by omega) hone)

/-- So many days lead out of the range from wherever they start in it. -/
theorem addDays?_far (hdate : d.inRange = true) (hn : twoTo 63 ≤ n.natAbs) : d.addDays? n = none := by
  have hfar : 2 ^ 63 ≤ n.natAbs := hn
  rw [inRange_iff] at hdate
  refine checked_eq_none ?_
  rw [inRange_iff]
  unfold addDays
  simp only
  omega

/-- So do so many months. -/
theorem addMonths?_far (hdate : d.inRange = true) (hn : twoTo 32 ≤ n.natAbs) : d.addMonths? n = none := by
  have hfar : 2 ^ 32 ≤ n.natAbs := hn
  obtain ⟨hmonth, hmonth', hone, -⟩ := d.month_bounds
  rw [inRange_iff_year] at hdate
  rw [addMonths?_eq]
  refine checked_eq_none ?_
  rw [monthsLater, inRange_clamped (by omega) (by omega) hone]
  unfold monthIndex
  omega

/-- All months have the days up to the 28th. -/
theorem monthsLater_day (hday : d.dayOfMonth ≤ 28) (n : Int) :
    (d.monthsLater n).day = firstOfMonth (d.monthIndex + n) + d.dayOfMonth - 1 := by
  have hlength := le_daysInMonth ((d.monthIndex + n) / 12) (((d.monthIndex + n) % 12).toNat + 1)
  rw [monthsLater, clamped, ofCivil_day, Nat.min_eq_left (le_trans hday hlength)]
  rfl

theorem monthsLater_zero (hday : d.dayOfMonth ≤ 28) : (d.monthsLater 0).day = d.day := by
  rw [monthsLater_day hday, Int.add_zero, ← d.day_eq.1]

theorem monthsLater_mono (hday : d.dayOfMonth ≤ 28) {k k' : Int} (hk : k ≤ k') :
    (d.monthsLater k).day ≤ (d.monthsLater k').day := by
  have hfirst := firstOfMonth_mono (Int.add_le_add_left hk d.monthIndex)
  rw [monthsLater_day hday, monthsLater_day hday]
  omega

end Date

/-! ### Local dates and times -/

namespace TimeOfDay

theorem before_iff {a b : TimeOfDay} (ha : a.nanos < nanosPerSecond) (hb : b.nanos < nanosPerSecond) :
    a.before b = true ↔ a.totalNanos < b.totalNanos := by
  unfold before totalNanos
  unfold nanosPerSecond at *
  simp only [Bool.or_eq_true, Bool.and_eq_true, decide_eq_true_eq, beq_iff_eq]
  omega

/-- Outside of leap seconds a move by nanoseconds leads to another time of this or another day, and not into a leap second. -/
theorem addNanos_total {t : TimeOfDay} (ht : t.nanos < nanosPerSecond) (n : Int) :
    (t.addNanos n).2 * nanosPerDay + (t.addNanos n).1.totalNanos = t.totalNanos + n ∧
      (t.addNanos n).1.nanos < nanosPerSecond := by
  have hleap : t.isLeap = false := decide_eq_false (Nat.not_le.2 ht)
  unfold addNanos
  simp only [hleap, Bool.false_eq_true, false_and, dite_false, Bool.false_and, if_false]
  unfold totalNanos nanosPerSecond nanosPerDay
  simp only
  omega

theorem nanosUntil_eq {a b : TimeOfDay} (ha : a.nanos < nanosPerSecond) (hb : b.nanos < nanosPerSecond) :
    a.nanosUntil b = b.totalNanos - a.totalNanos := by
  have haleap : a.isLeap = false := decide_eq_false (Nat.not_le.2 ha)
  have hbleap : b.isLeap = false := decide_eq_false (Nat.not_le.2 hb)
  unfold nanosUntil totalNanos nanosPerSecond
  simp only [haleap, hbleap, Bool.false_eq_true, and_false, if_false]
  omega

end TimeOfDay

namespace Wall

variable {a b : Wall}

/-- The nanoseconds that a date and a time are away from the start of 1970. -/
def position (w : Wall) : Int := w.second * nanosPerSecond + w.time.nanos

theorem position_eq (w : Wall) : w.position = w.date.day * nanosPerDay + w.time.totalNanos := by
  unfold position second TimeOfDay.totalNanos nanosPerSecond nanosPerDay
  omega

theorem position_addNanos {w : Wall} (hw : w.time.nanos < nanosPerSecond) (n : Int) :
    (w.addNanos n).position = w.position + n := by
  have htotal := (TimeOfDay.addNanos_total hw n).1
  rw [position_eq, position_eq]
  unfold addNanos Date.addDays
  simp only
  unfold nanosPerDay at *
  omega

section Reached

variable (hadate : a.date.inRange = true) (hbdate : b.date.inRange = true)

include hadate hbdate

theorem reachedDate_day : (a.reachedDate b).day =
    if a.date.day < b.date.day ∧ b.time.before a.time then b.date.day - 1
    else if b.date.day < a.date.day ∧ a.time.before b.time then b.date.day + 1
    else b.date.day := by
  rw [Date.inRange_iff] at hadate hbdate
  have hfound : ∀ n : Int, -96465292 ≤ b.date.day + n → b.date.day + n ≤ 95026236 →
      (b.date.addDays? n).getD b.date = b.date.addDays n := by
    intro n hlo hhi
    have hrange : (b.date.addDays n).inRange = true := Date.inRange_iff.2 ⟨hlo, hhi⟩
    rw [Date.addDays?, Date.checked, if_pos hrange, Option.getD_some]
  unfold reachedDate
  by_cases hahead : a.date.day < b.date.day ∧ b.time.before a.time
  · rw [if_pos hahead, if_pos hahead, hfound _ (by omega) (by omega)]
    rfl
  rw [if_neg hahead, if_neg hahead]
  by_cases hbehind : b.date.day < a.date.day ∧ a.time.before b.time
  · rw [if_pos hbehind, if_pos hbehind, hfound _ (by omega) (by omega)]
    rfl
  · rw [if_neg hbehind, if_neg hbehind]

/-- Days are counted at the time of day of the start. -/
theorem counts_days (ha : a.time.nanos < nanosPerSecond) (hb : b.time.nanos < nanosPerSecond) :
    Counts (fun k => a.position + k * nanosPerDay) b.position (a.daysUntil b) := by
  have hreached := reachedDate_day hadate hbdate
  simp only [TimeOfDay.before_iff hb ha, TimeOfDay.before_iff ha hb] at hreached
  have hatime := a.time.seconds_lt
  have hbtime := b.time.seconds_lt
  rw [position_eq, position_eq, daysUntil]
  unfold TimeOfDay.totalNanos at *
  unfold nanosPerSecond nanosPerDay at *
  constructor
  · intro hx
    split_ifs at hreached <;> omega
  · intro hx
    split_ifs at hreached <;> omega

end Reached

/-- Months are counted among the days: the month is over on the day of the month of the start. -/
theorem counts_months (hday : a.date.dayOfMonth ≤ 28) :
    Counts (fun k => (a.date.monthsLater k).day - a.date.day) (a.daysUntil b) (a.monthsUntil b) := by
  obtain ⟨hstart, hstop⟩ := a.date.day_eq
  obtain ⟨hend, hnext⟩ := (a.reachedDate b).day_eq
  obtain ⟨-, -, hone, -⟩ := a.date.month_bounds
  obtain ⟨-, -, hone', -⟩ := (a.reachedDate b).month_bounds
  simp only [Date.monthsLater_day hday]
  unfold daysUntil monthsUntil
  simp only
  generalize a.reachedDate b = r at *
  generalize a.date.monthIndex = i at *
  generalize hj : r.monthIndex = j at *
  have hsucc := Date.firstOfMonth_succ (j - 1)
  have hlength := Date.le_daysInMonth ((j - 1) / 12) (((j - 1) % 12).toNat + 1)
  rw [Int.sub_add_cancel] at hsucc
  constructor
  · intro hx
    simp only [Int.add_zero] at hx
    have hij : i ≤ j := by
      by_contra hless
      have := Date.firstOfMonth_mono (show j + 1 ≤ i by omega)
      omega
    -- the month of the end does not count before its day is reached
    by_cases hshort : 0 < j - i ∧ r.dayOfMonth < a.date.dayOfMonth
    · rw [if_pos hshort, show i + (j - i - 1) = j - 1 by omega, show i + (j - i - 1 + 1) = j by omega]
      omega
    · have hsame : i = j → a.date.dayOfMonth ≤ r.dayOfMonth := by
        rintro rfl
        omega
      rw [if_neg hshort, if_neg (by omega), show i + (j - i) = j by omega, show i + (j - i + 1) = j + 1 by omega]
      omega
  · intro hx
    simp only [Int.add_zero] at hx
    have hji : j ≤ i := by
      by_contra hless
      have := Date.firstOfMonth_mono (show i + 1 ≤ j by omega)
      omega
    rw [if_neg (by omega)]
    by_cases hlong : j - i < 0 ∧ a.date.dayOfMonth < r.dayOfMonth
    · rw [if_pos hlong, show i + (j - i + 1) = j + 1 by omega, show i + (j - i + 1 - 1) = j by omega]
      omega
    · have hsame : i = j → r.dayOfMonth ≤ a.date.dayOfMonth := by
        rintro rfl
        omega
      rw [if_neg hlong, show i + (j - i) = j by omega, show i + (j - i - 1) = j - 1 by omega]
      omega

end Wall

namespace Instant

variable {a b t : Instant} {unit : DateUnit} {n : Int}

/-! ### Sums -/

/-- The nanoseconds since the start of 1970. -/
def position (t : Instant) : Int := t.seconds * nanosPerSecond + t.nanos

theorem position_wall (t : Instant) : (Zone.utc.wall t).position = t.position := by
  rw [Wall.position, Zone.wall_utc, second_wall, Int.add_zero]
  rfl

theorem before_iff (ha : a.nanos < nanosPerSecond) (hb : b.nanos < nanosPerSecond) :
    a.before b = true ↔ a.position < b.position := by
  unfold before position
  unfold nanosPerSecond at *
  simp only [Bool.or_eq_true, Bool.and_eq_true, decide_eq_true_eq, beq_iff_eq]
  omega

theorem position_bounds (ht : t.nanos < nanosPerSecond) : first.position ≤ t.position ∧ t.position ≤ last.position := by
  have hfirst := t.first_le
  have hlast := t.le_last
  unfold position first last
  unfold nanosPerSecond at *
  simp only
  omega

/-- A sum lands on a position: it is the instant there, or there is none and it fails for that. -/
def Lands (r : Except CalendarCause Instant) (p : Int) : Prop :=
  (∃ t, r = .ok t ∧ t.nanos < nanosPerSecond ∧ t.position = p) ∨
    (r = .error .outOfRange ∧ ¬ (first.position ≤ p ∧ p ≤ last.position))

theorem lands_of? (seconds : Int) {nanos : Nat} (hnanos : nanos < nanosPerSecond) :
    Lands (orOutOfRange (of? seconds nanos)) (seconds * nanosPerSecond + nanos) := by
  by_cases h : firstSecond ≤ seconds ∧ seconds ≤ lastSecond ∧ nanos < 2 * nanosPerSecond
  · refine Or.inl ⟨⟨seconds, nanos, h.1, h.2.1, h.2.2⟩, ?_, hnanos, rfl⟩
    rw [of?, dif_pos h]
    rfl
  · refine Or.inr ⟨?_, ?_⟩
    · rw [of?, dif_neg h]
      rfl
    · unfold position first last
      unfold nanosPerSecond at *
      simp only
      omega

/-- Nanoseconds are added to the position. -/
theorem lands_addNanos (ht : t.nanos < nanosPerSecond) (n : Int) : Lands (orOutOfRange (t.addNanos? n)) (t.position + n) := by
  have hmove : (Zone.utc.wall t).time.nanos < nanosPerSecond := ht
  have hlands := lands_of? ((Zone.utc.wall t).addNanos n).second (TimeOfDay.addNanos_total hmove n).2
  have hposition : ((Zone.utc.wall t).addNanos n).position = t.position + n := by
    rw [Wall.position_addNanos hmove, position_wall]
  rw [addNanos?, Wall.instant?, Int.sub_zero, ← hposition]
  exact hlands

/-- A change of the local date leads to the same time of the other date. -/
theorem lands_mapDate (ht : t.nanos < nanosPerSecond) {f : Date → Option Date} {d : Date}
    (hf : f (Zone.utc.wall t).date = d.checked) :
    Lands (t.mapDate .utc f) (t.position + (d.day - (Zone.utc.wall t).date.day) * nanosPerDay) := by
  have hresult : t.mapDate .utc f =
      orOutOfRange (of? (⟨d, (Zone.utc.wall t).time⟩ : Wall).second (Zone.utc.wall t).time.nanos) := by
    rw [mapDate_eq (Zone.inRange_wall_utc t), hf]
    congr 1
    unfold Date.checked
    -- the range of dates is that of instants, so both fail together
    by_cases h : d.inRange = true
    · rw [if_pos h]
      exact Zone.resolve_utc h
    · have hout : ¬ (firstSecond ≤ (⟨d, (Zone.utc.wall t).time⟩ : Wall).second ∧
          (⟨d, (Zone.utc.wall t).time⟩ : Wall).second ≤ lastSecond) := mt Wall.inRange_iff.2 h
      rw [if_neg h, of?, dif_neg fun hin => hout ⟨hin.1, hin.2.1⟩]
      rfl
  have hposition : (⟨d, (Zone.utc.wall t).time⟩ : Wall).position =
      t.position + (d.day - (Zone.utc.wall t).date.day) * nanosPerDay := by
    rw [← position_wall, Wall.position_eq, Wall.position_eq]
    unfold nanosPerDay
    simp only
    omega
  rw [hresult, ← hposition]
  exact lands_of? _ ht

/-- The position that `n` units lead to. -/
def mark (t : Instant) (unit : DateUnit) (n : Int) : Int :=
  match unit with
  | .nanosecond => t.position + n
  | .millisecond => t.position + n * 1000000
  | .second => t.position + n * 1000000000
  | .minute => t.position + n * 60000000000
  | .hour => t.position + n * 3600000000000
  | .day => t.position + n * nanosPerDay
  | .week => t.position + n * 7 * nanosPerDay
  | .month => t.position + (((Zone.utc.wall t).date.monthsLater n).day - (Zone.utc.wall t).date.day) * nanosPerDay
  | .year => t.position + (((Zone.utc.wall t).date.monthsLater (n * 12)).day - (Zone.utc.wall t).date.day) * nanosPerDay

theorem lands_addUnits (ht : t.nanos < nanosPerSecond) (unit : DateUnit) (n : Int) :
    Lands (t.addUnits n unit .utc) (t.mark unit n) := by
  have hdate := Zone.inRange_wall_utc t
  have hdays (k : Int) : Lands (t.moveDate .utc (twoTo 63) k Date.addDays?) (t.position + k * nanosPerDay) := by
    have hday : ((Zone.utc.wall t).date.addDays k).day - (Zone.utc.wall t).date.day = k := add_sub_cancel_left _ _
    have hlands := lands_mapDate ht (f := (·.addDays? k)) (d := (Zone.utc.wall t).date.addDays k) rfl
    rw [moveDate_eq hdate (Date.addDays?_far hdate)]
    rwa [hday] at hlands
  have hmonths (k : Int) : Lands (t.moveDate .utc (twoTo 32) k Date.addMonths?)
      (t.position + (((Zone.utc.wall t).date.monthsLater k).day - (Zone.utc.wall t).date.day) * nanosPerDay) := by
    rw [moveDate_eq hdate (Date.addMonths?_far hdate)]
    exact lands_mapDate ht (f := (·.addMonths? k)) (Date.addMonths?_eq _ k)
  cases unit with
  | nanosecond | millisecond | second | minute | hour => exact lands_addNanos ht _
  | day => exact hdays n
  | week => exact hdays (n * 7)
  | month => exact hmonths n
  | year => exact hmonths (n * 12)

/-- Integers of 53 binary digits are added as they are. -/
theorem add_ofInt (t : Instant) (unit : DateUnit) (zone : Zone) (hn : n.natAbs ≤ 2 ^ 53) :
    t.add (Double.ofInt n) unit zone = (t.addUnits n unit zone).map some := by
  have hint := Double.isInt_ofInt hn
  have hsmall : n.natAbs < twoTo 63 := lt_of_le_of_lt hn (by decide)
  rw [add, if_neg (Bool.eq_false_iff.1 hint.isMissing), hint.2]
  exact if_pos hsmall

/-- The sums that there are. -/
theorem add_reached (ht : t.nanos < nanosPerSecond) (unit : DateUnit) (hn : n.natAbs ≤ 2 ^ 53)
    (hmark : first.position ≤ t.mark unit n ∧ t.mark unit n ≤ last.position) :
    ∃ t', t.add (Double.ofInt n) unit .utc = .ok (some t') ∧ t'.nanos < nanosPerSecond ∧ t'.position = t.mark unit n := by
  rw [add_ofInt t unit .utc hn]
  obtain ⟨t', hsum, hnanos, hposition⟩ | ⟨-, hout⟩ := lands_addUnits ht unit n
  · exact ⟨t', by rw [hsum]; rfl, hnanos, hposition⟩
  · exact absurd hmark hout

/-- Where there is no sum the range is what keeps it out. -/
theorem add_passed (ht : t.nanos < nanosPerSecond) (unit : DateUnit) (hn : n.natAbs ≤ 2 ^ 53) :
    t.add (Double.ofInt n) unit .utc = .error .outOfRange ∨
      ∃ t', t.add (Double.ofInt n) unit .utc = .ok (some t') ∧ t'.nanos < nanosPerSecond ∧ t'.position = t.mark unit n := by
  rw [add_ofInt t unit .utc hn]
  obtain ⟨t', hsum, hnanos, hposition⟩ | ⟨hfail, -⟩ := lands_addUnits ht unit n
  · exact Or.inr ⟨t', by rw [hsum]; rfl, hnanos, hposition⟩
  · exact Or.inl (by rw [hfail]; rfl)

/-! ### Differences -/

theorem nanosUntil_eq (ha : a.nanos < nanosPerSecond) (hb : b.nanos < nanosPerSecond) :
    a.nanosUntil b = b.position - a.position := by
  have htime : (Zone.utc.wall a).time.nanosUntil (Zone.utc.wall b).time = _ := TimeOfDay.nanosUntil_eq ha hb
  rw [← position_wall a, ← position_wall b, Wall.position_eq, Wall.position_eq]
  show (Zone.utc.wall a).nanosUntil (Zone.utc.wall b) = _
  rw [Wall.nanosUntil, htime]
  unfold nanosPerDay
  omega

theorem counts_nanosUntil (ha : a.nanos < nanosPerSecond) (hb : b.nanos < nanosPerSecond) :
    Counts (fun k => a.position + k) b.position (a.nanosUntil b) := by
  rw [nanosUntil_eq ha hb]
  constructor <;> intro hx <;> omega

theorem mono_days (a : Instant) : Monotone fun k : Int => a.position + k * nanosPerDay := by
  intro k k' hk
  unfold nanosPerDay
  simp only
  omega

/-- The position on the day of the month, `n` months later. -/
theorem mono_months (hday : (Zone.utc.wall a).date.dayOfMonth ≤ 28) : Monotone fun k : Int =>
    a.position + (((Zone.utc.wall a).date.monthsLater k).day - (Zone.utc.wall a).date.day) * nanosPerDay :=
  fun _ _ hk => mono_days a (Int.sub_le_sub_right (Date.monthsLater_mono hday hk) _)

theorem counts_daysUntil (ha : a.nanos < nanosPerSecond) (hb : b.nanos < nanosPerSecond) :
    Counts (fun k => a.position + k * nanosPerDay) b.position ((Zone.utc.wall a).daysUntil (Zone.utc.wall b)) := by
  have hcounts := Wall.counts_days (a := Zone.utc.wall a) (b := Zone.utc.wall b) (Zone.inRange_wall_utc a)
    (Zone.inRange_wall_utc b) ha hb
  rwa [position_wall, position_wall] at hcounts

theorem counts_monthsUntil (ha : a.nanos < nanosPerSecond) (hb : b.nanos < nanosPerSecond)
    (hday : (Zone.utc.wall a).date.dayOfMonth ≤ 28) :
    Counts (fun k => a.position + (((Zone.utc.wall a).date.monthsLater k).day - (Zone.utc.wall a).date.day) * nanosPerDay)
      b.position ((Zone.utc.wall a).monthsUntil (Zone.utc.wall b)) := by
  have hzero : ((Zone.utc.wall a).date.monthsLater 0).day - (Zone.utc.wall a).date.day = 0 :=
    sub_eq_zero.2 (Date.monthsLater_zero hday)
  exact Counts.trans (f := fun k => a.position + k * nanosPerDay)
    (g := fun k => ((Zone.utc.wall a).date.monthsLater k).day - (Zone.utc.wall a).date.day)
    (mono_days a) hzero (counts_daysUntil ha hb) (Wall.counts_months hday)

section Stepping

variable (hday : unit = .month ∨ unit = .year → (Zone.utc.wall a).date.dayOfMonth ≤ 28)

include hday

/-- No unit leads nowhere. -/
theorem mark_zero : a.mark unit 0 = a.position := by
  cases unit with
  | month => rw [mark, Date.monthsLater_zero (hday (Or.inl rfl)), sub_self, Int.zero_mul, Int.add_zero]
  | year => rw [mark, Int.zero_mul, Date.monthsLater_zero (hday (Or.inr rfl)), sub_self, Int.zero_mul, Int.add_zero]
  | _ => simp only [mark, Int.zero_mul, Int.add_zero]

/-- More units lead at least as far. -/
theorem mark_mono : Monotone (a.mark unit) := by
  intro k k' hk
  cases unit with
  | month => exact mono_months (hday (Or.inl rfl)) hk
  | year => exact mono_months (hday (Or.inr rfl)) (show k * 12 ≤ k' * 12 by omega)
  | day => exact mono_days a hk
  | week => exact mono_days a (show k * 7 ≤ k' * 7 by omega)
  | _ =>
    simp only [mark]
    omega

/-- A difference counts the steps that a sum makes. -/
theorem counts_unitsUntil (ha : a.nanos < nanosPerSecond) (hb : b.nanos < nanosPerSecond)
    (h : a.unitsUntil b unit .utc = .ok n) : Counts (a.mark unit) b.position n := by
  have hlocal (count : Wall → Wall → Int) :
      a.countLocal b .utc count = .ok (count (Zone.utc.wall a) (Zone.utc.wall b)) := by
    rw [countLocal, localTime_eq (Zone.inRange_wall_utc a), localTime_eq (Zone.inRange_wall_utc b)]
    rfl
  have hnanos := counts_nanosUntil ha hb
  have hmono : Monotone fun k : Int => a.position + k := fun k k' hk => Int.add_le_add_left hk _
  cases unit with
  | nanosecond =>
    simp only [unitsUntil] at h
    split at h
    · cases h
      exact hnanos
    · cases h
  | millisecond | second | minute | hour =>
    cases h
    exact hnanos.groups hmono (by decide)
  | day =>
    cases (hlocal _).symm.trans h
    exact counts_daysUntil ha hb
  | week =>
    cases (hlocal _).symm.trans h
    exact (counts_daysUntil ha hb).groups (mono_days a) (by decide)
  | month =>
    cases (hlocal _).symm.trans h
    exact counts_monthsUntil ha hb (hday (Or.inl rfl))
  | year =>
    cases (hlocal _).symm.trans h
    exact (counts_monthsUntil ha hb (hday (Or.inr rfl))).groups (mono_months (hday (Or.inr rfl))) (by decide)

end Stepping

/-- A difference in universal time is the number of whole units that sums go through: the sum with it does not go past
the other instant, the sum with one more does, if it is in the range at all.  It is counted down to an earlier
instant.  For months and years the days of the month have to be of the ones that all months have. -/
theorem unitsUntil_counts_sums (ha : a.nanos < nanosPerSecond) (hb : b.nanos < nanosPerSecond)
    (hday : unit = .month ∨ unit = .year → (Zone.utc.wall a).date.dayOfMonth ≤ 28)
    (h : a.unitsUntil b unit .utc = .ok n) (hn : n.natAbs < 2 ^ 53) :
    (b.before a = false → 0 ≤ n ∧
      (∃ t, a.add (Double.ofInt n) unit .utc = .ok (some t) ∧ b.before t = false) ∧
      (a.add (Double.ofInt (n + 1)) unit .utc = .error .outOfRange ∨
        ∃ t, a.add (Double.ofInt (n + 1)) unit .utc = .ok (some t) ∧ b.before t = true)) ∧
    (a.before b = false → n ≤ 0 ∧
      (∃ t, a.add (Double.ofInt n) unit .utc = .ok (some t) ∧ t.before b = false) ∧
      (a.add (Double.ofInt (n - 1)) unit .utc = .error .outOfRange ∨
        ∃ t, a.add (Double.ofInt (n - 1)) unit .utc = .ok (some t) ∧ t.before b = true)) := by
  have hcounts := counts_unitsUntil hday ha hb h
  have hzero : a.mark unit 0 = a.position := mark_zero hday
  have hmono : Monotone (a.mark unit) := mark_mono hday
  have hafter {x y : Instant} (hx : x.nanos < nanosPerSecond) (hy : y.nanos < nanosPerSecond) :
      x.before y = false ↔ y.position ≤ x.position := by
    rw [← Bool.not_eq_true, before_iff hx hy, not_lt]
  obtain ⟨hfirst, hlast⟩ := position_bounds ha
  obtain ⟨hfirst', hlast'⟩ := position_bounds hb
  constructor
  · intro hle
    rw [hafter hb ha] at hle
    obtain ⟨hnonneg, hreached, hpassed⟩ := hcounts.ahead (hzero ▸ hle)
    have hstart : a.position ≤ a.mark unit n := hzero ▸ hmono hnonneg
    refine ⟨hnonneg, ?_, ?_⟩
    · obtain ⟨t, hsum, ht, hposition⟩ := add_reached ha unit (Nat.le_of_lt hn)
        ⟨le_trans hfirst hstart, le_trans hreached hlast'⟩
      exact ⟨t, hsum, (hafter hb ht).2 (hposition ▸ hreached)⟩
    · refine (add_passed ha unit (n := n + 1) (by omega)).imp id ?_
      rintro ⟨t, hsum, ht, hposition⟩
      exact ⟨t, hsum, (before_iff hb ht).2 (hposition ▸ hpassed)⟩
  · intro hle
    rw [hafter ha hb] at hle
    obtain ⟨hnonpos, hreached, hpassed⟩ := hcounts.behind (hzero ▸ hle)
    have hstart : a.mark unit n ≤ a.position := hzero ▸ hmono hnonpos
    refine ⟨hnonpos, ?_, ?_⟩
    · obtain ⟨t, hsum, ht, hposition⟩ := add_reached ha unit (Nat.le_of_lt hn)
        ⟨le_trans hfirst' hreached, le_trans hstart hlast⟩
      exact ⟨t, hsum, (hafter ht hb).2 (hposition ▸ hreached)⟩
    · refine (add_passed ha unit (n := n - 1) (by omega)).imp id ?_
      rintro ⟨t, hsum, ht, hposition⟩
      exact ⟨t, hsum, (before_iff ht hb).2 (hposition ▸ hpassed)⟩

/-- A quarter of a second past noon on January 28, 2021. -/
def januaryNoon : Instant := ⟨1611835200, 250000000, by decide, by decide, by decide⟩

/-- A little less than a minute to noon on March 28, 2021. -/
def marchMorning : Instant := ⟨1616932740, 250000000, by decide, by decide, by decide⟩

/-- One month and almost another. -/
theorem unitsUntil_counts_sums_month : januaryNoon.unitsUntil marchMorning .month .utc = .ok 1 ∧
    (∃ t, januaryNoon.add (Double.ofInt 1) .month .utc = .ok (some t) ∧ marchMorning.before t = false) ∧
    (januaryNoon.add (Double.ofInt 2) .month .utc = .error .outOfRange ∨
      ∃ t, januaryNoon.add (Double.ofInt 2) .month .utc = .ok (some t) ∧ marchMorning.before t = true) := by
  have hmonth : januaryNoon.unitsUntil marchMorning .month .utc = .ok 1 := by decide +kernel
  have hday : (Zone.utc.wall januaryNoon).date.dayOfMonth ≤ 28 := by decide +kernel
  have hcounts := unitsUntil_counts_sums (by decide) (by decide) (fun _ => hday) hmonth (by decide)
  exact ⟨hmonth, (hcounts.1 (by decide)).2⟩

end Instant

end Rowwise
