import Rowwise.Calendar.Edit
import Rowwise.Proofs.Calendar.LocalTimes
import Rowwise.Proofs.Calendar.MonthsAndWeeks
import Rowwise.Proofs.Numbers.Integers

/-!
# Rowwise.Proofs.Calendar.Editing — edits that change nothing

Adding no units and setting a field to what it is leave the local date and time of an instant as it is (`Instant.moveDate_zero`,
`Instant.wallWith_field`).  Units up to an hour are added to the instant itself (`Instant.addNanos?_zero`).  All other edits go
from the local time back to an instant, so they end at the first instant that shows it (`Instant.edit_nothing`): where clocks
are set back, not always the one that they started from (`Instant.edit_ambiguous`).
-/

namespace Rowwise

/-! ### Times of day -/

namespace TimeOfDay

variable {t : TimeOfDay}

theorem addNanos_zero (h : t.nanos < nanosPerSecond) : t.addNanos 0 = (t, 0) := by
  have hleap : t.isLeap = false := decide_eq_false (Nat.not_le.2 h)
  have hseconds := t.seconds_lt
  unfold addNanos
  simp only [hleap, Bool.false_eq_true, false_and, dite_false, Bool.false_and, if_false, Int.add_zero]
  unfold totalNanos
  unfold nanosPerSecond at h ⊢
  refine Prod.ext (eq_iff.2 ⟨?_, ?_⟩) ?_ <;> simp only <;> omega

theorem withHour?_hour (t : TimeOfDay) : t.withHour? t.hour = some t := by
  rw [withHour?, if_pos t.hour_lt, ← of?_self t]
  congr 1
  unfold hour
  omega

theorem withMinute?_minute (t : TimeOfDay) : t.withMinute? t.minute = some t := by
  rw [withMinute?, if_pos t.minute_lt, ← of?_self t]
  congr 1
  unfold minute
  omega

theorem withSecond?_second (t : TimeOfDay) : t.withSecond? t.second = some t := by
  rw [withSecond?, if_pos t.second_lt, ← of?_self t]
  congr 1
  unfold second
  omega

end TimeOfDay

namespace Instant

variable {t : Instant} {z : Zone} {unit : DateUnit}

/-! ### The local date and time -/

/-- Nothing is added. -/
theorem addNanos?_zero (h : t.nanos < nanosPerSecond) : t.addNanos? 0 = some t := by
  have hwall : (t.wall 0).addNanos 0 = t.wall 0 := by
    have htime : (t.wall 0).time.addNanos 0 = ((t.wall 0).time, 0) := TimeOfDay.addNanos_zero h
    unfold Wall.addNanos
    rw [htime]
    exact congrArg (Wall.mk · _) (congrArg Date.mk (Int.add_zero _))
  rw [addNanos?, hwall, Wall.instant?, second_wall, Int.add_zero, Int.sub_zero, of?_eq_some_iff]
  exact ⟨rfl, rfl⟩

theorem localTime_eq (h : (z.wall t).date.inRange = true) : t.localTime z = .ok (z.wall t) := if_pos h

/-- Where the local date is in range, moving it is a change of the local date. -/
theorem mapDate_eq (h : (z.wall t).date.inRange = true) (f : Date → Option Date) :
    t.mapDate z f = orOutOfRange ((f (z.wall t).date).bind fun d => z.resolve ⟨d, (z.wall t).time⟩) := by
  rw [mapDate, localTime_eq h]
  rfl

/-- No steps leave the local date as it is, and lead to the instant of the local time. -/
theorem moveDate_zero {f : Date → Int → Option Date} {limit : Nat} (hdate : (z.wall t).date.inRange = true) (hlimit : 0 < limit)
    (h : f (z.wall t).date 0 = some (z.wall t).date) : t.moveDate z limit 0 f = orOutOfRange (z.resolve (z.wall t)) := by
  rw [moveDate, Int.natAbs_zero, if_pos hlimit, mapDate_eq hdate, h]
  rfl

/-- The limit makes no difference where so many steps lead nowhere. -/
theorem moveDate_eq {f : Date → Int → Option Date} {limit : Nat} {n : Int} (hdate : (z.wall t).date.inRange = true)
    (hfar : limit ≤ n.natAbs → f (z.wall t).date n = none) : t.moveDate z limit n f = t.mapDate z (f · n) := by
  unfold moveDate
  split
  · rfl
  · rename_i hlimit
    rw [mapDate_eq hdate, hfar (Nat.not_lt.1 hlimit)]
    rfl

/-- A field set to what it is leaves the local date and time as it is, but for the months of the last year's end: to find the
length of its month the last month looks for the next one. -/
theorem wallWith_field (hleap : t.nanos < nanosPerSecond) (hdate : (z.wall t).date.inRange = true)
    (hlast : unit = .month ∨ unit = .year → ¬ (z.wall t).date.InLastMonth) :
    wallWith (z.wall t) (Double.ofInt (t.field unit z)) unit = .ok (some (z.wall t)) := by
  unfold field
  have hnanos : (z.wall t).time.nanos < nanosPerSecond := hleap
  generalize z.wall t = w at hdate hlast hnanos
  have hfield : ∀ {lo hi n : Int} (f : Int → Except CalendarCause (Option Wall)), n.natAbs < 2 ^ 53 → lo ≤ n → n ≤ hi →
      (fieldValue unit lo hi (Double.ofInt n) >>= f) = f n := by
    intro lo hi n f hn hlo hhi
    rw [fieldValue_ofInt unit hn hlo hhi]
    rfl
  have hnanosecond : w.time.nanosecond = w.time.nanos := Nat.mod_eq_of_lt hnanos
  obtain ⟨hmonth, hmonth', hday, hday'⟩ := w.date.month_bounds
  have hhour := w.time.hour_lt
  have hminute := w.time.minute_lt
  have hsecond := w.time.second_lt
  have hweek := w.date.week_bounds
  have hyear := Date.inRange_iff_year.1 hdate
  unfold nanosPerSecond at hnanos
  unfold wallWith
  cases unit with
  | nanosecond =>
    simp only [DateUnit.range]
    rw [hfield _ (by omega) (by omega) (by omega), Int.toNat_natCast, hnanosecond, TimeOfDay.withNanos?, TimeOfDay.of?_self]
    rfl
  | millisecond =>
    simp only [DateUnit.range]
    rw [hfield _ (by omega) (by omega) (by omega), Int.toNat_natCast, hnanosecond, Nat.div_add_mod', TimeOfDay.withNanos?,
      TimeOfDay.of?_self]
    rfl
  | second =>
    simp only [DateUnit.range]
    rw [hfield _ (by omega) (by omega) (by omega), Int.toNat_natCast, TimeOfDay.withSecond?_second]
    rfl
  | minute =>
    simp only [DateUnit.range]
    rw [hfield _ (by omega) (by omega) (by omega), Int.toNat_natCast, TimeOfDay.withMinute?_minute]
    rfl
  | hour =>
    simp only [DateUnit.range]
    rw [hfield _ (by omega) (by omega) (by omega), Int.toNat_natCast, TimeOfDay.withHour?_hour]
    rfl
  | day =>
    have hdays := Date.daysInMonth_le w.date.year w.date.month
    simp only [DateUnit.range, Date.monthLength?_eq hdate]
    rw [hfield _ (by omega) (by omega) (by split_ifs <;> simp only <;> omega), Int.toNat_natCast,
      show Date.ofCivil? w.date.year w.date.month w.date.dayOfMonth = some w.date from Date.ofCivil?_civil hdate]
    rfl
  | week =>
    simp only [DateUnit.range]
    rw [hfield _ (by omega) (by omega) (by omega), Int.toNat_natCast]
    simp only [Date.ofWeek?_week, Date.checked, if_pos hdate]
    rfl
  | month =>
    simp only [DateUnit.range]
    rw [hfield _ (by omega) (by omega) (by omega), Int.toNat_natCast, Nat.sub_add_cancel hmonth,
      Date.clamped?_self hdate, if_neg (hlast (Or.inl rfl))]
    rfl
  | year =>
    simp only [DateUnit.range]
    rw [hfield _ (by omega) (by omega) (by omega), Date.clamped?_self hdate, if_neg (hlast (Or.inr rfl))]
    rfl

/-! ### Edits -/

/-- Adding no units of the calendar ends at the instant of the local time. -/
theorem addUnits_zero_calendar (hunit : unit.isOfDay false = false) (hdate : (z.wall t).date.inRange = true) :
    t.addUnits 0 unit z = orOutOfRange (z.resolve (z.wall t)) := by
  have hdays : (z.wall t).date.addDays? 0 = some (z.wall t).date := by
    rw [Date.addDays?, Date.addDays, Int.add_zero, Date.checked, if_pos hdate]
  have hmonths := Date.addMonths?_zero hdate
  cases unit with
  | day | week => exact moveDate_zero hdate (by decide) hdays
  | month | year => exact moveDate_zero hdate (by decide) hmonths
  | _ => cases hunit

/-- Adding no units of the clock ends at the instant itself. -/
theorem addUnits_zero_clock (hunit : unit.isOfDay false = true) (hleap : t.nanos < nanosPerSecond) :
    t.addUnits 0 unit z = .ok t := by
  have hsame : orOutOfRange (t.addNanos? 0) = .ok t := by
    rw [addNanos?_zero hleap]
    rfl
  cases unit <;> first | exact hsame | cases hunit

theorem add_zero (t : Instant) (unit : DateUnit) (z : Zone) : t.add 0 unit z = (t.addUnits 0 unit z).map some := by
  have hmissing : Double.isMissing 0 = false := by decide +kernel
  have hzero : Double.toInt? 0 = some 0 := by decide +kernel
  simp only [add, hmissing, hzero]
  rfl

/-- Edits that change nothing, in a zone with any table.  For an instant that lies in no leap second, adding no units up to an
hour is the instant itself.  If the local date is in range, adding no days, weeks, months or years, and setting any field to what
it is, is the first instant that shows the same local time.  So it is the instant itself unless an earlier one shows that, too.
Setting month and year is left out for the last month of the range.  There is a first instant wherever the local time is a day
or more inside the range. -/
theorem edit_nothing (hz : z.WellFormed) (hleap : t.nanos < nanosPerSecond) (unit : DateUnit) :
    (unit.isOfDay false = true → t.add 0 unit z = .ok (some t)) ∧
    (∀ t', (z.wall t).date.inRange = true → z.Earliest (z.wall t) t' →
      (unit.isOfDay false = false → t.add 0 unit z = .ok (some t')) ∧
      ((unit = .month ∨ unit = .year → ¬ (z.wall t).date.InLastMonth) →
        t.withField (Double.ofInt (t.field unit z)) unit z = .ok t')) ∧
    (firstSecond + 86400 ≤ (z.wall t).second → ∃ t', z.Earliest (z.wall t) t') := by
  refine ⟨fun hunit => ?_, fun t' hdate hearliest => ?_, fun hfirst =>
    Zone.exists_earliest_of_wall hz hfirst rfl⟩
  · rw [add_zero, addUnits_zero_clock hunit hleap]
    rfl
  have hresolve : z.resolve (z.wall t) = some t' := (Zone.resolve_eq_some_iff hz).2 (Or.inl hearliest)
  refine ⟨fun hunit => ?_, fun hlast => ?_⟩
  · rw [add_zero, addUnits_zero_calendar hunit hdate, hresolve]
    rfl
  · rw [withField, localTime_eq hdate]
    show (wallWith (z.wall t) (Double.ofInt (t.field unit z)) unit >>= fun w => orOutOfRange (w.bind z.resolve)) = .ok t'
    rw [wallWith_field hleap hdate hlast]
    show orOutOfRange (z.resolve (z.wall t)) = .ok t'
    rw [hresolve]
    rfl

/-- Half past two on the morning of October 31, 2021, in Berlin, for the second time, after clocks had been set back. -/
def autumnMorning : Instant := ⟨1635643800, 0, by decide, by decide, first.nanos_lt⟩

/-- An hour before, for the first time. -/
def summerMorning : Instant := ⟨1635640200, 0, by decide, by decide, first.nanos_lt⟩

theorem edit_nothing_summer : summerMorning.add 0 .month Zone.berlin = .ok (some summerMorning) ∧
    summerMorning.withField (Double.ofInt (summerMorning.field .month Zone.berlin)) .month Zone.berlin = .ok summerMorning := by
  have hz : Zone.berlin.WellFormed := Zone.wellFormed_of_mem (by decide +kernel)
  have hearliest : Zone.berlin.Earliest (Zone.berlin.wall summerMorning) summerMorning :=
    (Zone.earliest?_eq_some_iff hz).1 (by decide +kernel)
  obtain ⟨-, hcalendar, -⟩ := edit_nothing (t := summerMorning) hz (by decide) .month
  obtain ⟨hadd, hset⟩ := hcalendar summerMorning (by decide +kernel) hearliest
  exact ⟨hadd rfl, hset fun _ => by decide +kernel⟩

/-- Where clocks are set back, edits that change nothing lead to the first instant with the same local time. -/
theorem edit_ambiguous : Zone.berlin.WellFormed ∧ autumnMorning.nanos < nanosPerSecond ∧
    autumnMorning.add 0 .day Zone.berlin = .ok (some summerMorning) ∧
    autumnMorning.withField (Double.ofInt (autumnMorning.field .hour Zone.berlin)) .hour Zone.berlin = .ok summerMorning ∧
    summerMorning ≠ autumnMorning :=
  ⟨Zone.wellFormed_of_mem (by decide +kernel), by decide, by decide +kernel, by decide +kernel, by decide⟩

end Instant

end Rowwise
