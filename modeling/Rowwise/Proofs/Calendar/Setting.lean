import Rowwise.Proofs.Calendar.ClockFields

/-!
# Rowwise.Proofs.Calendar.Setting — setting a field of an instant

A field of the calendar leads to another date (`Date.withField`), a field of the clock to another time.
`Instant.wallWith_eq_ok_iff` says when there is a result and which: the field takes the number, the calendar and the range have
the date (`Date.Allows`), and it does not lie in the last month of the range, if the month or the year is set.  In universal time
each such local time is that of an instant, so it decides whether a field can be set (`Instant.withField_succeeds_iff`); the last
month of the range is left out for no reason but that its length is looked up at the month after it
(`Instant.withField_last_month`).  The field then shows the number and all else is kept (`Instant.withField_frames`).
-/

namespace Rowwise

theorem bind_eq_ok_iff {ε α β : Type} {x : Except ε α} {f : α → Except ε β} {b : β} :
    (x >>= f) = .ok b ↔ ∃ a, x = .ok a ∧ f a = .ok b := by
  cases x <;> simp [bind, Except.bind]

namespace Date

variable {d : Date} {n : Int} {unit : DateUnit}

/-- The date with the number `n` in a field, in range or not; months count from zero.  Fields of the clock leave it as it is. -/
def withField (d : Date) (n : Int) : DateUnit → Date
  | .day => ofCivil ⟨d.year, d.month, n.toNat⟩
  | .week => ofWeek d.weekYear n.toNat d.weekday
  | .month => clamped d.year (n.toNat + 1) d.dayOfMonth
  | .year => clamped n d.month d.dayOfMonth
  | _ => d

/-- The month has the day, the year has the week, and the date is one that programs can hold. -/
structure Allows (d : Date) (n : Int) (unit : DateUnit) : Prop where
  day : unit = .day → n ≤ daysInMonth d.year d.month
  week : unit = .week → n ≤ weeksInYear d.weekYear
  inRange : (d.withField n unit).inRange = true

/-- Two dates that differ at most in the field of a unit, and in the day if the month that it is in does not have it. -/
structure SameBut (unit : DateUnit) (d d' : Date) : Prop where
  clock : unit.isOfDay false = true → d' = d
  year : unit = .day ∨ unit = .month → d'.year = d.year
  month : unit = .day ∨ unit = .year → d'.month = d.month
  dayOfMonth : unit = .month ∨ unit = .year → d'.dayOfMonth = min d.dayOfMonth (daysInMonth d'.year d'.month)
  week : unit = .week → d'.weekYear = d.weekYear ∧ d'.weekday = d.weekday

theorem sameBut_clock (hunit : unit.isOfDay false = true) (d : Date) : d.SameBut unit d := by
  cases unit with
  | nanosecond | millisecond | second | minute | hour => exact ⟨fun _ => rfl, by simp, by simp, by simp, by simp⟩
  | _ => cases hunit

theorem withField_clock (hunit : unit.isOfDay false = true) : d.withField n unit = d := by
  cases unit <;> first | rfl | cases hunit

theorem checked_eq_some_iff {d' : Date} : d.checked = some d' ↔ d.inRange = true ∧ d' = d := by
  unfold checked
  by_cases h : d.inRange = true
  · rw [if_pos h, Option.some_inj]
    exact ⟨fun hsame => ⟨h, hsame.symm⟩, fun hsame => hsame.2.symm⟩
  · simp [h]

theorem clamped?_eq_some_iff {d' : Date} {year : Int} {month dayOfMonth : Nat} (h : 1 ≤ month) (h' : month ≤ 12)
    (hday : 1 ≤ dayOfMonth) : clamped? year month dayOfMonth = some d' ↔
      (clamped year month dayOfMonth).inRange = true ∧ ¬ (clamped year month dayOfMonth).InLastMonth ∧
        d' = clamped year month dayOfMonth := by
  rw [clamped?_eq h h' hday]
  by_cases hlast : (clamped year month dayOfMonth).InLastMonth
  · simp [hlast]
  · rw [if_neg hlast, checked_eq_some_iff]
    simp [hlast]

theorem isValid_withDay_iff (hlo : 1 ≤ n) :
    (⟨d.year, d.month, n.toNat⟩ : Civil).isValid = true ↔ n ≤ daysInMonth d.year d.month := by
  obtain ⟨hmonth, hmonth', -⟩ := d.month_bounds
  simp only [Civil.isValid, Bool.and_eq_true, decide_eq_true_eq]
  omega

theorem civil_withDay (hlo : 1 ≤ n) (hhi : n ≤ daysInMonth d.year d.month) :
    (d.withField n .day).civil = ⟨d.year, d.month, n.toNat⟩ := civil_ofCivil ((isValid_withDay_iff hlo).2 hhi)

/-- Each day of a month in range is in range. -/
theorem inRange_withDay (hdate : d.inRange = true) (hlo : 1 ≤ n) (hhi : n ≤ daysInMonth d.year d.month) :
    (d.withField n .day).inRange = true := by
  rw [inRange_iff_year, year, civil_withDay hlo hhi]
  exact inRange_iff_year.1 hdate

/-- The date with the number `n` in a field, if it is found. -/
def withField? (d : Date) (n : Int) : DateUnit → Option Date
  | .day => ofCivil? d.year d.month n.toNat
  | .week => ofWeek? d.weekYear n.toNat d.weekday
  | .month => clamped? d.year (n.toNat + 1) d.dayOfMonth
  | .year => clamped? n d.month d.dayOfMonth
  | _ => some d

/-- The date is found if the calendar and the range have it and, if months are looked at, its month is not the last one. -/
theorem withField?_eq_some_iff {d' : Date} (hdate : d.inRange = true) (hlo : unit.range.1 ≤ n) (hhi : n ≤ unit.range.2) :
    d.withField? n unit = some d' ↔ d.Allows n unit ∧
      (unit = .month ∨ unit = .year → ¬ (d.withField n unit).InLastMonth) ∧ d' = d.withField n unit := by
  obtain ⟨hmonth, hmonth', hone, -⟩ := d.month_bounds
  cases unit with
  | day =>
    simp only [DateUnit.range] at hlo
    by_cases hday : n ≤ daysInMonth d.year d.month
    · have hfound : d.withField? n .day = (d.withField n .day).checked := if_pos ((isValid_withDay_iff hlo).2 hday)
      have hrange := inRange_withDay hdate hlo hday
      rw [hfound, checked_eq_some_iff]
      exact ⟨fun h => ⟨⟨fun _ => hday, by simp, hrange⟩, by simp, h.2⟩, fun h => ⟨hrange, h.2.2⟩⟩
    · have hnone : d.withField? n .day = none := if_neg (mt (isValid_withDay_iff hlo).1 hday)
      rw [hnone]
      exact iff_of_false (by simp) fun h => hday (h.1.day rfl)
  | week =>
    simp only [DateUnit.range] at hlo
    by_cases hweek : n ≤ weeksInYear d.weekYear
    · have hfound : d.withField? n .week = (d.withField n .week).checked := if_pos (by omega)
      rw [hfound, checked_eq_some_iff]
      exact ⟨fun h => ⟨⟨by simp, fun _ => hweek, h.1⟩, by simp, h.2⟩, fun h => ⟨h.1.inRange, h.2.2⟩⟩
    · have hnone : d.withField? n .week = none := if_neg (by omega)
      rw [hnone]
      exact iff_of_false (by simp) fun h => hweek (h.1.week rfl)
  | month =>
    simp only [DateUnit.range] at hlo hhi
    refine (clamped?_eq_some_iff (by omega) (by omega) hone).trans ?_
    exact ⟨fun h => ⟨⟨by simp, by simp, h.1⟩, fun _ => h.2.1, h.2.2⟩,
      fun h => ⟨h.1.inRange, h.2.1 (Or.inl rfl), h.2.2⟩⟩
  | year =>
    refine (clamped?_eq_some_iff hmonth hmonth' hone).trans ?_
    exact ⟨fun h => ⟨⟨by simp, by simp, h.1⟩, fun _ => h.2.1, h.2.2⟩,
      fun h => ⟨h.1.inRange, h.2.1 (Or.inr rfl), h.2.2⟩⟩
  | _ =>
    exact ⟨fun h => ⟨⟨by simp, by simp, hdate⟩, by simp, (Option.some_inj.1 h).symm⟩,
      fun h => congrArg some h.2.2.symm⟩

/-- The number that the field of a date shows. -/
def field (d : Date) : DateUnit → Int
  | .day => d.dayOfMonth
  | .week => d.week
  | .month => d.month - 1
  | .year => d.year
  | _ => 0

/-- The field of the calendar shows the number that it is set to, and all else is kept. -/
theorem field_withField (hunit : unit.isOfDay false = false) (hlo : unit.range.1 ≤ n) (hhi : n ≤ unit.range.2)
    (h : d.Allows n unit) : (d.withField n unit).field unit = n ∧ d.SameBut unit (d.withField n unit) := by
  obtain ⟨hmonth, hmonth', hone, -⟩ := d.month_bounds
  cases unit with
  | day =>
    simp only [DateUnit.range] at hlo
    have hcivil := civil_withDay hlo (h.day rfl)
    have hday : (d.withField n .day).dayOfMonth = n.toNat := congrArg Civil.dayOfMonth hcivil
    have hyear : (d.withField n .day).year = d.year := by rw [year, hcivil]
    have hsame : (d.withField n .day).month = d.month := by rw [month, hcivil]
    refine ⟨?_, by rintro ⟨⟩, fun _ => hyear, fun _ => hsame, by simp, by simp⟩
    simp only [field, hday]
    omega
  | week =>
    simp only [DateUnit.range] at hlo
    have hmost := h.week rfl
    obtain ⟨hyear, hweek, hweekday⟩ := week_ofWeek d.weekday (show 1 ≤ n.toNat by omega)
      (show n.toNat ≤ weeksInYear d.weekYear by omega)
    refine ⟨?_, by rintro ⟨⟩, by simp, by simp, by simp, fun _ => ⟨hyear, hweekday⟩⟩
    simp only [field, withField, hweek]
    omega
  | month =>
    simp only [DateUnit.range] at hlo hhi
    have hcivil : (d.withField n .month).civil = _ := civil_clamped (by omega) (by omega) hone
    have hsame : (d.withField n .month).month = n.toNat + 1 := congrArg Civil.month hcivil
    have hyear : (d.withField n .month).year = d.year := by rw [year, hcivil]
    refine ⟨?_, by rintro ⟨⟩, fun _ => hyear, by simp, fun _ => ?_, by simp⟩
    · simp only [field, hsame]
      omega
    · rw [hyear, hsame]
      exact congrArg Civil.dayOfMonth hcivil
  | year =>
    have hcivil : (d.withField n .year).civil = _ := civil_clamped hmonth hmonth' hone
    have hsame : (d.withField n .year).month = d.month := by rw [month, hcivil]
    have hyear : (d.withField n .year).year = n := congrArg Civil.year hcivil
    refine ⟨hyear, by rintro ⟨⟩, by simp, fun _ => hsame, fun _ => ?_, by simp⟩
    rw [hyear, hsame]
    exact congrArg Civil.dayOfMonth hcivil
  | _ => cases hunit

end Date

/-- There is a time with any number that the field takes. -/
theorem TimeOfDay.exists_withField? {unit : DateUnit} {v : Float} {n : Int} (t : TimeOfDay) (h : unit.Takes v n) :
    ∃ t', t.withField? n.toNat unit = some t' := by
  cases hunit : unit.isOfDay false with
  | true =>
    obtain ⟨t', ht', -⟩ := withField_of_takes (t := t) hunit h
    exact ⟨t', ht'⟩
  | false => cases unit <;> first | exact ⟨t, rfl⟩ | cases hunit

namespace Instant

variable {a b t : Instant} {w w' : Wall} {unit : DateUnit} {v : Float}

/-! ### The local date and time -/

theorem wallWith_clock (hunit : unit.isOfDay false = true) : wallWith w v unit =
    fieldValue unit unit.range.1 unit.range.2 v >>= fun n =>
      .ok ((w.time.withField? n.toNat unit).map fun time => ⟨w.date, time⟩) := by
  cases unit <;> first | rfl | cases hunit

/-- The days of a month are as many as the calendar says, also for the last month of the range, whose length is not known. -/
theorem wallWith_day (hdate : w.date.inRange = true) : wallWith w v .day =
    fieldValue .day 1 (daysInMonth w.date.year w.date.month) v >>= fun n =>
      .ok ((w.date.withField? n .day).map fun date => ⟨date, w.time⟩) := by
  have hdays : w.date.InLastMonth → daysInMonth w.date.year w.date.month = 31 := by
    intro hlast
    rw [hlast.2]
    rfl
  unfold wallWith
  rw [Date.monthLength?_eq hdate]
  by_cases hlast : w.date.InLastMonth
  · rw [if_pos hlast, hdays hlast]
    rfl
  · rw [if_neg hlast]
    rfl

/-- The date found for a week, with the time; or the fault that the year has no such week. -/
def orNoWeek (date : Option Date) (time : TimeOfDay) (year week : Int) : Except CalendarCause (Option Wall) :=
  match date with
  | some date => .ok (some ⟨date, time⟩)
  | none => .error (.noWeek year week)

theorem wallWith_week : wallWith w v .week =
    fieldValue .week 1 53 v >>= fun n => orNoWeek (w.date.withField? n .week) w.time w.date.weekYear n := rfl

theorem wallWith_month : wallWith w v .month =
    fieldValue .month 0 11 v >>= fun n => .ok ((w.date.withField? n .month).map fun date => ⟨date, w.time⟩) := rfl

theorem wallWith_year : wallWith w v .year =
    fieldValue .year (-999999999) 999999999 v >>= fun n =>
      .ok ((w.date.withField? n .year).map fun date => ⟨date, w.time⟩) := rfl

theorem map_time_eq_some_iff {date : Date} {time : Option TimeOfDay} :
    time.map (fun time => (⟨date, time⟩ : Wall)) = some w ↔ some date = some w.date ∧ time = some w.time := by
  cases w
  cases time <;> simp

theorem map_date_eq_some_iff {date : Option Date} {time : TimeOfDay} :
    date.map (fun date => (⟨date, time⟩ : Wall)) = some w ↔ date = some w.date ∧ some time = some w.time := by
  cases w
  cases date <;> simp

theorem orNoWeek_eq_ok_iff {date : Option Date} {time : TimeOfDay} {year week : Int} :
    orNoWeek date time year week = .ok (some w) ↔ date = some w.date ∧ some time = some w.time := by
  rw [← map_date_eq_some_iff]
  cases date <;> simp [orNoWeek]

/-- Setting a field of a local date and time in range has a result if the field takes the number and the date and the time with it
are found: this date and this time. -/
theorem wallWith_eq_ok_iff (hdate : w.date.inRange = true) : wallWith w v unit = .ok (some w') ↔
    ∃ n, unit.Takes v n ∧ w.date.withField? n unit = some w'.date ∧ w.time.withField? n.toNat unit = some w'.time := by
  by_cases hunit : unit.isOfDay false = true
  · have hsame : ∀ n, w.date.withField? n unit = some w.date := by
      intro n
      cases unit <;> first | rfl | cases hunit
    simp only [wallWith_clock hunit, bind_eq_ok_iff, fieldValue_eq_ok_iff, Except.ok.injEq, map_time_eq_some_iff, hsame]
    rfl
  cases unit with
  | day =>
    have hmost := Date.daysInMonth_le w.date.year w.date.month
    simp only [wallWith_day hdate, bind_eq_ok_iff, fieldValue_eq_ok_iff, Except.ok.injEq, map_date_eq_some_iff]
    refine exists_congr fun n => and_congr_left fun ⟨hfound, _⟩ => ?_
    constructor
    · rintro ⟨hint, hlo, hhi⟩
      exact ⟨hint, hlo, le_trans hhi (Int.ofNat_le.2 hmost)⟩
    -- a day that is found is one that the month has
    · rintro ⟨hint, hlo, hhi⟩
      exact ⟨hint, hlo, ((Date.withField?_eq_some_iff hdate hlo hhi).1 hfound).1.day rfl⟩
  | week =>
    simp only [wallWith_week, bind_eq_ok_iff, fieldValue_eq_ok_iff, orNoWeek_eq_ok_iff]
    rfl
  | month =>
    simp only [wallWith_month, bind_eq_ok_iff, fieldValue_eq_ok_iff, Except.ok.injEq, map_date_eq_some_iff]
    rfl
  | year =>
    simp only [wallWith_year, bind_eq_ok_iff, fieldValue_eq_ok_iff, Except.ok.injEq, map_date_eq_some_iff]
    rfl
  | _ => exact absurd rfl hunit

/-- The local date and time with another field are in range. -/
theorem inRange_of_wallWith (hdate : w.date.inRange = true) (h : wallWith w v unit = .ok (some w')) : w'.inRange = true := by
  obtain ⟨n, ⟨-, hlo, hhi⟩, hfound, -⟩ := (wallWith_eq_ok_iff hdate).1 h
  obtain ⟨hallows, -, hsame⟩ := (Date.withField?_eq_some_iff hdate hlo hhi).1 hfound
  rw [Wall.inRange, hsame]
  exact hallows.inRange

/-! ### Universal time -/

theorem orOutOfRange_eq_ok_iff {r : Option Instant} : orOutOfRange r = .ok t ↔ r = some t := by
  cases r <;> simp [orOutOfRange]

/-- In universal time setting a field ends at the instant of the local date and time with it. -/
theorem withField_eq_ok_iff_wallWith : a.withField v unit .utc = .ok b ↔
    wallWith (Zone.utc.wall a) v unit = .ok (some (Zone.utc.wall b)) := by
  have hdate := Zone.inRange_wall_utc a
  have hsteps : a.withField v unit .utc =
      wallWith (Zone.utc.wall a) v unit >>= fun w => orOutOfRange (w.bind Zone.utc.resolve) := by
    rw [withField, localTime_eq hdate]
    rfl
  rw [hsteps, bind_eq_ok_iff]
  constructor
  · rintro ⟨found, hfound, hresult⟩
    rw [orOutOfRange_eq_ok_iff, Option.bind_eq_some_iff] at hresult
    obtain ⟨w', rfl, hresolve⟩ := hresult
    rwa [(Zone.resolve_utc_eq_some_iff (inRange_of_wallWith hdate hfound)).1 hresolve]
  · intro hfound
    exact ⟨_, hfound, orOutOfRange_eq_ok_iff.2
      ((Zone.resolve_utc_eq_some_iff (inRange_of_wallWith hdate hfound)).2 rfl)⟩

/-- What setting a field in universal time does, and when. -/
theorem withField_eq_ok_iff : a.withField v unit .utc = .ok b ↔ ∃ n, unit.Takes v n ∧
    (Zone.utc.wall a).date.Allows n unit ∧
    (unit = .month ∨ unit = .year → ¬ ((Zone.utc.wall a).date.withField n unit).InLastMonth) ∧
    (Zone.utc.wall b).date = (Zone.utc.wall a).date.withField n unit ∧
    (Zone.utc.wall a).time.withField? n.toNat unit = some (Zone.utc.wall b).time := by
  have hdate := Zone.inRange_wall_utc a
  rw [withField_eq_ok_iff_wallWith, wallWith_eq_ok_iff hdate]
  refine exists_congr fun n => and_congr_right fun ⟨_, hlo, hhi⟩ => ?_
  rw [Date.withField?_eq_some_iff hdate hlo hhi]
  simp only [and_assoc]

theorem field_clock {z : Zone} (hunit : unit.isOfDay false = true) : t.field unit z = ((z.wall t).time.field unit : Nat) := by
  cases unit <;> first | rfl | cases hunit

theorem field_calendar {z : Zone} (hunit : unit.isOfDay false = false) : t.field unit z = (z.wall t).date.field unit := by
  obtain ⟨hmonth, -⟩ := (z.wall t).date.month_bounds
  cases unit with
  | month =>
    simp only [field, Date.field]
    omega
  | day | week | year => rfl
  | _ => cases hunit

/-- A field of an instant that is set in universal time shows the number.  A field of the clock leaves the date alone, and of the
time all that it does not cover.  A field of the calendar leaves the time alone: the day leaves year and month, month and year
leave each other and the day, as far as the month reaches, and the week leaves the year of weeks and the weekday. -/
theorem withField_frames (h : a.withField v unit .utc = .ok b) : Double.IsInt v (b.field unit .utc) ∧
    (Zone.utc.wall a).date.SameBut unit (Zone.utc.wall b).date ∧
    (Zone.utc.wall a).time.SameBut unit (Zone.utc.wall b).time := by
  obtain ⟨n, htakes, hallows, -, hdate, htime⟩ := withField_eq_ok_iff.1 h
  have ⟨hint, hlo, hhi⟩ := htakes
  rw [hdate]
  cases hunit : unit.isOfDay false with
  | true =>
    obtain ⟨t', ht', -, hfield, hsame⟩ := TimeOfDay.withField_of_takes (t := (Zone.utc.wall a).time) hunit htakes
    have htime' : (Zone.utc.wall b).time = t' := Option.some_inj.1 (htime.symm.trans ht')
    rw [field_clock hunit, htime', hfield, Date.withField_clock hunit]
    exact ⟨hint, Date.sameBut_clock hunit _, hsame⟩
  | false =>
    obtain ⟨hfield, hsame⟩ := Date.field_withField hunit hlo hhi hallows
    have htime' : (Zone.utc.wall b).time = (Zone.utc.wall a).time := by
      cases unit <;> first | exact (Option.some_inj.1 htime).symm | cases hunit
    rw [field_calendar hunit, hdate, hfield, htime']
    exact ⟨hint, hsame, TimeOfDay.SameBut.refl unit _⟩

/-- Twenty past ten on the last day of January, 2020. -/
def lastOfJanuary : Instant := ⟨1580466030, 400000007, by decide, by decide, by decide⟩

/-- The same time on the leap day after it. -/
def leapDay : Instant := ⟨1582971630, 400000007, by decide, by decide, by decide⟩

theorem withField_frames_month : lastOfJanuary.withField 1 .month .utc = .ok leapDay ∧
    leapDay.field .month .utc = 1 ∧ leapDay.field .year .utc = 2020 ∧ leapDay.field .day .utc = 29 ∧
    (Zone.utc.wall leapDay).time = (Zone.utc.wall lastOfJanuary).time := by
  have hset : lastOfJanuary.withField 1 .month .utc = .ok leapDay := by decide +kernel
  obtain ⟨hint, hdate, htime⟩ := withField_frames hset
  have hfield : leapDay.field .month .utc = 1 :=
    Option.some_inj.1 (hint.2.symm.trans (by decide +kernel : Double.toInt? 1 = some 1))
  have hyear : (Zone.utc.wall leapDay).date.year = 2020 := (hdate.year (Or.inr rfl)).trans (by decide +kernel)
  exact ⟨hset, hfield, hyear, by decide +kernel, htime.calendar rfl⟩

/-- In universal time a field of an instant can be set exactly if the field takes the number, the month has the day, the year has
the week, and the date is in range; but for month and year also not in the last month of the range. -/
theorem withField_succeeds_iff (a : Instant) (v : Float) (unit : DateUnit) : (∃ b, a.withField v unit .utc = .ok b) ↔
    ∃ n, unit.Takes v n ∧ (Zone.utc.wall a).date.Allows n unit ∧
      (unit = .month ∨ unit = .year → ¬ ((Zone.utc.wall a).date.withField n unit).InLastMonth) := by
  constructor
  · rintro ⟨b, h⟩
    obtain ⟨n, htakes, hallows, hlast, -⟩ := withField_eq_ok_iff.1 h
    exact ⟨n, htakes, hallows, hlast⟩
  · rintro ⟨n, htakes, hallows, hlast⟩
    obtain ⟨t', ht'⟩ := TimeOfDay.exists_withField? (Zone.utc.wall a).time htakes
    obtain ⟨b, -, hb⟩ := Zone.exists_resolve_utc (w := ⟨(Zone.utc.wall a).date.withField n unit, t'⟩) hallows.inRange
    refine ⟨b, withField_eq_ok_iff.2 ⟨n, htakes, hallows, hlast, ?_, ?_⟩⟩
    · rw [hb]
    · rw [hb]
      exact ht'

theorem withField_succeeds_iff_month : ∃ b, lastOfJanuary.withField 1 .month .utc = .ok b :=
  (withField_succeeds_iff lastOfJanuary 1 .month).2
    ⟨1, ⟨by decide +kernel, by decide, by decide⟩, ⟨by simp, by simp, by decide +kernel⟩, fun _ => by decide +kernel⟩

/-- The last instant lies in December already, but its month cannot be set to December: the length of the month is looked up at
the first day of the next one, which no program can hold. -/
theorem withField_last_month : (∃ n, DateUnit.month.Takes 11 n ∧ (Zone.utc.wall last).date.Allows n .month) ∧
    ¬ ∃ b, last.withField 11 .month .utc = .ok b := by
  refine ⟨⟨11, ⟨by decide +kernel, by decide, by decide⟩, by simp, by simp, by decide +kernel⟩, ?_⟩
  rintro ⟨b, h⟩
  have hfails : last.withField 11 .month .utc = .error .outOfRange := by decide +kernel
  rw [hfails] at h
  cases h

end Instant

end Rowwise
