import Rowwise.Proofs.Calendar.Days

/-!
# Rowwise.Proofs.Calendar.MonthsAndWeeks — dates by their months and weeks

A month is as long as its days reach, to the first day of the next one (`Date.monthLength?_eq`); so each day of a month in range is
found (`Date.clamped?_eq`), but for the last month of the range, which has no next one.  A week is named by its Thursday
(`Date.week_eq`): year, week and weekday of a date name it (`Date.ofWeek?_week`), and a date that they name has them
(`Date.week_ofWeek`).
-/

namespace Rowwise.Date

/-! ### Months -/

/-- The month that follows. -/
def nextMonth (year : Int) (month : Nat) : Int × Nat := if month = 12 then (year + 1, 1) else (year, month + 1)

/-- The first day of a month. -/
def monthStart (year : Int) (month : Nat) : Date := ofCivil ⟨year, month, 1⟩

variable {year : Int} {month : Nat}

theorem one_le_daysInMonth (year : Int) (month : Nat) : 1 ≤ daysInMonth year month := by
  unfold daysInMonth
  split
  · split <;> decide
  · split <;> decide

theorem isValid_monthStart (h : 1 ≤ month) (h' : month ≤ 12) : (⟨year, month, 1⟩ : Civil).isValid = true := by
  simp [Civil.isValid, h, h', one_le_daysInMonth]

theorem nextMonth_bounds (h' : month ≤ 12) : 1 ≤ (nextMonth year month).2 ∧ (nextMonth year month).2 ≤ 12 := by
  unfold nextMonth
  split <;> simp only <;> omega

/-- The days of a month reach to the first day of the next one. -/
theorem nextMonth_day (h : 1 ≤ month) (h' : month ≤ 12) : (monthStart (nextMonth year month).1 (nextMonth year month).2).day =
    (monthStart year month).day + daysInMonth year month := by
  have hsucc := marchFirst_succ (year - 1)
  rw [Int.sub_add_cancel, ← daysBeforeMonth_february] at hsucc
  unfold monthStart nextMonth ofCivil daysBeforeMonth
  unfold marchMonth daysBeforeMonth at hsucc
  interval_cases month <;> simp [daysInMonth] at hsucc ⊢ <;> omega

theorem addMonths?_one (h : 1 ≤ month) (h' : month ≤ 12) :
    (monthStart year month).addMonths? 1 = (monthStart (nextMonth year month).1 (nextMonth year month).2).checked := by
  have hcivil : (monthStart year month).civil = ⟨year, month, 1⟩ := civil_ofCivil (isValid_monthStart h h')
  have hindex : ((monthStart year month).monthIndex + 1) / 12 = (nextMonth year month).1 ∧
      (((monthStart year month).monthIndex + 1) % 12).toNat + 1 = (nextMonth year month).2 := by
    unfold monthIndex nextMonth Date.year Date.month
    rw [hcivil]
    by_cases hlast : month = 12
    · rw [if_pos hlast]
      simp only
      omega
    · rw [if_neg hlast]
      simp only
      omega
  have hday : (monthStart year month).dayOfMonth = 1 := congrArg Civil.dayOfMonth hcivil
  unfold addMonths?
  simp only [hindex.1, hindex.2, hday, Nat.min_eq_left (one_le_daysInMonth _ _)]
  exact if_pos (isValid_monthStart (nextMonth_bounds h').1 (nextMonth_bounds h').2)

/-- The last month of the range, after which no other follows. -/
def InLastMonth (d : Date) : Prop := d.year = 262142 ∧ d.month = 12

instance (d : Date) : Decidable d.InLastMonth := inferInstanceAs (Decidable (_ ∧ _))

variable {d : Date}

theorem month_bounds (d : Date) : 1 ≤ d.month ∧ d.month ≤ 12 ∧ 1 ≤ d.dayOfMonth ∧ d.dayOfMonth ≤ daysInMonth d.year d.month := by
  have hvalid := d.isValid_civil
  simp only [Civil.isValid, Bool.and_eq_true, decide_eq_true_eq] at hvalid
  exact ⟨hvalid.1.1.1, hvalid.1.1.2, hvalid.1.2, hvalid.2⟩

theorem inRange_monthStart (h : 1 ≤ month) (h' : month ≤ 12) :
    (monthStart year month).inRange = true ↔ -262143 ≤ year ∧ year ≤ 262142 := by
  have hyear : (monthStart year month).year = year := congrArg Civil.year (civil_ofCivil (isValid_monthStart h h'))
  rw [inRange_iff_year, hyear]

/-- In range every month but the last has the length that the calendar gives it. -/
theorem monthLength?_eq (h : d.inRange = true) :
    monthLength? d.year d.month = if d.InLastMonth then none else some (daysInMonth d.year d.month) := by
  obtain ⟨hmonth, hmonth', -, -⟩ := d.month_bounds
  have hyear := inRange_iff_year.1 h
  have hstart : ofCivil? d.year d.month 1 = some (monthStart d.year d.month) := by
    show (if (⟨d.year, d.month, 1⟩ : Civil).isValid then (monthStart d.year d.month).checked else none) = _
    rw [if_pos (isValid_monthStart hmonth hmonth'), checked, if_pos ((inRange_monthStart hmonth hmonth').2 hyear)]
  have hnext : (monthStart (nextMonth d.year d.month).1 (nextMonth d.year d.month).2).inRange = true ↔ ¬ d.InLastMonth := by
    rw [inRange_monthStart (nextMonth_bounds hmonth').1 (nextMonth_bounds hmonth').2]
    unfold InLastMonth nextMonth
    split <;> simp only <;> omega
  unfold monthLength?
  simp only [hstart, bind, Option.bind, addMonths?_one hmonth hmonth', checked, hnext]
  by_cases hlast : d.InLastMonth
  · rw [if_pos hlast, if_neg (not_not.2 hlast)]
  · rw [if_neg hlast, if_pos hlast]
    simp only [nextMonth_day hmonth hmonth', add_sub_cancel_left, Int.toNat_natCast]
    rfl

theorem year_monthStart (h : 1 ≤ month) (h' : month ≤ 12) : (monthStart year month).year = year :=
  congrArg Civil.year (civil_ofCivil (isValid_monthStart h h'))

theorem month_monthStart (h : 1 ≤ month) (h' : month ≤ 12) : (monthStart year month).month = month :=
  congrArg Civil.month (civil_ofCivil (isValid_monthStart h h'))

theorem checked_eq_none (h : ¬ d.inRange = true) : d.checked = none := if_neg h

/-- The day of a month or, if the month is shorter, its last day; in range or not. -/
def clamped (year : Int) (month dayOfMonth : Nat) : Date := ofCivil ⟨year, month, min dayOfMonth (daysInMonth year month)⟩

section Clamped

variable {dayOfMonth : Nat} (h : 1 ≤ month) (h' : month ≤ 12) (hday : 1 ≤ dayOfMonth)

include h h' hday

theorem isValid_clamped : (⟨year, month, min dayOfMonth (daysInMonth year month)⟩ : Civil).isValid = true := by
  have := one_le_daysInMonth year month
  simp only [Civil.isValid, Bool.and_eq_true, decide_eq_true_eq]
  omega

theorem civil_clamped :
    (clamped year month dayOfMonth).civil = ⟨year, month, min dayOfMonth (daysInMonth year month)⟩ :=
  civil_ofCivil (isValid_clamped h h' hday)

theorem inRange_clamped :
    (clamped year month dayOfMonth).inRange = true ↔ -262143 ≤ year ∧ year ≤ 262142 := by
  have hyear : (clamped year month dayOfMonth).year = year := congrArg Civil.year (civil_clamped h h' hday)
  rw [inRange_iff_year, hyear]

/-- The day of a month is found if the month lies in the range and is not its last. -/
theorem clamped?_eq : clamped? year month dayOfMonth =
    if (clamped year month dayOfMonth).InLastMonth then none else (clamped year month dayOfMonth).checked := by
  have hfound : ofCivil? year month (min dayOfMonth (daysInMonth year month)) = (clamped year month dayOfMonth).checked :=
    if_pos (isValid_clamped h h' hday)
  have hstart : ofCivil? year month 1 = (monthStart year month).checked := if_pos (isValid_monthStart h h')
  by_cases hrange : -262143 ≤ year ∧ year ≤ 262142
  · have hlength := monthLength?_eq ((inRange_monthStart h h').2 hrange)
    have hlast : (clamped year month dayOfMonth).InLastMonth ↔ (monthStart year month).InLastMonth := by
      have hcivil : (clamped year month dayOfMonth).civil = _ := civil_clamped h h' hday
      unfold InLastMonth
      rw [year_monthStart h h', month_monthStart h h', Date.year, Date.month, hcivil]
    rw [year_monthStart h h', month_monthStart h h'] at hlength
    unfold clamped?
    simp only [hlength, hlast, bind, Option.bind]
    by_cases hmonth : (monthStart year month).InLastMonth
    · rw [if_pos hmonth, if_pos hmonth]
    · rw [if_neg hmonth, if_neg hmonth]
      exact hfound
  -- outside of the range not even the first day of the month is found
  · have hout : (clamped year month dayOfMonth).checked = none := checked_eq_none (mt (inRange_clamped h h' hday).1 hrange)
    rw [checked_eq_none (mt (inRange_monthStart h h').1 hrange)] at hstart
    unfold clamped? monthLength?
    simp only [hstart, hout, bind, Option.bind, ite_self]

end Clamped

/-- A date is the day of its month that it says.  In the last month of the range this fails, since it has no known length. -/
theorem clamped?_self (h : d.inRange = true) :
    clamped? d.year d.month d.dayOfMonth = if d.InLastMonth then none else some d := by
  obtain ⟨hmonth, hmonth', hone, hday⟩ := d.month_bounds
  have hself : clamped d.year d.month d.dayOfMonth = d := by
    unfold clamped
    rw [Nat.min_eq_left hday]
    exact d.ofCivil_civil
  rw [clamped?_eq hmonth hmonth' hone, hself, checked, if_pos h]

theorem addMonths?_zero (h : d.inRange = true) : d.addMonths? 0 = some d := by
  obtain ⟨hmonth, hmonth', -, hday⟩ := d.month_bounds
  have hindex : (d.monthIndex + 0) / 12 = d.year ∧ ((d.monthIndex + 0) % 12).toNat + 1 = d.month := by
    unfold monthIndex
    omega
  unfold addMonths?
  simp only [hindex.1, hindex.2, Nat.min_eq_left hday]
  exact ofCivil?_civil h

/-! ### Weeks -/

theorem fromMonday_weekday (d : Date) : (d.weekday.fromMonday : Int) = (d.day + 3) % 7 := by
  have hall : ∀ n < 7, (Weekday.ofMonday n).fromMonday = n := by decide
  rw [weekday, hall _ (by omega)]
  omega

/-- Day 0 was a Thursday. -/
theorem thursday_day (d : Date) : d.thursday.day = 7 * ((d.day + 3) / 7) := by
  have := d.fromMonday_weekday
  unfold thursday addDays
  simp only
  omega

/-- The first Thursday of a year lies in its first week. -/
theorem firstMonday_day (year : Int) : (firstMonday year).day = 7 * (((newYear year).day + 6) / 7) - 3 := by
  have hjanuary : (ofCivil ⟨year, 1, 4⟩).day = (newYear year).day + 3 := by
    unfold newYear ofCivil
    simp only
    omega
  have hmonday := fromMonday_weekday (ofCivil ⟨year, 1, 4⟩)
  unfold firstMonday addDays
  simp only
  omega

theorem week_eq (d : Date) : (d.week : Int) = (d.thursday.day - (newYear d.weekYear).day) / 7 + 1 := by
  have hyear := d.thursday.newYear_le
  unfold week ordinal weekYear
  omega

theorem week_bounds (d : Date) : 1 ≤ d.week ∧ d.week ≤ 53 := by
  have hyear := d.thursday.newYear_le
  have hweek := d.week_eq
  have hlength := newYear_succ d.weekYear
  have hdays := daysInYear_le d.weekYear
  unfold weekYear at hweek hlength hdays
  omega

/-- The last Thursday of a year lies in its last week. -/
theorem weeksInYear_eq (year : Int) :
    (weeksInYear year : Int) = (7 * (((newYear (year + 1)).day - 1) / 7) - (newYear year).day) / 7 + 1 := by
  have hdecember : (ofCivil ⟨year, 12, 28⟩).day = (newYear (year + 1)).day - 4 := by
    rw [newYear_day, Int.add_sub_cancel]
    unfold ofCivil daysBeforeMonth
    rw [if_neg (by simp only; decide)]
    simp only
    omega
  have hthursday := thursday_day (ofCivil ⟨year, 12, 28⟩)
  have hlength := newYear_succ year
  have hdays := le_daysInYear year
  have hyear : (ofCivil ⟨year, 12, 28⟩).weekYear = year := year_eq_iff.2 (by omega)
  rw [weeksInYear, week_eq, hyear, hthursday, hdecember]
  omega

/-- Year, week and weekday of a date name it. -/
theorem ofWeek?_week (d : Date) : ofWeek? d.weekYear d.week d.weekday = d.checked := by
  have hthursday := d.thursday_day
  have hmonday := d.fromMonday_weekday
  have hweek := d.week_eq
  have hweeks := weeksInYear_eq d.weekYear
  have hyear : (newYear d.weekYear).day ≤ d.thursday.day ∧ d.thursday.day < (newYear (d.weekYear + 1)).day :=
    d.thursday.newYear_le
  have hfirst := firstMonday_day d.weekYear
  have hday : (firstMonday d.weekYear).addDays (7 * ((d.week : Int) - 1) + d.weekday.fromMonday) = d := by
    obtain ⟨day⟩ := d
    unfold addDays
    simp only [Date.mk.injEq] at *
    omega
  rw [ofWeek?, if_pos (by omega), hday]

/-- The weekday in a week of a year; in range or not. -/
def ofWeek (year : Int) (week : Nat) (weekday : Weekday) : Date :=
  (firstMonday year).addDays (7 * ((week : Int) - 1) + weekday.fromMonday)

theorem fromMonday_lt (w : Weekday) : w.fromMonday < 7 := by cases w <;> decide

theorem fromMonday_inj {w w' : Weekday} (h : w.fromMonday = w'.fromMonday) : w = w' := by
  cases w <;> cases w' <;> first | rfl | cases h

/-- The weeks of a year begin with a Monday. -/
theorem ofWeek_day (year : Int) (week : Nat) (weekday : Weekday) : (ofWeek year week weekday).day =
    7 * (((newYear year).day + 6) / 7) - 3 + 7 * ((week : Int) - 1) + weekday.fromMonday := by
  rw [← firstMonday_day]
  unfold ofWeek addDays
  simp only
  omega

/-- A date named by a week that its year has is in this week, of this year. -/
theorem week_ofWeek {week : Nat} (weekday : Weekday) (h : 1 ≤ week) (h' : week ≤ weeksInYear year) :
    (ofWeek year week weekday).weekYear = year ∧ (ofWeek year week weekday).week = week ∧
      (ofWeek year week weekday).weekday = weekday := by
  have hday := ofWeek_day year week weekday
  have hthursday := (ofWeek year week weekday).thursday_day
  have hmonday := (ofWeek year week weekday).fromMonday_weekday
  have hweek := (ofWeek year week weekday).week_eq
  have hweeks := weeksInYear_eq year
  have hless := fromMonday_lt weekday
  have hyear : (ofWeek year week weekday).weekYear = year := year_eq_iff.2 (by omega)
  refine ⟨hyear, ?_, fromMonday_inj (by omega)⟩
  rw [hyear] at hweek
  omega

end Rowwise.Date
