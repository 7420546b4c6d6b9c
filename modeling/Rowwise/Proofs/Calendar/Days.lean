import Mathlib.Order.Monotone.Basic
import Mathlib.Tactic.IntervalCases
import Rowwise.Calendar.Date

/-!
# Rowwise.Proofs.Calendar.Days — dates and their civil names

Years are counted from March within eras of 400 years.  The year of a day within its era is found by taking out the leap days
before it (`Date.yearOfEra_spec`); so year, month and day of a date name it (`Date.ofCivil_civil`) and are names that the
calendar has (`Date.isValid_civil`), and all such names are those of a date (`Date.civil_ofCivil`).  The days of a year are those
from its January 1 to the next (`Date.year_eq_iff`).
-/

namespace Rowwise.Date

/-! ### Years of an era -/

/-- Days from the start of an era to March 1 of its year `y`. -/
def daysBeforeYear (y : Nat) : Nat := 365 * y + y / 4 - y / 100 + y / 400

/-- The days of an era without their leap days, and a day for each leap day that a century lacks. -/
def commonDays (d : Nat) : Nat := d - d / 1460 + d / 36524 - d / 146096

theorem commonDays_mono : Monotone commonDays := by
  refine monotone_nat_of_le_succ fun d => ?_
  unfold commonDays
  omega

/-- The first day of each year has all days of the years before, and the day before it has not. -/
theorem commonDays_year : ∀ y < 400, 365 * y ≤ commonDays (daysBeforeYear y) ∧
    (y ≠ 0 → commonDays (daysBeforeYear y - 1) < 365 * y) := by
  decide +kernel

theorem yearOfEra_spec {d : Nat} (h : d < 146097) :
    commonDays d / 365 < 400 ∧ daysBeforeYear (commonDays d / 365) ≤ d ∧ d < daysBeforeYear (commonDays d / 365 + 1) := by
  have hyear : commonDays d / 365 < 400 := by
    have hlast : commonDays d ≤ commonDays 146096 := commonDays_mono (by omega)
    have hcount : commonDays 146096 = 145999 := by decide
    omega
  refine ⟨hyear, ?_, ?_⟩
  · by_contra hbefore
    have hpositive : commonDays d / 365 ≠ 0 := by
      intro hzero
      rw [hzero] at hbefore
      exact hbefore (Nat.zero_le d)
    have hless := (commonDays_year _ hyear).2 hpositive
    have hmono : commonDays d ≤ commonDays (daysBeforeYear (commonDays d / 365) - 1) := commonDays_mono (by omega)
    omega
  · by_contra hafter
    by_cases hnext : commonDays d / 365 + 1 < 400
    · have hreached := (commonDays_year _ hnext).1
      have hmono : commonDays (daysBeforeYear (commonDays d / 365 + 1)) ≤ commonDays d := commonDays_mono (by omega)
      omega
    -- the last year ends with the era
    · have hlast : commonDays d / 365 + 1 = 400 := by omega
      have hdays : daysBeforeYear 400 = 146097 := by decide
      rw [hlast, hdays] at hafter
      omega

/-! ### Days of a year -/

theorem marchFirst_era (era : Int) {y : Nat} (hy : y ≤ 400) :
    marchFirst (y + era * 400) = era * 146097 + (daysBeforeYear y : Nat) - 719468 := by
  unfold marchFirst daysBeforeYear
  omega

/-- From March to March there is a leap day just if the second year is a leap year. -/
theorem marchFirst_succ (y : Int) : marchFirst (y + 1) = marchFirst y + daysInYear (y + 1) := by
  have hleap : isLeap (y + 1) = true ↔ (y + 1) % 4 = 0 ∧ ((y + 1) % 100 ≠ 0 ∨ (y + 1) % 400 = 0) := by
    simp [isLeap]
  unfold daysInYear marchFirst
  by_cases h : isLeap (y + 1) = true
  · rw [if_pos h]
    have := hleap.1 h
    omega
  · rw [if_neg h]
    have := mt hleap.2 h
    omega

/-- The months since March of a day of a year from March on. -/
def monthsSinceMarch (n : Nat) : Nat := (5 * n + 2) / 153

/-- The names of the day `n` of the year from March of `y` on. -/
def marchCivil (y : Int) (n : Nat) : Civil :=
  let m := monthsSinceMarch n
  ⟨if m < 10 then y else y + 1, if m < 10 then m + 3 else m - 9, n - daysBeforeMonth m + 1⟩

/-- A date by the year from March on and the day of that year. -/
theorem exists_marchDay (d : Date) : ∃ (y : Int) (n : Nat), d.day = marchFirst y + n ∧ n < daysInYear (y + 1) ∧
    d.civil = marchCivil y n := by
  have hera : ((d.day + 719468) % 146097).toNat < 146097 := by omega
  obtain ⟨hyear, hfirst, hlast⟩ := yearOfEra_spec hera
  generalize hdayOfEra : ((d.day + 719468) % 146097).toNat = dayOfEra at hera hyear hfirst hlast
  generalize hy : commonDays dayOfEra / 365 = y at hyear hfirst hlast
  have hday : d.day = marchFirst (y + (d.day + 719468) / 146097 * 400) + (dayOfEra - daysBeforeYear y : Nat) := by
    rw [marchFirst_era _ (by omega)]
    omega
  have hlength : daysInYear (y + (d.day + 719468) / 146097 * 400 + 1) = daysBeforeYear (y + 1) - daysBeforeYear y := by
    have hsucc := marchFirst_succ (y + (d.day + 719468) / 146097 * 400)
    have hnext := marchFirst_era ((d.day + 719468) / 146097) (y := y + 1) (by omega)
    rw [marchFirst_era _ (by omega)] at hsucc
    rw [show ((y + 1 : Nat) : Int) + (d.day + 719468) / 146097 * 400 = y + (d.day + 719468) / 146097 * 400 + 1 by omega,
      hsucc] at hnext
    omega
  refine ⟨y + (d.day + 719468) / 146097 * 400, dayOfEra - daysBeforeYear y, hday, by omega, ?_⟩
  have hdaysBefore : 365 * y + y / 4 - y / 100 = daysBeforeYear y := by
    unfold daysBeforeYear
    omega
  unfold civil
  simp only [hdayOfEra]
  change commonDays dayOfEra / 365 = y at hy
  unfold commonDays at hy
  simp only [hy, hdaysBefore]
  unfold marchCivil monthsSinceMarch
  simp only
  by_cases hm : (5 * (dayOfEra - daysBeforeYear y) + 2) / 153 < 10
  · rw [if_pos hm, if_pos hm, if_neg (by omega)]
  · rw [if_neg hm, if_neg hm, if_pos (by omega)]

theorem daysInYear_le (y : Int) : daysInYear y ≤ 366 := by
  unfold daysInYear
  split <;> decide

theorem le_daysInYear (y : Int) : 365 ≤ daysInYear y := by
  unfold daysInYear
  split <;> decide

/-- The names of a day from March on name it. -/
theorem ofCivil_marchCivil {y : Int} {n : Nat} (hn : n < 366) : ofCivil (marchCivil y n) = ⟨marchFirst y + n⟩ := by
  have hmonths : monthsSinceMarch n ≤ 11 := by
    unfold monthsSinceMarch
    omega
  have hbefore : daysBeforeMonth (monthsSinceMarch n) ≤ n := by
    unfold monthsSinceMarch daysBeforeMonth
    omega
  unfold ofCivil marchCivil
  generalize monthsSinceMarch n = m at hmonths hbefore
  by_cases hm : m < 10
  · have hback : (m + 3 + 9) % 12 = m := by omega
    simp only [if_pos hm, if_neg (show ¬ m + 3 ≤ 2 by omega), hback]
    congr 1
    omega
  · have hback : (m - 9 + 9) % 12 = m := by omega
    simp only [if_neg hm, if_pos (show m - 9 ≤ 2 by omega), hback, Int.add_sub_cancel]
    congr 1
    omega

/-- Of the days of a year from March on, those named have a place in their month. -/
theorem isValid_marchCivil {y : Int} {n : Nat} (hn : n < daysInYear (y + 1)) : (marchCivil y n).isValid = true := by
  have hlength := daysInYear_le (y + 1)
  have hmonths : monthsSinceMarch n ≤ 11 := by
    unfold monthsSinceMarch
    omega
  have hwithin : daysBeforeMonth (monthsSinceMarch n) ≤ n ∧ n < daysBeforeMonth (monthsSinceMarch n + 1) := by
    unfold monthsSinceMarch daysBeforeMonth
    omega
  unfold marchCivil Civil.isValid
  generalize monthsSinceMarch n = m at hmonths hwithin
  unfold daysBeforeMonth at hwithin ⊢
  unfold daysInYear at hn
  -- February, which comes last, has as many days as the year leaves
  cases hleap : isLeap (y + 1) with
  | true =>
    rw [if_pos hleap] at hn
    interval_cases m <;> simp [daysInMonth, hleap] <;> omega
  | false =>
    rw [if_neg (Bool.eq_false_iff.1 hleap)] at hn
    interval_cases m <;> simp [daysInMonth, hleap] <;> omega

/-- The names of a date name it. -/
theorem ofCivil_civil (d : Date) : ofCivil d.civil = d := by
  obtain ⟨y, n, hday, hn, hcivil⟩ := d.exists_marchDay
  have hlength := daysInYear_le (y + 1)
  rw [hcivil, ofCivil_marchCivil (by omega), ← hday]

/-- The names of a date are names that the calendar has. -/
theorem isValid_civil (d : Date) : d.civil.isValid = true := by
  obtain ⟨y, n, -, hn, hcivil⟩ := d.exists_marchDay
  rw [hcivil]
  exact isValid_marchCivil hn

theorem marchFirst_mono {y y' : Int} (h : y ≤ y') : marchFirst y ≤ marchFirst y' := by
  unfold marchFirst
  omega

/-- A day belongs to one year from March on. -/
theorem marchYear_unique {y y' : Int} {n n' : Nat} (h : marchFirst y + n = marchFirst y' + n') (hn : n < daysInYear (y + 1))
    (hn' : n' < daysInYear (y' + 1)) : y = y' := by
  have hsucc := marchFirst_succ y
  have hsucc' := marchFirst_succ y'
  rcases Int.lt_trichotomy y y' with hless | heq | hmore
  · have := marchFirst_mono (show y + 1 ≤ y' by omega)
    omega
  · exact heq
  · have := marchFirst_mono (show y' + 1 ≤ y by omega)
    omega

theorem monthsSinceMarch_eq {m n : Nat} (hfirst : daysBeforeMonth m ≤ n) (hlast : n < daysBeforeMonth (m + 1)) :
    monthsSinceMarch n = m := by
  unfold daysBeforeMonth at hfirst hlast
  unfold monthsSinceMarch
  omega

theorem daysInMonth_le (year : Int) (month : Nat) : daysInMonth year month ≤ 31 := by
  unfold daysInMonth
  split <;> split <;> omega

/-- The months since March of a month of the calendar. -/
def marchMonth (month : Nat) : Nat := (month + 9) % 12

/-- A month ends before the next one begins; after February, which comes last, a new year does. -/
theorem daysBeforeMonth_add_le {year : Int} {month : Nat} (h : 1 ≤ month) (h' : month ≤ 12) :
    daysBeforeMonth (marchMonth month) + daysInMonth year month ≤ daysBeforeMonth (marchMonth month + 1) := by
  unfold daysInMonth marchMonth daysBeforeMonth
  by_cases hleap : isLeap year = true
  · interval_cases month <;> simp [hleap]
  · interval_cases month <;> simp [hleap]

theorem daysBeforeMonth_february (year : Int) : daysBeforeMonth (marchMonth 2) + daysInMonth year 2 = daysInYear year := by
  unfold daysInYear daysInMonth
  rw [if_pos rfl]
  split <;> rfl

/-- Names that the calendar has are those of a day of a year from March on. -/
theorem exists_marchCivil {c : Civil} (h : c.isValid = true) :
    ∃ (y : Int) (n : Nat), n < daysInYear (y + 1) ∧ marchCivil y n = c := by
  obtain ⟨year, month, day⟩ := c
  simp only [Civil.isValid, Bool.and_eq_true, decide_eq_true_eq] at h
  obtain ⟨⟨⟨hmonth, hmonth'⟩, hday⟩, hday'⟩ := h
  have hlength : daysBeforeMonth (marchMonth month) + daysInMonth year month ≤ daysBeforeMonth (marchMonth month + 1) :=
    daysBeforeMonth_add_le hmonth hmonth'
  have hm := monthsSinceMarch_eq (m := marchMonth month) (n := daysBeforeMonth (marchMonth month) + (day - 1)) (by omega)
    (by omega)
  refine ⟨if month ≤ 2 then year - 1 else year, daysBeforeMonth (marchMonth month) + (day - 1), ?_, ?_⟩
  · by_cases hfebruary : month = 2
    · subst hfebruary
      rw [if_pos (by decide), Int.sub_add_cancel, ← daysBeforeMonth_february]
      omega
    · have hnext : daysBeforeMonth (marchMonth month + 1) ≤ 337 := by
        unfold daysBeforeMonth marchMonth
        omega
      have := le_daysInYear ((if month ≤ 2 then year - 1 else year) + 1)
      omega
  · unfold marchCivil
    simp only [hm, Civil.mk.injEq]
    unfold marchMonth
    split <;> split <;> omega

/-- Names that the calendar has are the names of the day that they name. -/
theorem civil_ofCivil {c : Civil} (h : c.isValid = true) : (ofCivil c).civil = c := by
  obtain ⟨y, n, hn, rfl⟩ := exists_marchCivil h
  have hlength := daysInYear_le (y + 1)
  obtain ⟨y', n', hday, hn', hcivil⟩ := (ofCivil (marchCivil y n)).exists_marchDay
  rw [ofCivil_marchCivil (by omega)] at hday hcivil ⊢
  have hyear : y = y' := marchYear_unique hday hn hn'
  subst hyear
  have hsame : n = n' := by
    simp only at hday
    omega
  rw [hcivil, hsame]

/-! ### Years -/

theorem newYear_day (y : Int) : (newYear y).day = marchFirst (y - 1) + 306 := by
  show marchFirst (y - 1) + ((daysBeforeMonth 10 : Nat) : Int) + 1 - 1 = _
  unfold daysBeforeMonth
  omega

theorem newYear_succ (y : Int) : (newYear (y + 1)).day = (newYear y).day + daysInYear y := by
  have hsucc := marchFirst_succ (y - 1)
  rw [Int.sub_add_cancel] at hsucc
  rw [newYear_day, newYear_day, Int.add_sub_cancel, hsucc]
  omega

/-- A year begins with January 1 and ends with the day before the next one. -/
theorem newYear_le (d : Date) : (newYear d.year).day ≤ d.day ∧ d.day < (newYear (d.year + 1)).day := by
  obtain ⟨y, n, hday, hn, hcivil⟩ := d.exists_marchDay
  have hyear : d.year = if n < 306 then y else y + 1 := by
    have hmonth : monthsSinceMarch n < 10 ↔ n < 306 := by
      unfold monthsSinceMarch
      omega
    rw [year, hcivil, marchCivil]
    simp only [hmonth]
  have hsucc := marchFirst_succ y
  have hsucc' := marchFirst_succ (y - 1)
  rw [Int.sub_add_cancel] at hsucc'
  have hlength := le_daysInYear y
  rw [newYear_day, newYear_day, hyear]
  split
  · rw [Int.add_sub_cancel]
    omega
  · rw [Int.add_sub_cancel, show y + 1 + 1 - 1 = y + 1 by omega]
    omega

theorem newYear_mono {y y' : Int} (h : y ≤ y') : (newYear y).day ≤ (newYear y').day := by
  have := marchFirst_mono (show y - 1 ≤ y' - 1 by omega)
  rw [newYear_day, newYear_day]
  omega

theorem year_eq_iff {d : Date} {y : Int} : d.year = y ↔ (newYear y).day ≤ d.day ∧ d.day < (newYear (y + 1)).day := by
  have hself := d.newYear_le
  refine ⟨fun h => h ▸ hself, fun ⟨hfirst, hlast⟩ => ?_⟩
  rcases Int.lt_trichotomy d.year y with hless | heq | hmore
  · have := newYear_mono (show d.year + 1 ≤ y by omega)
    omega
  · exact heq
  · have := newYear_mono (show y + 1 ≤ d.year by omega)
    omega

/-! ### Range -/

theorem first_day : first.day = -96465292 := by decide

theorem last_day : last.day = 95026236 := by decide

theorem inRange_iff {d : Date} : d.inRange = true ↔ -96465292 ≤ d.day ∧ d.day ≤ 95026236 := by
  rw [inRange, first_day, last_day, Bool.and_eq_true, decide_eq_true_eq, decide_eq_true_eq]

/-- The dates in range are those of the years from -262143 to 262142. -/
theorem inRange_iff_year {d : Date} : d.inRange = true ↔ -262143 ≤ d.year ∧ d.year ≤ 262142 := by
  have hfirst : (newYear (-262143)).day = -96465292 := first_day
  have hend : (newYear 262143).day = 95026237 := by decide
  have hself := d.newYear_le
  rw [inRange_iff]
  constructor
  · intro h
    constructor
    · by_contra hless
      have := newYear_mono (show d.year + 1 ≤ -262143 by omega)
      omega
    · by_contra hmore
      have := newYear_mono (show 262143 ≤ d.year by omega)
      omega
  · intro h
    have := newYear_mono h.1
    have := newYear_mono (show d.year + 1 ≤ 262143 by omega)
    omega

/-- The year of a date is that from March on or the one after it. -/
theorem exists_marchYear (d : Date) :
    ∃ (y : Int) (n : Nat), d.day = marchFirst y + n ∧ n < 366 ∧ y ≤ d.year ∧ d.year ≤ y + 1 := by
  obtain ⟨y, n, hday, hn, hcivil⟩ := d.exists_marchDay
  have hlength := daysInYear_le (y + 1)
  refine ⟨y, n, hday, by omega, ?_⟩
  rw [year, hcivil]
  unfold marchCivil
  dsimp only
  split <;> omega

theorem day_of_year {d : Date} (h : 0 ≤ d.year) (h' : d.year ≤ 9999) : -800000 ≤ d.day ∧ d.day ≤ 3000400 := by
  obtain ⟨y, n, hday, hn, hyear⟩ := d.exists_marchYear
  have hbounds : marchFirst y ≤ 3000000 ∧ -800000 ≤ marchFirst y := by
    unfold marchFirst
    omega
  omega

/-- A date with a year of four digits is far from the ends of the range. -/
theorem inRange_of_year {d : Date} (h : 0 ≤ d.year) (h' : d.year ≤ 9999) : d.inRange = true := by
  have hday := day_of_year h h'
  rw [inRange_iff]
  omega

/-- Years in range have six digits. -/
theorem natAbs_year_of_inRange {d : Date} (h : d.inRange = true) : d.year.natAbs < 1000000 := by
  obtain ⟨y, n, hday, hn, hyear⟩ := d.exists_marchYear
  rw [inRange_iff] at h
  unfold marchFirst at hday
  omega

/-- The names of a date in range are read back. -/
theorem ofCivil?_civil {d : Date} (h : d.inRange = true) : ofCivil? d.civil.year d.civil.month d.civil.dayOfMonth = some d := by
  show (if d.civil.isValid then (ofCivil d.civil).checked else none) = some d
  rw [if_pos d.isValid_civil, ofCivil_civil, checked, if_pos h]

end Rowwise.Date
