import Rowwise.Proofs.Calendar.Days
import Rowwise.Proofs.Calendar.Scanning

/-!
# Rowwise.Proofs.Calendar.Spelled — dates and times that are spelled in full

Year, month, day, hour, minute and second, each with all of its digits (`Reading.spelledText`), are read as just these fields
(`Reading.readStrict_spelled`), whatever follows.  From such fields (`Fields.spelled`) one date and one time of day are worked
out, and with an offset of less than a day one instant (`Fields.instant_spelled`).
-/

namespace Rowwise

namespace Fields

/-! ### New fields -/

section New

variable {f : Fields} {n : Int}

theorem setYear_new (hf : f.year = none) (hn : -maxSmall - 1 ≤ n ∧ n ≤ maxSmall) :
    f.setYear n = .ok { f with year := some n } := by
  rw [setYear, within, if_pos hn, hf]
  rfl

theorem setMonth_new (hf : f.month = none) (hn : 1 ≤ n ∧ n ≤ 12) : f.setMonth n = .ok { f with month := some n } := by
  rw [setMonth, within, if_pos hn, hf]
  rfl

theorem setDayOfMonth_new (hf : f.dayOfMonth = none) (hn : 1 ≤ n ∧ n ≤ 31) :
    f.setDayOfMonth n = .ok { f with dayOfMonth := some n } := by
  rw [setDayOfMonth, within, if_pos hn, hf]
  rfl

theorem setHour_new (hf : f.afternoon = none) (hf' : f.hourOfHalf = none) (hn : 0 ≤ n ∧ n ≤ 23) :
    f.setHour n = .ok { f with afternoon := some (decide (12 ≤ n)), hourOfHalf := some (n % 12) } := by
  rw [setHour, within, if_pos hn, hf]
  simp only [bind, Except.bind, agree, hf']
  rfl

theorem setMinute_new (hf : f.minute = none) (hn : 0 ≤ n ∧ n ≤ 59) : f.setMinute n = .ok { f with minute := some n } := by
  rw [setMinute, within, if_pos hn, hf]
  rfl

theorem setSecond_new (hf : f.second = none) (hn : 0 ≤ n ∧ n ≤ 60) : f.setSecond n = .ok { f with second := some n } := by
  rw [setSecond, within, if_pos hn, hf]
  rfl

theorem setNanosecond_new (hf : f.nanosecond = none) (hn : 0 ≤ n ∧ n ≤ 999999999) :
    f.setNanosecond n = .ok { f with nanosecond := some n } := by
  rw [setNanosecond, within, if_pos hn, hf]
  rfl

theorem setOffset_new (hf : f.offset = none) (hn : -maxSmall - 1 ≤ n ∧ n ≤ maxSmall) :
    f.setOffset n = .ok { f with offset := some n } := by
  rw [setOffset, within, if_pos hn, hf]
  rfl

end New

/-! ### Full dates and times -/

/-- The fields of a date and a time of day that are spelled in full, and of an offset if there is one. -/
def spelled (c : Civil) (hour minute second : Nat) (nanos : Option Nat) (offset : Option Int) : Fields where
  year := some c.year
  month := some c.month
  dayOfMonth := some c.dayOfMonth
  afternoon := some (decide (12 ≤ (hour : Int)))
  hourOfHalf := some (hour % 12)
  minute := some minute
  second := some second
  nanosecond := nanos.map Nat.cast
  offset := offset

variable {hour minute second : Nat} {nanos : Option Nat} {offset : Option Int}

theorem date_spelled {d : Date} (h : d.inRange = true) : (spelled d.civil hour minute second nanos offset).date = .ok d := by
  have hcivil := Date.ofCivil?_civil h
  simp [date, dateAndFit, spelled, resolveYear, hcivil, fitsWeek, fitsOrdinal, fits, fitsCentury, orElse, bind, Except.bind,
    pure, Except.pure]

/-- The time of day is worked out from the fields of the clock alone. -/
theorem time_clock {f : Fields} (hhour : hour < 24) (hafternoon : f.afternoon = some (decide (12 ≤ (hour : Int))))
    (hhalf : f.hourOfHalf = some ((hour : Int) % 12)) (hminute : f.minute = some (minute : Int))
    (hsecond : f.second = some (second : Int)) (hnanosecond : f.nanosecond = nanos.map Nat.cast) :
    f.time = orElse (TimeOfDay.of? (hour * 3600 + minute * 60 + (if second = 60 then 59 else second))
        (nanos.getD 0 + if second = 60 then nanosPerSecond else 0)) .outOfRange := by
  have hnanos : ((nanos.map Nat.cast).getD 0 : Int) = (nanos.getD 0 : Nat) := by cases nanos <;> rfl
  have hclock : ((if 12 ≤ (hour : Int) then 12 else 0) + (hour : Int) % 12) = hour := by
    split <;> omega
  simp only [time, hafternoon, hhalf, hminute, hsecond, hnanosecond, orElse, bind, Except.bind, Option.getD_some,
    Option.isNone_some, Bool.false_and, Bool.false_eq_true, if_false, decide_eq_true_eq, hclock, hnanos]
  by_cases hleap : second = 60
  · have hleap' : (second : Int) = 60 := by omega
    simp only [if_pos hleap, if_pos hleap']
    congr 2
  · have hleap' : ¬ (second : Int) = 60 := by omega
    simp only [if_neg hleap, if_neg hleap']
    congr 2

theorem time_spelled (c : Civil) (hhour : hour < 24) :
    (spelled c hour minute second nanos offset).time =
      orElse (TimeOfDay.of? (hour * 3600 + minute * 60 + (if second = 60 then 59 else second))
        (nanos.getD 0 + if second = 60 then nanosPerSecond else 0)) .outOfRange :=
  time_clock hhour rfl rfl rfl rfl rfl

theorem instant_spelled {d : Date} (hd : d.inRange = true) {t : TimeOfDay} {o : Int}
    (ht : (spelled d.civil hour minute second nanos (some o)).time = .ok t) :
    (spelled d.civil hour minute second nanos (some o)).instant =
      if -86400 < o ∧ o < 86400 then orElse ((⟨d, t⟩ : Wall).instant? o) .contradiction else .error .outOfRange := by
  have hwall : (spelled d.civil hour minute second nanos (some o)).wall o = .ok ⟨d, t⟩ := by
    rw [wall, date_spelled hd, ht]
    rfl
  rw [instant]
  show (wall (spelled d.civil hour minute second nanos (some o)) o >>= fun w =>
    if -86400 < o ∧ o < 86400 then orElse (w.instant? o) .contradiction else .error .outOfRange) = _
  rw [hwall]
  rfl

end Fields

namespace Reading

/-- Year, month and day in front of a text. -/
def dateText (c : Civil) (rest : List Char) : List Char :=
  Wall.yearText c.year ++ '-' :: (Double.padded 2 c.month ++ '-' :: (Double.padded 2 c.dayOfMonth ++ rest))

/-- Hour and minute in front of a text. -/
def minuteText (hour minute : Nat) (rest : List Char) : List Char :=
  Double.padded 2 hour ++ ':' :: (Double.padded 2 minute ++ rest)

/-- A date and a time of day spelled in full, with all digits, in front of a text. -/
def spelledText (c : Civil) (hour minute second : Nat) (rest : List Char) : List Char :=
  dateText c ('T' :: minuteText hour minute (':' :: (Double.padded 2 second ++ rest)))

theorem dayOfMonth_le {c : Civil} (hvalid : c.isValid = true) :
    1 ≤ c.month ∧ c.month ≤ 12 ∧ 1 ≤ c.dayOfMonth ∧ c.dayOfMonth ≤ 31 := by
  simp only [Civil.isValid, Bool.and_eq_true, decide_eq_true_eq] at hvalid
  have hdays := Date.daysInMonth_le c.year c.month
  omega

theorem readStrict_spelled {c : Civil} (hvalid : c.isValid = true) (hyear : 0 ≤ c.year) (hyear' : c.year ≤ 9999)
    {hour minute second : Nat} (hhour : hour < 24) (hminute : minute < 60) (hsecond : second ≤ 60) (rest : List Char) :
    readStrict (spelledText c hour minute second rest) = do
      let (f, cs) ← readPointed (Fields.spelled c hour minute second none none) fraction rest
      let (n, cs) ← offset (character ':') true false cs
      Fields.within (-maxStrictOffset) maxStrictOffset n
      return (← f.setOffset n, cs) := by
  have hdate := dayOfMonth_le hvalid
  have hyearText : Wall.yearText c.year = Double.padded 4 c.year.toNat := if_pos ⟨hyear, hyear'⟩
  have hyearRead := number_padded (n := c.year.toNat) (by decide : 0 < 4) (by omega) (by unfold maxNumber; omega) (Nat.le_refl 4)
  have hmonthRead := number_two (n := c.month) (by omega) (Nat.le_refl 2)
  have hdayRead := number_two (n := c.dayOfMonth) (by omega) (Nat.le_refl 2)
  have hhourRead := number_two (n := hour) (by omega) (Nat.le_refl 2)
  have hminuteRead := number_two (n := minute) (by omega) (Nat.le_refl 2)
  have hsecondRead := number_two (n := second) (by omega) (Nat.le_refl 2)
  have hyearNat : ((c.year.toNat : Nat) : Int) = c.year := by omega
  unfold readStrict spelledText dateText minuteText
  rw [hyearText]
  simp only [bind, Except.bind, hyearRead, hyearNat, hmonthRead, hdayRead, hhourRead, hminuteRead, hsecondRead, character,
    dateTimeMark, if_true]
  rw [Fields.setYear_new rfl (by unfold Fields.maxSmall; omega)]
  simp only
  rw [Fields.setMonth_new rfl (by omega)]
  simp only
  rw [Fields.setDayOfMonth_new rfl (by omega)]
  simp only
  rw [Fields.setHour_new rfl rfl (by omega)]
  simp only
  rw [Fields.setMinute_new rfl (by omega)]
  simp only
  rw [Fields.setSecond_new rfl (by omega)]
  rfl

end Reading

end Rowwise
