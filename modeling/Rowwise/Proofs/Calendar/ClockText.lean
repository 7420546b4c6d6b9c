import Rowwise.Proofs.Calendar.ReadingBack

/-!
# Rowwise.Proofs.Calendar.ClockText — texts of times of day are read back

The text of a time of day is read as hour, minute, second and fraction (`Reading.timeFields_text`), so as the time that it shows
(`Reading.time?_text`): a leap second at the end of a minute is written as its sixtieth second and comes back as such
(`TimeOfDay.clock_read_back`).
-/

namespace Rowwise

namespace Reading

open Text

/-! ### Pieces -/

section Pieces

variable {f g : Fields} {rest : List Char} {field : NumberField} {n : Nat}

theorem readMarked_two (hfield : digitLimit field = some 2) (hn : n < 100) (hset : setNumber f field n = .ok g) (mark : Char)
    (hmark : isBlank mark = false) (more : List (NumberField × Option Char)) :
    readMarked f (Double.padded 2 n ++ mark :: rest) ((field, some mark) :: more) = readMarked g rest more := by
  have htrim : trimStart (mark :: rest) = mark :: rest := List.dropWhile_cons_of_neg (by simp [hmark])
  rw [readMarked, readNumber_two hfield hn hset]
  simp only [bind, Except.bind, htrim, character, if_true]

theorem readMarked_last (hfield : digitLimit field = some 2) (hn : n < 100) (hset : setNumber f field n = .ok g) :
    readMarked f (Double.padded 2 n ++ rest) [(field, none)] = .ok (g, rest) := by
  rw [readMarked, readNumber_two hfield hn hset]
  rfl

end Pieces

/-! ### Whole texts -/

/-- The fields of an hour. -/
def hourFields (hour : Nat) : Fields :=
  { afternoon := some (decide (12 ≤ (hour : Int))), hourOfHalf := some ((hour : Int) % 12) }

/-- The fields of hour and minute. -/
def hourMinuteFields (hour minute : Nat) : Fields := { hourFields hour with minute := some (minute : Int) }

/-- The fields of a time of day that is spelled in full. -/
def clockFields (hour minute second : Nat) (nanos : Option Nat) : Fields :=
  { hourMinuteFields hour minute with second := some (second : Int), nanosecond := nanos.map Nat.cast }

theorem readMarked_hourMinute {hour minute : Nat} (hhour : hour < 24) (hminute : minute < 60) (rest : List Char) :
    readMarked {} (minuteText hour minute rest) hourMinuteForm = .ok (hourMinuteFields hour minute, rest) := by
  have hsetHour : setNumber {} .hour hour = .ok (hourFields hour) := Fields.setHour_new rfl rfl (by omega)
  have hsetMinute : setNumber (hourFields hour) .minute minute = .ok (hourMinuteFields hour minute) :=
    Fields.setMinute_new rfl (by omega)
  rw [minuteText, hourMinuteForm, readMarked_two rfl (by omega) hsetHour ':' rfl, readMarked_last rfl (by omega) hsetMinute]

theorem readSeconds_text (t : TimeOfDay) {hour minute second : Nat} (hsecond : second ≤ 60) :
    readSeconds (hourMinuteFields hour minute)
        (':' :: (Double.padded 2 second ++ TimeOfDay.fractionText ['.'] t.nanosecond)) =
      .ok (clockFields hour minute second (textNanos t), []) := by
  have hsetSecond : setNumber (hourMinuteFields hour minute) .second second = .ok (clockFields hour minute second none) :=
    Fields.setSecond_new rfl (by omega)
  have hnanos := t.nanosecond_lt
  have hends : EndsNumber [] := by simp [EndsNumber]
  have hfraction := readPointed_fractionText (clockFields hour minute second none) hnanos hends (by simp)
  have hsetNanos : t.nanosecond ≠ 0 → (clockFields hour minute second none).setNanosecond t.nanosecond =
      .ok (clockFields hour minute second (some t.nanosecond)) := by
    intro _
    unfold nanosPerSecond at hnanos
    exact Fields.setNanosecond_new rfl (by omega)
  rw [List.append_nil] at hfraction
  have htrim : ∀ cs, trimStart (':' :: cs) = ':' :: cs := fun cs => List.dropWhile_cons_of_neg (by decide)
  unfold readSeconds
  simp only [htrim, character, if_true, bind, Except.bind, readMarked_last rfl (by omega : second < 100) hsetSecond, hfraction,
    textNanos]
  by_cases hzero : t.nanosecond = 0
  · simp only [if_pos hzero]
    rfl
  · simp only [if_neg hzero, hsetNanos hzero]
    rfl

/-- The text of a time of day is read in full. -/
theorem timeFields_text (t : TimeOfDay) :
    timeFields t.text = .ok (clockFields t.hour t.minute t.shownSecond (textNanos t)) := by
  have htext : t.text = minuteText t.hour t.minute
      (':' :: (Double.padded 2 t.shownSecond ++ TimeOfDay.fractionText ['.'] t.nanosecond)) := by
    unfold TimeOfDay.text minuteText
    simp only [List.append_assoc, List.cons_append]
  unfold timeFields
  simp only [htext, readMarked_hourMinute t.hour_lt t.minute_lt, bind, Except.bind, readSeconds_text t t.shownSecond_le]
  rfl

/-- The text of a time of day is read as the time that it shows. -/
theorem time?_text (t : TimeOfDay) : time? t.text = some t.shown := by
  have hstandard : ∀ c ∈ t.text, isStandard c = true := by
    unfold TimeOfDay.text
    simp only [List.forall_mem_append, List.forall_mem_cons]
    exact ⟨⟨⟨isStandard_padded 2 _, rfl, isStandard_padded 2 _⟩, rfl, isStandard_padded 2 _⟩, isStandard_fractionText _⟩
  have hnanos : (textNanos t).getD 0 = t.nanosecond := by
    unfold textNanos
    split <;> simp_all
  have htime : (clockFields t.hour t.minute t.shownSecond (textNanos t)).time = .ok t.shown := by
    rw [Fields.time_clock t.hour_lt rfl rfl rfl rfl rfl, hnanos, t.of?_shown]
    rfl
  rw [time?, trim_of_isStandard hstandard, timeFields_text]
  show succeeded (clockFields t.hour t.minute t.shownSecond (textNanos t)).time = _
  rw [htime]
  rfl

end Reading

namespace TimeOfDay

/-- The text of a time of day is read back as the same time, also in a leap second if that ends a minute. -/
theorem clock_read_back {t : TimeOfDay} (hleap : t.isLeap = true → t.second = 59) : Reading.time? t.text = some t := by
  rw [Reading.time?_text, shown_of_second hleap]

/-- A quarter of a second into a leap second at the end of the day. -/
def leapQuarter : TimeOfDay := ⟨86399, 1250000000, lastOfDay.seconds_lt, by decide⟩

theorem clock_read_back_leap :
    leapQuarter.text = "23:59:60.250".toList ∧ Reading.time? leapQuarter.text = some leapQuarter :=
  ⟨by decide +kernel, clock_read_back fun _ => rfl⟩

end TimeOfDay

end Rowwise
