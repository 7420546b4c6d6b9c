import Rowwise.Proofs.Calendar.Spelled
import Rowwise.Proofs.Calendar.Walls

/-!
# Rowwise.Proofs.Calendar.StandardText — the standard text of a date and time

The text of a date and time at an offset says the same date and time, except that it shows a leap second within a minute as the
second that follows (`TimeOfDay.shown`), and the offset rounded to minutes.  Its fields are `Reading.textFields`.  The strict
form reads them if the year has four digits and the offset rounds to less than a day (`Reading.strict?_text`).
-/

namespace Rowwise

/-! ### Times of day -/

namespace TimeOfDay

/-- The time that the text of a time says: a leap second within a minute is shown as the second that follows it. -/
def shown (t : TimeOfDay) : TimeOfDay :=
  if h : nanosPerSecond ≤ t.nanos ∧ t.second ≠ 59 then
    ⟨t.seconds + 1, t.nanos - nanosPerSecond, by
      have := t.seconds_lt
      have := h.2
      unfold second at this
      omega, by
      have := t.nanos_lt
      omega⟩
  else t

variable {t : TimeOfDay}

theorem shown_of_second (h : t.isLeap = true → t.second = 59) : t.shown = t := by
  refine dif_neg fun ⟨hleap, hsecond⟩ => hsecond (h ?_)
  exact decide_eq_true hleap

theorem shown_of_leap (h : t.isLeap = true) (h' : t.second ≠ 59) :
    t.shown.seconds = t.seconds + 1 ∧ t.shown.nanos + nanosPerSecond = t.nanos := by
  have hleap : nanosPerSecond ≤ t.nanos := of_decide_eq_true h
  rw [shown, dif_pos ⟨hleap, h'⟩]
  exact ⟨rfl, Nat.sub_add_cancel hleap⟩

/-- The leap second of a minute is its sixtieth. -/
theorem shownSecond_eq (t : TimeOfDay) : t.shownSecond = if t.isLeap then t.second + 1 else t.second := by
  have := t.nanos_lt
  unfold shownSecond isLeap nanosPerSecond
  by_cases h : 1000000000 ≤ t.nanos
  · rw [if_pos (decide_eq_true h)]
    omega
  · rw [if_neg (by simpa using h)]
    omega

theorem shownSecond_le (t : TimeOfDay) : t.shownSecond ≤ 60 := by
  have := t.second_lt
  rw [shownSecond_eq]
  split <;> omega

/-- The numbers that a text shows are those of the time that it says. -/
theorem of?_shown (t : TimeOfDay) :
    of? (t.hour * 3600 + t.minute * 60 + (if t.shownSecond = 60 then 59 else t.shownSecond))
      (t.nanosecond + if t.shownSecond = 60 then nanosPerSecond else 0) = some t.shown := by
  have hseconds := t.seconds_eq
  have hsecond := t.second_lt
  have hlast := t.seconds_lt
  have hnanos := t.nanos_lt
  have hof : ∀ {s n : Nat}, s = t.shown.seconds → n = t.shown.nanos → of? s n = some t.shown := by
    rintro s n rfl rfl
    exact dif_pos ⟨t.shown.seconds_lt, t.shown.nanos_lt⟩
  cases hleap : t.isLeap with
  | false =>
    have hshown := shown_of_second (t := t) (by simp [hleap])
    have hbelow : t.nanos < nanosPerSecond := Nat.lt_of_not_le (of_decide_eq_false hleap)
    have hnanosecond : t.nanosecond = t.nanos := Nat.mod_eq_of_lt hbelow
    have hsixty : t.shownSecond = t.second := by simp [shownSecond_eq, hleap]
    rw [hsixty, if_neg (by omega), if_neg (by omega)]
    refine hof ?_ ?_ <;> rw [hshown]
    · exact hseconds
    · exact hnanosecond
  | true =>
    have habove : nanosPerSecond ≤ t.nanos := of_decide_eq_true hleap
    have hnanosecond : t.nanosecond + nanosPerSecond = t.nanos := by
      unfold nanosecond
      unfold nanosPerSecond at habove ⊢
      omega
    have hsixty : t.shownSecond = t.second + 1 := by simp [shownSecond_eq, hleap]
    rw [hsixty]
    by_cases hend : t.second = 59
    · have hshown := shown_of_second fun _ => hend
      rw [if_pos (by omega), if_pos (by omega)]
      refine hof ?_ ?_ <;> rw [hshown]
      · omega
      · exact hnanosecond
    · obtain ⟨hshown, hshown'⟩ := shown_of_leap hleap hend
      rw [if_neg (by omega), if_neg (by omega)]
      exact hof (by omega) (by omega)

end TimeOfDay

/-! ### Dates and times -/

/-- The date and time that the text of a date and time says. -/
def Wall.shown (w : Wall) : Wall := ⟨w.date, w.time.shown⟩

/-- The year is written with four digits and no sign. -/
def Date.PlainYear (d : Date) : Prop := 0 ≤ d.year ∧ d.year ≤ 9999

instance (d : Date) : Decidable d.PlainYear := inferInstanceAs (Decidable (_ ∧ _))

namespace Reading

open Text

variable {w : Wall} {o : Int}

/-- How an offset ends the text of a date and time. -/
def offsetEnd (zulu : Bool) (o : Int) : List Char := if zulu = true ∧ o = 0 then ['Z'] else Wall.offsetText true o

/-- The text of a date and time is spelled in full. -/
theorem text_spelled (w : Wall) (zulu : Bool) (o : Int) :
    w.text zulu o = spelledText w.date.civil w.time.hour w.time.minute w.time.shownSecond
      (TimeOfDay.fractionText ['.'] w.time.nanosecond ++ offsetEnd zulu o) := by
  unfold Wall.text TimeOfDay.text spelledText dateText minuteText offsetEnd
  simp only [List.append_assoc, List.cons_append]

/-- An offset begins neither with a digit nor with a point or a blank. -/
theorem offsetEnd_eq_cons (zulu : Bool) (o : Int) :
    ∃ c cs, offsetEnd zulu o = c :: cs ∧ c.isDigit = false ∧ c ≠ '.' ∧ isBlank c = false := by
  unfold offsetEnd
  by_cases hzulu : zulu = true ∧ o = 0
  · rw [if_pos hzulu]
    exact ⟨'Z', [], rfl, by decide⟩
  · rw [if_neg hzulu]
    refine ⟨if o < 0 then '-' else '+', _, rfl, ?_⟩
    split <;> decide

/-- The strict form reads the end of the text; so do the others if it is not `Z`. -/
theorem offset_offsetEnd (ho : o.natAbs < 359970) {between : List Char → Except Unreadable (Scan Unit)}
    (hbetween : PassesColon between) {zulu zulu' : Bool} (hzulu : zulu = true → o = 0 → zulu' = true) (hoursOnly : Bool) :
    offset between zulu' hoursOnly (offsetEnd zulu o) = .ok (Wall.roundedOffset o, []) := by
  unfold offsetEnd
  by_cases hzero : zulu = true ∧ o = 0
  · rw [if_pos hzero, hzulu hzero.1 hzero.2, hzero.2]
    rfl
  · rw [if_neg hzero]
    simpa using offset_offsetText ho hbetween zulu' hoursOnly []

/-! ### Fields -/

/-- The fraction of a second as a text shows it: none if it is zero. -/
def textNanos (t : TimeOfDay) : Option Nat := if t.nanosecond = 0 then none else some t.nanosecond

/-- The fields that are read of the text of a date and time. -/
def textFields (w : Wall) (o : Int) : Fields :=
  .spelled w.date.civil w.time.hour w.time.minute w.time.shownSecond (textNanos w.time) (some (Wall.roundedOffset o))

theorem readPointed_text (c : Civil) (hour minute second : Nat) (t : TimeOfDay) (zulu : Bool) (o : Int) :
    readPointed (.spelled c hour minute second none none) fraction
        (TimeOfDay.fractionText ['.'] t.nanosecond ++ offsetEnd zulu o) =
      .ok (.spelled c hour minute second (textNanos t) none, offsetEnd zulu o) := by
  obtain ⟨d, cs, hend, hdigit, hmark, -⟩ := offsetEnd_eq_cons zulu o
  have hends : EndsNumber (offsetEnd zulu o) := by
    rw [hend]
    intro e he
    cases he
    exact hdigit
  have hpoint : (offsetEnd zulu o).head? ≠ some '.' := by
    rw [hend]
    exact fun h => hmark (Option.some_inj.1 h)
  have hnanos := t.nanosecond_lt
  unfold nanosPerSecond at hnanos
  rw [readPointed_fractionText _ t.nanosecond_lt hends hpoint, textNanos]
  by_cases hzero : t.nanosecond = 0
  · rw [if_pos hzero, if_pos hzero]
  · rw [if_neg hzero, if_neg hzero, Fields.setNanosecond_new rfl (by omega)]
    rfl

theorem setOffset_text (ho : o.natAbs < 359970) (w : Wall) :
    (Fields.spelled w.date.civil w.time.hour w.time.minute w.time.shownSecond (textNanos w.time) none).setOffset
      (Wall.roundedOffset o) = .ok (textFields w o) := by
  have hrounded := natAbs_roundedOffset o
  rw [Fields.setOffset_new rfl (by unfold Fields.maxSmall; omega)]
  rfl

/-- The fields of the text say the date and time that the text shows, at the offset that it shows. -/
theorem instant_textFields (hdate : w.date.inRange = true) :
    succeeded (textFields w o).instant =
      if (Wall.roundedOffset o).natAbs ≤ 86340 then w.shown.instant? (Wall.roundedOffset o) else none := by
  have hnanos : (textNanos w.time).getD 0 = w.time.nanosecond := by
    unfold textNanos
    split <;> simp_all
  have htime : (textFields w o).time = .ok w.time.shown := by
    rw [textFields, Fields.time_spelled _ w.time.hour_lt, hnanos, w.time.of?_shown]
    rfl
  have hrounded := natAbs_roundedOffset o
  rw [textFields, Fields.instant_spelled hdate htime]
  by_cases hday : (Wall.roundedOffset o).natAbs ≤ 86340
  · rw [if_pos (by omega), if_pos hday]
    unfold Wall.shown
    cases (⟨w.date, w.time.shown⟩ : Wall).instant? (Wall.roundedOffset o) <;> rfl
  · rw [if_neg (by omega), if_neg hday]
    rfl

/-! ### The strict form -/

/-- With a year of four digits the strict form reads the whole text, unless the offset rounds to a day or more. -/
theorem readStrict_text (hyear : w.date.PlainYear) (ho : o.natAbs < 359970) (zulu : Bool) :
    readStrict (w.text zulu o) =
      if (Wall.roundedOffset o).natAbs ≤ 86340 then .ok (textFields w o, []) else .error .outOfRange := by
  have hwithin : Fields.within (-maxStrictOffset) maxStrictOffset (Wall.roundedOffset o) =
      if (Wall.roundedOffset o).natAbs ≤ 86340 then .ok () else .error .outOfRange := by
    unfold Fields.within maxStrictOffset
    congr 1
    exact propext (by omega)
  rw [text_spelled, readStrict_spelled w.date.isValid_civil hyear.1 hyear.2 w.time.hour_lt w.time.minute_lt
    w.time.shownSecond_le, readPointed_text]
  show (offset (character ':') true false (offsetEnd zulu o) >>= fun p =>
    Fields.within (-maxStrictOffset) maxStrictOffset p.1 >>= fun _ => do return (← Fields.setOffset _ p.1, p.2)) = _
  rw [offset_offsetEnd ho passesColon_character fun _ _ => rfl]
  show (Fields.within (-maxStrictOffset) maxStrictOffset (Wall.roundedOffset o) >>= fun _ =>
    do return (← Fields.setOffset _ (Wall.roundedOffset o), [])) = _
  rw [hwithin, setOffset_text ho]
  by_cases hday : (Wall.roundedOffset o).natAbs ≤ 86340
  · rw [if_pos hday, if_pos hday]
    rfl
  · rw [if_neg hday, if_neg hday]
    rfl

/-- The strict form has no years with a sign. -/
theorem readStrict_signed (hyear : ¬ w.date.PlainYear) (zulu : Bool) (o : Int) :
    readStrict (w.text zulu o) = .error .mismatch := by
  have htext : Wall.yearText w.date.civil.year =
      (if w.date.civil.year < 0 then '-' else '+') :: Double.padded 4 w.date.civil.year.natAbs := if_neg hyear
  rw [text_spelled, spelledText, dateText, htext]
  split <;> rfl

/-- In the strict form the text of a date and time with a year of four digits is read back as the date and time that it
says, at the offset that it says. -/
theorem strict?_text (hdate : w.date.inRange = true) (ho : o.natAbs < 359970) (zulu : Bool) :
    strict? (w.text zulu o) =
      if w.date.PlainYear ∧ (Wall.roundedOffset o).natAbs ≤ 86340 then w.shown.instant? (Wall.roundedOffset o) else none := by
  rw [strict?]
  by_cases hyear : w.date.PlainYear
  · rw [readStrict_text hyear ho]
    by_cases hday : (Wall.roundedOffset o).natAbs ≤ 86340
    · rw [if_pos hday, if_pos ⟨hyear, hday⟩]
      simp only
      rw [instant_textFields hdate, if_pos hday]
    · rw [if_neg hday, if_neg fun h => hday h.2]
  · rw [readStrict_signed hyear, if_neg fun h => hyear h.1]

end Reading

end Rowwise
