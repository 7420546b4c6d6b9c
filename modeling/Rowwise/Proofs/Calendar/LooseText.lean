import Rowwise.Proofs.Calendar.StandardText

/-!
# Rowwise.Proofs.Calendar.LooseText — the standard text along the looser forms

The looser forms are lists of items that share their beginnings: the date (`dateItems`), hour and minute, the second with its
fraction.  Each such part is read off the text of a date and time in front of whatever follows, also with years that have a
sign.  So the form with an offset reads the whole text unless it ends in `Z` (`offsetInstant?_text`); the forms without an
offset always leave some of it (`wall?_text`, `startOfDay?_text`).
-/

namespace Rowwise.Reading

open Text Pattern

/-! ### Items -/

/-- Items one after the other. -/
theorem readItems_append (f : Fields) (cs : List Char) (is js : List Item) :
    readItems f cs (is ++ js) = (readItems f cs is).bind fun p => readItems p.1 p.2 js := by
  induction is generalizing f cs with
  | nil => rfl
  | cons i is ih =>
    rw [List.cons_append, readItems, readItems]
    cases readItem f i cs with
    | error e => rfl
    | ok p => exact ih p.1 p.2

/-- A form that reads a text to its end. -/
theorem fieldsOf_of_all {items : List Item} {cs : List Char} {f : Fields} (h : readItems {} cs items = .ok (f, [])) :
    fieldsOf items cs = .ok f := by
  rw [fieldsOf, h]
  rfl

/-- A form that leaves some of a text. -/
theorem fieldsOf_of_rest {items : List Item} {cs rest : List Char} {f : Fields} {c : Char}
    (h : readItems {} cs items = .ok (f, c :: rest)) : fieldsOf items cs = .error .mismatch := by
  rw [fieldsOf, h]
  rfl

theorem fieldsOf_of_error {items : List Item} {cs : List Char} {e : Unreadable} (h : readItems {} cs items = .error e) :
    fieldsOf items cs = .error e := by
  rw [fieldsOf, h]
  rfl

/-! ### Years -/

theorem signedNumber_digits {limit : Nat} {ds rest : List Char} (hds : ∀ c ∈ ds, c.isDigit = true) (hpositive : 0 < ds.length) :
    signedNumber limit (ds ++ rest) = number 1 (some limit) (ds ++ rest) := by
  cases ds with
  | nil => exact absurd hpositive (by decide)
  | cons c cs =>
    have hc := hds c (by simp)
    unfold signedNumber
    split
    · rename_i h
      cases h
      exact absurd hc (by decide)
    · rename_i h
      cases h
      exact absurd hc (by decide)
    · rfl

/-- A year with or without a sign. -/
theorem signedNumber_yearText {year : Int} (hyear : year.natAbs < 1000000) {rest : List Char} (hrest : EndsNumber rest) :
    signedNumber 4 (Wall.yearText year ++ rest) = .ok (year, rest) := by
  have hdigits := Double.isDigit_padded 4
  have hpositive := Double.length_padded_pos 4
  unfold Wall.yearText
  by_cases hplain : 0 ≤ year ∧ year ≤ 9999
  · have hread := number_padded (n := year.toNat) (by decide : 0 < 4) (by omega) (by unfold maxNumber; omega)
      (by decide : 1 ≤ 4) rest
    rw [if_pos hplain, signedNumber_digits (hdigits _) (hpositive _), hread, Int.toNat_of_nonneg hplain.1]
  · have hmax : (Double.ofDigits (Double.padded 4 year.natAbs) : Int) ≤ maxNumber := by
      rw [Double.ofDigits_padded]
      unfold maxNumber
      omega
    have hread := number_of_leading (leadingDigits_unlimited (hdigits year.natAbs) hrest) (hpositive year.natAbs) hmax
    rw [Double.ofDigits_padded] at hread
    rw [if_neg hplain]
    by_cases hneg : year < 0
    · rw [if_pos hneg]
      show (number 1 none (Double.padded 4 year.natAbs ++ rest) >>= fun p => Except.ok (-p.1, p.2)) = _
      rw [hread]
      show Except.ok (-(year.natAbs : Int), rest) = _
      rw [show -(year.natAbs : Int) = year by omega]
    · rw [if_neg hneg]
      show number 1 none (Double.padded 4 year.natAbs ++ rest) = _
      rw [hread, show (year.natAbs : Int) = year by omega]

theorem trimStart_yearText (year : Int) (rest : List Char) :
    trimStart (Wall.yearText year ++ rest) = Wall.yearText year ++ rest := by
  unfold Wall.yearText
  split
  · exact trimStart_padded 4 _ rest
  · split <;> rfl

/-! ### One item at the beginning -/

section One

variable {f g : Fields} {rest : List Char} {is : List Item}

theorem readItems_literal (c : Char) : readItems f (c :: rest) (.literal c :: is) = readItems f rest is := by
  rw [readItems, readItem, character, if_pos rfl]
  rfl

theorem readNumber_two {field : NumberField} {n : Nat} (hfield : digitLimit field = some 2) (hn : n < 100)
    (hset : setNumber f field n = .ok g) : readNumber f field (Double.padded 2 n ++ rest) = .ok (g, rest) := by
  have hread := number_two hn (by decide : 1 ≤ 2) rest
  unfold readNumber
  simp only [trimStart_padded]
  cases field <;> first
    | exact absurd hfield (by decide)
    | (simp only [hfield, hread, bind, Except.bind, hset]; rfl)

theorem readItems_two {field : NumberField} {n : Nat} (hfield : digitLimit field = some 2) (hn : n < 100)
    (hset : setNumber f field n = .ok g) :
    readItems f (Double.padded 2 n ++ rest) (zeroed field :: is) = readItems g rest is := by
  rw [readItems, zeroed, readItem, readNumber_two hfield hn hset]
  rfl

theorem readItems_year {year : Int} (hyear : year.natAbs < 1000000) (hrest : EndsNumber rest)
    (hset : setNumber f .year year = .ok g) :
    readItems f (Wall.yearText year ++ rest) (zeroed .year :: is) = readItems g rest is := by
  have hitem : readNumber f .year (Wall.yearText year ++ rest) = .ok (g, rest) := by
    unfold readNumber
    simp only [trimStart_yearText, signedNumber_yearText hyear hrest, bind, Except.bind, hset]
    rfl
  rw [readItems, zeroed, readItem, hitem]
  rfl

/-- The last item of the form with an offset. -/
theorem readItems_plainOffset {cs : List Char} {n : Int}
    (hread : offset separators false false (trimStart cs) = .ok (n, [])) (hset : f.setOffset n = .ok g) :
    readItems f cs [.named (.offset .plain)] = .ok (g, []) := by
  show ((offset separators false false (trimStart cs) >>= fun p =>
    Fields.setOffset f p.1 >>= fun f => .ok (f, p.2)) >>= fun p => readItems p.1 p.2 []) = _
  rw [hread]
  show ((Fields.setOffset f n >>= fun f => .ok (f, [])) >>= fun p => readItems p.1 p.2 []) = _
  rw [hset]
  rfl

end One

/-! ### The parts of a text -/

/-- Year, month and day. -/
def dateItems : List Item := [zeroed .year, .literal '-', zeroed .month, .literal '-', zeroed .dayOfMonth]

/-- Hour and minute behind the mark between date and time. -/
def minuteItems : List Item := .literal 'T' :: hourMinute

/-- The second and its fraction. -/
def secondItems : List Item := [.literal ':', zeroed .second, .named .fraction]

/-- The fields of a date. -/
def dateFields (c : Civil) : Fields := { year := some c.year, month := some c.month, dayOfMonth := some c.dayOfMonth }

/-- The fields of a date and of hour and minute. -/
def minuteFields (c : Civil) (hour minute : Nat) : Fields :=
  { dateFields c with
    afternoon := some (decide (12 ≤ (hour : Int))), hourOfHalf := some (hour % 12), minute := some minute }

theorem readItems_dateText {c : Civil} (hvalid : c.isValid = true) (hyear : c.year.natAbs < 1000000) (rest : List Char) :
    readItems {} (dateText c rest) dateItems = .ok (dateFields c, rest) := by
  have hdate := dayOfMonth_le hvalid
  have hends : ∀ cs, EndsNumber ('-' :: cs) := by
    intro cs d hd
    cases hd
    rfl
  have hsetYear : setNumber {} .year c.year = .ok { year := some c.year } :=
    Fields.setYear_new rfl (by unfold Fields.maxSmall; omega)
  have hsetMonth : setNumber { year := some c.year } .month c.month = .ok { year := some c.year, month := some c.month } :=
    Fields.setMonth_new rfl (by omega)
  have hsetDay : setNumber { year := some c.year, month := some c.month } .dayOfMonth c.dayOfMonth = .ok (dateFields c) :=
    Fields.setDayOfMonth_new rfl (by omega)
  rw [dateText, dateItems, readItems_year hyear (hends _) hsetYear, readItems_literal, readItems_two rfl (by omega) hsetMonth,
    readItems_literal, readItems_two rfl (by omega) hsetDay]
  rfl

theorem readItems_minuteText (c : Civil) {hour minute : Nat} (hhour : hour < 24) (hminute : minute < 60) (rest : List Char) :
    readItems (dateFields c) ('T' :: minuteText hour minute rest) minuteItems = .ok (minuteFields c hour minute, rest) := by
  have hsetHour : setNumber (dateFields c) .hour hour = .ok { dateFields c with
      afternoon := some (decide (12 ≤ (hour : Int))), hourOfHalf := some (hour % 12) } :=
    Fields.setHour_new rfl rfl (by omega)
  have hsetMinute : setNumber { dateFields c with
      afternoon := some (decide (12 ≤ (hour : Int))), hourOfHalf := some (hour % 12) } .minute minute =
        .ok (minuteFields c hour minute) :=
    Fields.setMinute_new rfl (by omega)
  rw [minuteText, minuteItems, hourMinute, readItems_literal, readItems_two rfl (by omega) hsetHour, readItems_literal,
    readItems_two rfl (by omega) hsetMinute]
  rfl

theorem readItems_secondText (c : Civil) {hour minute second : Nat} (hsecond : second ≤ 60) {cs rest : List Char} {f : Fields}
    (hpointed : readPointed (.spelled c hour minute second none none) fraction cs = .ok (f, rest)) :
    readItems (minuteFields c hour minute) (':' :: (Double.padded 2 second ++ cs)) secondItems = .ok (f, rest) := by
  have hsetSecond : setNumber (minuteFields c hour minute) .second second = .ok (.spelled c hour minute second none none) :=
    Fields.setSecond_new rfl (by omega)
  rw [secondItems, readItems_literal, readItems_two rfl (by omega) hsetSecond, readItems, readItem, readNamed, hpointed]
  rfl

/-- A date and a time of day that are spelled in full are read as they are, and the forms read on behind the fraction. -/
theorem readItems_spelled {c : Civil} (hvalid : c.isValid = true) (hyear : c.year.natAbs < 1000000) {hour minute second : Nat}
    (hhour : hour < 24) (hminute : minute < 60) (hsecond : second ≤ 60) {cs rest : List Char} {f : Fields}
    (hpointed : readPointed (.spelled c hour minute second none none) fraction cs = .ok (f, rest)) (is : List Item) :
    readItems {} (spelledText c hour minute second cs) (dateItems ++ (minuteItems ++ (secondItems ++ is))) =
      readItems f rest is := by
  rw [spelledText, readItems_append, readItems_dateText hvalid hyear]
  simp only [Except.bind, readItems_append, readItems_minuteText c hhour hminute, readItems_secondText c hsecond hpointed]

/-! ### The forms -/

theorem offsetForm_eq : offsetForm = dateItems ++ (minuteItems ++ (secondItems ++ [.named (.offset .plain)])) := by decide

theorem localForms_eq : localForms = [dateItems ++ (minuteItems ++ secondItems), dateItems ++ minuteItems] := by decide

theorem dateForm_eq : dateForm = dateItems := by decide

section Forms

variable {w : Wall} {o : Int}

/-- Behind the date each form reads on from the mark between date and time. -/
theorem readItems_date (hyear : w.date.year.natAbs < 1000000) (zulu : Bool) (o : Int) (is : List Item) :
    readItems {} (w.text zulu o) (dateItems ++ is) = readItems (dateFields w.date.civil) ('T' ::
      minuteText w.time.hour w.time.minute (':' :: (Double.padded 2 w.time.shownSecond ++
        (TimeOfDay.fractionText ['.'] w.time.nanosecond ++ offsetEnd zulu o)))) is := by
  rw [text_spelled, spelledText, readItems_append, readItems_dateText w.date.isValid_civil hyear]
  rfl

theorem readItems_minute (hyear : w.date.year.natAbs < 1000000) (zulu : Bool) (o : Int) (is : List Item) :
    readItems {} (w.text zulu o) (dateItems ++ (minuteItems ++ is)) =
      readItems (minuteFields w.date.civil w.time.hour w.time.minute) (':' :: (Double.padded 2 w.time.shownSecond ++
        (TimeOfDay.fractionText ['.'] w.time.nanosecond ++ offsetEnd zulu o))) is := by
  rw [readItems_date hyear, readItems_append, readItems_minuteText _ w.time.hour_lt w.time.minute_lt]
  rfl

theorem readItems_second (hyear : w.date.year.natAbs < 1000000) (zulu : Bool) (o : Int) (is : List Item) :
    readItems {} (w.text zulu o) (dateItems ++ (minuteItems ++ (secondItems ++ is))) =
      readItems (.spelled w.date.civil w.time.hour w.time.minute w.time.shownSecond (textNanos w.time) none)
        (offsetEnd zulu o) is := by
  rw [text_spelled, readItems_spelled w.date.isValid_civil hyear w.time.hour_lt w.time.minute_lt w.time.shownSecond_le
    (readPointed_text _ _ _ _ _ zulu o)]

/-- The form with an offset has no `Z`. -/
theorem readItems_offset (ho : o.natAbs < 359970) (w : Wall) (zulu : Bool) :
    readItems (.spelled w.date.civil w.time.hour w.time.minute w.time.shownSecond (textNanos w.time) none)
        (offsetEnd zulu o) [.named (.offset .plain)] =
      if zulu = true ∧ o = 0 then .error .mismatch else .ok (textFields w o, []) := by
  by_cases hzulu : zulu = true ∧ o = 0
  · rw [if_pos hzulu, offsetEnd, if_pos hzulu]
    rfl
  · have htrim : trimStart (offsetEnd zulu o) = offsetEnd zulu o := by
      obtain ⟨c, cs, hend, -, -, hblank⟩ := offsetEnd_eq_cons zulu o
      rw [hend, trimStart, List.dropWhile_cons_of_neg (by simp [hblank])]
    rw [if_neg hzulu]
    refine readItems_plainOffset ?_ (setOffset_text ho w)
    rw [htrim]
    exact offset_offsetEnd ho passesColon_separators (fun h h' => absurd ⟨h, h'⟩ hzulu) false

/-- The form with an offset reads years of any length, but no text that ends in `Z`. -/
theorem offsetInstant?_text (hdate : w.date.inRange = true) (ho : o.natAbs < 359970) (zulu : Bool) :
    offsetInstant? offsetForm (w.text zulu o) =
      if ¬ (zulu = true ∧ o = 0) ∧ (Wall.roundedOffset o).natAbs ≤ 86340 then w.shown.instant? (Wall.roundedOffset o)
      else none := by
  have hread := readItems_second (Date.natAbs_year_of_inRange hdate) zulu o [.named (.offset .plain)]
  rw [← offsetForm_eq, readItems_offset ho] at hread
  rw [offsetInstant?]
  by_cases hzulu : zulu = true ∧ o = 0
  · rw [if_pos hzulu] at hread
    rw [fieldsOf_of_error hread, if_neg fun h => h.1 hzulu]
    rfl
  · rw [if_neg hzulu] at hread
    rw [fieldsOf_of_all hread]
    show succeeded (textFields w o).instant = _
    simp only [instant_textFields hdate, hzulu, not_false_eq_true, true_and]

/-- The forms without an offset leave it, or the second before it. -/
theorem wall?_text (hyear : w.date.year.natAbs < 1000000) (zulu : Bool) (o : Int) :
    (localForms.findSome? fun form => wall? form (w.text zulu o)) = none := by
  obtain ⟨c, cs, hend, -⟩ := offsetEnd_eq_cons zulu o
  have hseconds := readItems_second hyear zulu o []
  have hminutes := readItems_minute hyear zulu o []
  rw [List.append_nil, hend, readItems] at hseconds
  rw [List.append_nil, readItems] at hminutes
  rw [localForms_eq, List.findSome?_cons, wall?, fieldsOf_of_rest hseconds]
  show (List.findSome? _ [dateItems ++ minuteItems]) = none
  rw [List.findSome?_cons, wall?, fieldsOf_of_rest hminutes]
  rfl

/-- The form of a date leaves the time. -/
theorem startOfDay?_text (hyear : w.date.year.natAbs < 1000000) (zulu : Bool) (o : Int) :
    startOfDay? dateForm (w.text zulu o) = none := by
  have hdate := readItems_date hyear zulu o []
  rw [List.append_nil, readItems] at hdate
  rw [dateForm_eq, startOfDay?, fieldsOf_of_rest hdate]
  rfl

end Forms

end Rowwise.Reading
