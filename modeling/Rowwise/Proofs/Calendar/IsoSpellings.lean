import Rowwise.Proofs.Calendar.LocalTimes
import Rowwise.Proofs.Calendar.ReadingBack

/-!
# Rowwise.Proofs.Calendar.IsoSpellings — equivalent spellings of an instant

A date and a time of day can be spelled with or without a fraction of up to nine digits, with `T` or a space between them
(`SpelledTime`); an offset as `Z` or with a sign, with or without a colon (`SpelledOffset`).  A zone name in brackets may follow,
and there may be blanks around the whole.  What is around the body of such a text is taken off (`Reading.instant?_surrounded`).
With an offset the body is read by the strict form or, if the offset has no colon, by the looser one
(`Reading.body?_offset`); without an offset by the first of the local forms (`Reading.body?_local`).  So all spellings are read
as the same instant (`Reading.instant?_spelled`).
-/

namespace Rowwise

open Reading Text

/-! ### Spellings -/

/-- A date of a year with four digits and a time of day, as they are spelled. -/
structure SpelledTime where
  civil : Civil
  hour : Nat
  minute : Nat
  second : Nat
  /-- The digits of the fraction of the second; no point stands before none. -/
  digits : List Char
  /-- What stands between date and time. -/
  mark : Char
  civil_valid : civil.isValid = true
  year_plain : 0 ≤ civil.year ∧ civil.year ≤ 9999
  hour_lt : hour < 24
  minute_lt : minute < 60
  second_lt : second < 60
  digits_isDigit : ∀ c ∈ digits, c.isDigit = true
  digits_le : digits.length ≤ 9
  mark_eq : mark = 'T' ∨ mark = ' '

namespace SpelledTime

/-- The fraction with its point. -/
def fractionText (s : SpelledTime) : List Char := if s.digits = [] then [] else '.' :: s.digits

/-- The text, with something behind it. -/
def text (s : SpelledTime) (rest : List Char) : List Char :=
  dateText s.civil (s.mark :: minuteText s.hour s.minute (':' :: (Double.padded 2 s.second ++ (s.fractionText ++ rest))))

/-- The text with `T` between date and time. -/
def body (s : SpelledTime) (rest : List Char) : List Char :=
  spelledText s.civil s.hour s.minute s.second (s.fractionText ++ rest)

/-- The fraction in nanoseconds. -/
def nanos (s : SpelledTime) : Nat := Double.ofDigits s.digits * 10 ^ (9 - s.digits.length)

theorem nanos_lt (s : SpelledTime) : s.nanos < nanosPerSecond := by
  have hdigits := Double.ofDigits_lt s.digits_isDigit
  have hpower : 10 ^ s.digits.length * 10 ^ (9 - s.digits.length) = nanosPerSecond := by
    rw [← Nat.pow_add, Nat.add_sub_cancel' s.digits_le]
    rfl
  rw [← hpower]
  exact Nat.mul_lt_mul_of_pos_right hdigits (Nat.pow_pos (by decide))

/-- The date and time that is spelled. -/
def wall (s : SpelledTime) : Wall :=
  ⟨.ofCivil s.civil, ⟨s.hour * 3600 + s.minute * 60 + s.second, s.nanos, by
    have := s.hour_lt
    have := s.minute_lt
    have := s.second_lt
    omega, by
    have := s.nanos_lt
    unfold nanosPerSecond at this
    omega⟩⟩

end SpelledTime

/-- An offset from UTC as it is spelled. -/
inductive SpelledOffset where
  | zulu
  | signed (negative : Bool) (hours : Fin 24) (minutes : Fin 60) (colon : Bool)

namespace SpelledOffset

/-- What may stand between hours and minutes. -/
def between (colon : Bool) : List Char := if colon then [':'] else []

/-- The text of an offset. -/
def text : SpelledOffset → List Char
  | zulu => ['Z']
  | signed negative hours minutes colon =>
    (if negative then '-' else '+') :: (Double.padded 2 hours ++ between colon ++ Double.padded 2 minutes)

/-- How far clocks are ahead of UTC, in seconds. -/
def seconds : SpelledOffset → Int
  | zulu => 0
  | signed negative hours minutes _ =>
    if negative then -((hours * 3600 + minutes * 60 : Nat) : Int) else ((hours * 3600 + minutes * 60 : Nat) : Int)

theorem seconds_near (o : SpelledOffset) : -maxStrictOffset ≤ o.seconds ∧ o.seconds ≤ maxStrictOffset := by
  unfold maxStrictOffset
  cases o with
  | zulu => decide
  | signed negative hours minutes colon =>
    unfold seconds
    split <;> omega

end SpelledOffset

namespace Reading

variable {s : SpelledTime}

/-! ### Around the body -/

/-- A zone name in brackets. -/
def bracketed : Option (List Char) → List Char
  | none => []
  | some name => '[' :: (name ++ [']'])

/-- The zone of a name in brackets, or the zone given. -/
def chosen (find : List Char → Option Zone) (zone : Zone) : Option (List Char) → Option Zone
  | none => some zone
  | some name => find name

/-- What follows the mark between date and time. -/
def clockText (s : SpelledTime) (rest : List Char) : List Char :=
  minuteText s.hour s.minute (':' :: (Double.padded 2 s.second ++ (s.fractionText ++ rest)))

theorem isStandard_clockText {rest : List Char} (h : ∀ d ∈ rest, isStandard d = true) :
    ∀ d ∈ clockText s rest, isStandard d = true := by
  have hfraction : ∀ d ∈ s.fractionText, isStandard d = true := by
    unfold SpelledTime.fractionText
    split
    · simp
    · refine List.forall_mem_cons.2 ⟨rfl, fun d hd => ?_⟩
      rw [isStandard, s.digits_isDigit d hd, Bool.true_or]
  unfold clockText minuteText
  simp only [List.forall_mem_append, List.forall_mem_cons]
  exact ⟨isStandard_padded 2 _, rfl, isStandard_padded 2 _, rfl, isStandard_padded 2 _, hfraction, h⟩

theorem text_eq (s : SpelledTime) (rest : List Char) : s.text rest = dateText s.civil [] ++ s.mark :: clockText s rest := by
  unfold SpelledTime.text clockText dateText
  simp only [List.append_assoc, List.cons_append, List.append_nil]

/-- Whatever the mark between date and time is, it becomes `T`. -/
theorem markDateTime_text {rest : List Char} (h : ∀ d ∈ rest, isStandard d = true) :
    markDateTime (s.text rest) = s.body rest := by
  have hspace : ' ' ∉ dateText s.civil [] := not_mem_of_isStandard (isStandard_dateText (by simp)) rfl
  have hclock : markDateTime ('T' :: clockText s rest) = 'T' :: clockText s rest :=
    markDateTime_of_isStandard (List.forall_mem_cons.2 ⟨rfl, isStandard_clockText h⟩)
  have hspelled : s.body rest = dateText s.civil [] ++ 'T' :: clockText s rest := by
    unfold SpelledTime.body spelledText clockText dateText
    simp only [List.append_assoc, List.cons_append, List.append_nil]
  rw [text_eq, markDateTime_append hspace, hspelled]
  rcases s.mark_eq with hmark | hmark <;> rw [hmark]
  · rw [hclock]
  · rfl

theorem mem_text {rest : List Char} (h : ∀ d ∈ rest, isStandard d = true) {c : Char} (hc : c ∈ s.text rest) :
    isStandard c = true ∨ c = ' ' := by
  rw [text_eq, List.mem_append, List.mem_cons] at hc
  rcases hc with hdate | rfl | hclock
  · exact Or.inl (isStandard_dateText (by simp) c hdate)
  · exact s.mark_eq.imp_left fun hmark => by rw [hmark]; rfl
  · exact Or.inl (isStandard_clockText h c hclock)

/-- A text begins and ends with characters that are no blanks, whatever the mark between date and time is. -/
theorem ends_text {rest : List Char} (h : ∀ d ∈ rest, isStandard d = true) :
    (∀ c ∈ (s.text rest).head?, isBlank c = false) ∧ ∀ c ∈ (s.text rest).getLast?, isBlank c = false := by
  have hdate : dateText s.civil [] ≠ [] := by simp [dateText]
  have hclock : clockText s rest ≠ [] := by simp [clockText, minuteText]
  rw [text_eq]
  constructor
  · intro c hc
    rw [List.head?_append_of_ne_nil _ hdate] at hc
    exact isBlank_of_isStandard (isStandard_dateText (by simp)) c (List.mem_of_mem_head? hc)
  · intro c hc
    rw [List.append_cons, List.getLast?_append_of_ne_nil _ hclock] at hc
    exact isBlank_of_isStandard (isStandard_clockText h) c (List.mem_of_mem_getLast? hc)

/-- Blanks and a zone name around a text are taken off before its body is read. -/
theorem instant?_surrounded (find : List Char → Option Zone) (zone : Zone) {z : Zone} {name : Option (List Char)}
    (hz : chosen find zone name = some z) {before after rest : List Char} (hbefore : ∀ c ∈ before, isBlank c = true)
    (hafter : ∀ c ∈ after, isBlank c = true) (h : ∀ d ∈ rest, isStandard d = true) :
    instant? find zone (before ++ (s.text rest ++ bracketed name) ++ after) = body? z (s.body rest) := by
  have hne : s.text rest ≠ [] := by simp [SpelledTime.text, dateText]
  obtain ⟨hfirst, hlast⟩ := ends_text (s := s) h
  have hbracket : ∀ c ∈ ['[', ']'], c ∉ s.text rest := by
    intro c hc hmem
    simp only [List.mem_cons, List.not_mem_nil, or_false] at hc
    rcases hc with rfl | rfl <;> exact absurd (mem_text h hmem) (by decide)
  unfold instant?
  cases name with
  | none =>
    rw [bracketed, List.append_nil, trim_surrounded hbefore hafter hfirst hlast]
    simp only [splitZone_of_not_mem (hbracket ']' (by simp)), markDateTime_text h]
    rw [Option.some_inj.1 hz]
  | some name =>
    have hlast' : ∀ c ∈ (s.text rest ++ bracketed (some name)).getLast?, isBlank c = false := by
      rw [bracketed, ← List.cons_append, ← List.append_assoc, List.getLast?_concat]
      rintro c ⟨⟩
      rfl
    rw [trim_surrounded hbefore hafter (by rwa [List.head?_append_of_ne_nil _ hne]) hlast', bracketed]
    simp only [splitZone_bracketed (hbracket '[' (by simp)), markDateTime_text h]
    rw [show find name = some z from hz]
    rfl

/-! ### The body -/

/-- The fraction as a field: none if there is none. -/
def fractionField (s : SpelledTime) : Option Nat := if s.digits = [] then none else some s.nanos

theorem getD_fractionField (s : SpelledTime) : (fractionField s).getD 0 = s.nanos := by
  unfold fractionField
  split
  · rename_i hnone
    simp [SpelledTime.nanos, hnone, Double.ofDigits]
  · rfl

/-- The fields that are read of a spelled date and time. -/
def spelledFields (s : SpelledTime) (o : Option Int) : Fields := .spelled s.civil s.hour s.minute s.second (fractionField s) o

theorem readPointed_spelled {rest : List Char} (hends : EndsNumber rest) (hpoint : rest.head? ≠ some '.') :
    readPointed (.spelled s.civil s.hour s.minute s.second none none) fraction (s.fractionText ++ rest) =
      .ok (spelledFields s none, rest) := by
  have hnanos := s.nanos_lt
  unfold nanosPerSecond at hnanos
  unfold SpelledTime.fractionText spelledFields fractionField
  by_cases hnone : s.digits = []
  · rw [if_pos hnone, if_pos hnone, List.nil_append, readPointed]
    rintro cs rfl
    exact hpoint rfl
  · have hpositive : 0 < s.digits.length := List.length_pos_iff.2 hnone
    have hmax : (Double.ofDigits s.digits : Int) ≤ maxNumber := by
      have hdigits := Double.ofDigits_lt s.digits_isDigit
      have hpower : 10 ^ s.digits.length ≤ 10 ^ 9 := Nat.pow_le_pow_right (by decide) s.digits_le
      unfold maxNumber
      omega
    have hread := fraction_digits s.digits_isDigit hpositive s.digits_le hmax hends
    have hvalue : (Double.ofDigits s.digits : Int) * tenTo (9 - s.digits.length) = (s.nanos : Nat) := by
      rw [← Int.natCast_mul]
      rfl
    rw [if_neg hnone, if_neg hnone]
    show (fraction (s.digits ++ rest) >>= fun p => do return (← Fields.setNanosecond _ p.1, p.2)) = _
    rw [hread, hvalue]
    show (Fields.setNanosecond _ (s.nanos : Nat) >>= fun f => .ok (f, rest)) = _
    rw [Fields.setNanosecond_new rfl (by omega)]
    rfl

theorem date_wall (s : SpelledTime) : s.wall.date.civil = s.civil := Date.civil_ofCivil s.civil_valid

theorem inRange_wall (s : SpelledTime) : s.wall.date.inRange = true :=
  Date.inRange_of_year (by rw [Date.year, date_wall]; exact s.year_plain.1) (by rw [Date.year, date_wall]; exact s.year_plain.2)

theorem time_spelledFields (s : SpelledTime) (o : Option Int) : (spelledFields s o).time = .ok s.wall.time := by
  have hsecond := s.second_lt
  have hof : TimeOfDay.of? (s.hour * 3600 + s.minute * 60 + s.second) (s.nanos + 0) = some s.wall.time := s.wall.time.of?_self
  rw [spelledFields, Fields.time_spelled _ s.hour_lt, getD_fractionField, if_neg (by omega), if_neg (by omega), hof]
  rfl

/-- Spelled dates and times lie far inside the range. -/
theorem second_wall (s : SpelledTime) : firstSecond + 172800 ≤ s.wall.second ∧ s.wall.second + 172800 ≤ lastSecond := by
  have hdate := date_wall s
  have hday := Date.day_of_year (d := s.wall.date) (by rw [Date.year, hdate]; exact s.year_plain.1)
    (by rw [Date.year, hdate]; exact s.year_plain.2)
  have htime := s.wall.time.seconds_lt
  unfold Wall.second firstSecond lastSecond
  omega

theorem exists_instant (s : SpelledTime) (o : SpelledOffset) : ∃ t, s.wall.instant? o.seconds = some t ∧
    t.seconds = s.wall.second - o.seconds ∧ t.nanos = s.nanos := by
  have hsecond := second_wall s
  have hnear := o.seconds_near
  have hnanos := s.nanos_lt
  unfold maxStrictOffset at hnear
  refine ⟨⟨s.wall.second - o.seconds, s.nanos, by omega, by omega, by unfold nanosPerSecond at *; omega⟩, ?_, rfl, rfl⟩
  exact Instant.of?_eq_some_iff.2 ⟨rfl, rfl⟩

theorem instant_spelledFields (s : SpelledTime) (o : SpelledOffset) :
    succeeded (spelledFields s (some o.seconds)).instant = s.wall.instant? o.seconds := by
  have hnear := o.seconds_near
  unfold maxStrictOffset at hnear
  have htime : (Fields.spelled s.wall.date.civil s.hour s.minute s.second (fractionField s) (some o.seconds)).time =
      .ok s.wall.time := by
    rw [date_wall]
    exact time_spelledFields s _
  have hinstant := Fields.instant_spelled (inRange_wall s) htime
  rw [date_wall, if_pos (by omega)] at hinstant
  rw [spelledFields, hinstant]
  show succeeded (Fields.orElse (s.wall.instant? o.seconds) _) = _
  cases s.wall.instant? o.seconds <;> rfl

/-! ### Offsets -/

/-- True for the offsets that the strict form has. -/
def isStrict : SpelledOffset → Bool
  | .zulu => true
  | .signed _ _ _ colon => colon

theorem isStandard_offset (o : SpelledOffset) : ∀ c ∈ o.text, isStandard c = true := by
  cases o with
  | zulu => exact List.forall_mem_cons.2 ⟨rfl, by simp⟩
  | signed negative hours minutes colon =>
    unfold SpelledOffset.text SpelledOffset.between
    simp only [List.forall_mem_append, List.forall_mem_cons]
    refine ⟨by cases negative <;> rfl, ⟨isStandard_padded 2 _, ?_⟩, isStandard_padded 2 _⟩
    cases colon
    · simp
    · exact List.forall_mem_cons.2 ⟨rfl, by simp⟩

theorem endsNumber_offset (o : SpelledOffset) : EndsNumber o.text ∧ o.text.head? ≠ some '.' := by
  cases o with
  | zulu => exact ⟨fun c hc => by cases hc; rfl, by decide⟩
  | signed negative hours minutes colon =>
    cases negative
    · exact ⟨fun c hc => by cases hc; rfl, fun h => by cases h⟩
    · exact ⟨fun c hc => by cases hc; rfl, fun h => by cases h⟩

theorem offset_spelled {negative : Bool} {hours : Fin 24} {minutes : Fin 60} {colon : Bool}
    {between : List Char → Except Unreadable (Scan Unit)}
    (hbetween : between (SpelledOffset.between colon ++ (Double.padded 2 minutes ++ [])) = .ok ((), Double.padded 2 minutes ++ []))
    (zulu : Bool) : offset between zulu false (SpelledOffset.signed negative hours minutes colon).text =
      .ok ((SpelledOffset.signed negative hours minutes colon).seconds, []) := by
  have hread := fun (c : Char) (hc : c = '+' ∨ c = '-') =>
    offset_signed hc (by omega : (hours : Nat) < 100) minutes.isLt _ hbetween zulu false
  simp only [List.append_nil] at hread
  cases negative with
  | false => exact hread '+' (Or.inl rfl)
  | true => exact hread '-' (Or.inr rfl)

/-- The looser form reads a sign, hours and minutes with or without a colon. -/
theorem offset_loose (negative : Bool) (hours : Fin 24) (minutes : Fin 60) (colon : Bool) :
    offset separators false false (SpelledOffset.signed negative hours minutes colon).text =
      .ok ((SpelledOffset.signed negative hours minutes colon).seconds, []) := by
  refine offset_spelled ?_ false
  cases colon with
  | false => exact congrArg (fun cs => Except.ok ((), cs)) (dropWhile_padded (fun _ => not_separator_of_isDigit) 2 _ [])
  | true => exact passesColon_separators _ []

/-- The strict form asks for the colon. -/
theorem offset_strict (o : SpelledOffset) : offset (character ':') true false o.text =
    if isStrict o then .ok (o.seconds, []) else .error .mismatch := by
  cases o with
  | zulu => rfl
  | signed negative hours minutes colon =>
    cases colon with
    | true => exact offset_spelled rfl true
    | false =>
      have hcolon : character ':' (Double.padded 2 minutes) = .error .mismatch := by
        obtain ⟨hdigit, -⟩ := digit_char (minutes / 10) (by omega)
        rw [padded_two minutes (by omega), character, if_neg]
        intro h
        rw [← h] at hdigit
        exact absurd hdigit (by decide)
      cases negative <;>
      · simp [SpelledOffset.text, SpelledOffset.between, offset, twoDigits?_padded (by omega : (hours : Nat) < 100), bind,
          Except.bind, hcolon, isStrict]

/-! ### Forms -/

section Forms

variable {rest : List Char} (hends : EndsNumber rest) (hpoint : rest.head? ≠ some '.')

include hends hpoint

theorem readStrict_rest : readStrict (s.body rest) =
    (offset (character ':') true false rest >>= fun p =>
      Fields.within (-maxStrictOffset) maxStrictOffset p.1 >>= fun _ => do
        return (← (spelledFields s none).setOffset p.1, p.2)) := by
  rw [SpelledTime.body, readStrict_spelled s.civil_valid s.year_plain.1 s.year_plain.2 s.hour_lt s.minute_lt
    (by have := s.second_lt; omega), readPointed_spelled hends hpoint]
  rfl

theorem readItems_rest (is : List Item) :
    readItems {} (s.body rest) (dateItems ++ (minuteItems ++ (secondItems ++ is))) =
      readItems (spelledFields s none) rest is := by
  have hyear := s.year_plain
  exact readItems_spelled s.civil_valid (by omega) s.hour_lt s.minute_lt (by have := s.second_lt; omega)
    (readPointed_spelled hends hpoint) is

end Forms

theorem setOffset_spelled (s : SpelledTime) (o : SpelledOffset) :
    (spelledFields s none).setOffset o.seconds = .ok (spelledFields s (some o.seconds)) := by
  have hnear := o.seconds_near
  unfold maxStrictOffset at hnear
  exact Fields.setOffset_new rfl (by unfold Fields.maxSmall; omega)

/-- The strict form reads a spelled date and time if it has the form of the offset. -/
theorem strict?_offset (s : SpelledTime) (o : SpelledOffset) :
    strict? (s.body o.text) = if isStrict o then s.wall.instant? o.seconds else none := by
  obtain ⟨hends, hpoint⟩ := endsNumber_offset o
  have hread := readStrict_rest (s := s) hends hpoint
  rw [offset_strict] at hread
  by_cases hstrict : isStrict o = true
  · have hwithin : Fields.within (-maxStrictOffset) maxStrictOffset o.seconds = .ok () := if_pos o.seconds_near
    rw [if_pos hstrict] at hread
    simp only [bind, Except.bind, hwithin, setOffset_spelled] at hread
    rw [if_pos hstrict, strict?, hread]
    exact instant_spelledFields s o
  · rw [if_neg hstrict] at hread
    rw [if_neg hstrict, strict?, hread]
    rfl

/-- The looser form reads all that the strict form does not. -/
theorem offsetInstant?_offset (s : SpelledTime) {o : SpelledOffset} (ho : isStrict o = false) :
    offsetInstant? offsetForm (s.body o.text) = s.wall.instant? o.seconds := by
  obtain ⟨hends, hpoint⟩ := endsNumber_offset o
  have htrim : trimStart o.text = o.text := dropWhile_of_head fun c hc =>
    isBlank_of_isStandard (isStandard_offset o) c (List.mem_of_mem_head? hc)
  have hloose : offset separators false false (trimStart o.text) = .ok (o.seconds, []) := by
    rw [htrim]
    cases o with
    | zulu => cases ho
    | signed negative hours minutes colon => exact offset_loose negative hours minutes colon
  have hfields := readItems_rest (s := s) hends hpoint [.named (.offset .plain)]
  rw [← offsetForm_eq, readItems_plainOffset hloose (setOffset_spelled s o)] at hfields
  rw [offsetInstant?, fieldsOf_of_all hfields]
  exact instant_spelledFields s o

/-- With an offset a spelled date and time is an instant, in the strict form or in the looser one. -/
theorem body?_offset (z : Zone) (s : SpelledTime) (o : SpelledOffset) :
    body? z (s.body o.text) = s.wall.instant? o.seconds := by
  obtain ⟨t, ht, -⟩ := exists_instant s o
  rw [body?, strict?_offset]
  cases hstrict : isStrict o with
  | true => rw [if_pos rfl, ht]
  | false => rw [if_neg (by decide), offsetInstant?_offset s hstrict, ht]

/-- Without an offset it is a local date and time. -/
theorem body?_local (z : Zone) (s : SpelledTime) : body? z (s.body []) = z.resolve s.wall := by
  have hends : EndsNumber [] := by simp [EndsNumber]
  have hpoint : ([] : List Char).head? ≠ some '.' := by simp
  have hnone : strict? (s.body []) = none := by
    rw [strict?, readStrict_rest hends hpoint]
    rfl
  have hloose : offsetInstant? offsetForm (s.body []) = none := by
    have hfields := readItems_rest (s := s) hends hpoint [.named (.offset .plain)]
    rw [← offsetForm_eq] at hfields
    rw [offsetInstant?, fieldsOf_of_error hfields]
    rfl
  have hdate : (spelledFields s none).date = .ok s.wall.date := by
    rw [spelledFields, ← date_wall]
    exact Fields.date_spelled (inRange_wall s)
  have hlocal : (localForms.findSome? fun form => wall? form (s.body [])) = some s.wall := by
    have hfields := readItems_rest (s := s) hends hpoint []
    rw [List.append_nil secondItems] at hfields
    have hwall : (spelledFields s none).wall 0 = .ok s.wall := by
      rw [Fields.wall, hdate, time_spelledFields]
      rfl
    have hread : succeeded ((Except.ok (spelledFields s none)).bind fun f => f.wall 0) = some s.wall := congrArg succeeded hwall
    rw [localForms_eq, List.findSome?_cons, wall?, fieldsOf_of_all hfields, hread]
  rw [body?, hnone, hloose, hlocal]

/-- All spellings of a date and time with an offset are the instant that is the offset before it, whatever zone name follows.
Without an offset they are the first instant with this local time, if it is shown, in the zone that is named, else in the given
one. -/
theorem instant?_spelled (find : List Char → Option Zone) (zone : Zone) {z : Zone} {name : Option (List Char)}
    (hz : chosen find zone name = some z) (s : SpelledTime) {before after : List Char}
    (hbefore : ∀ c ∈ before, isBlank c = true) (hafter : ∀ c ∈ after, isBlank c = true) :
    (∀ o : SpelledOffset, ∃ t, instant? find zone (before ++ (s.text o.text ++ bracketed name) ++ after) = some t ∧
      t.seconds = s.wall.second - o.seconds ∧ t.nanos = s.nanos) ∧
    (z.WellFormed → ∀ t', z.wall t' = s.wall → ∃ t,
      instant? find zone (before ++ (s.text [] ++ bracketed name) ++ after) = some t ∧ z.Earliest s.wall t) := by
  refine ⟨fun o => ?_, fun hwell t' ht' => ?_⟩
  · rw [instant?_surrounded find zone hz hbefore hafter (isStandard_offset o), body?_offset]
    exact exists_instant s o
  · have hfirst := (second_wall s).1
    obtain ⟨t, hearliest⟩ := Zone.exists_earliest_of_wall hwell (by omega) ht'
    rw [instant?_surrounded find zone hz hbefore hafter (by simp), body?_local]
    exact ⟨t, (Zone.resolve_eq_some_iff hwell).2 (Or.inl hearliest), hearliest⟩

/-- Half past two on October 31, 2021, and half a second. -/
def autumnSpelling : SpelledTime where
  civil := ⟨2021, 10, 31⟩
  hour := 2
  minute := 30
  second := 0
  digits := ['5', '0']
  mark := ' '
  civil_valid := by decide
  year_plain := by decide
  hour_lt := by decide
  minute_lt := by decide
  second_lt := by decide
  digits_isDigit := List.all_eq_true.1 rfl
  digits_le := by decide
  mark_eq := Or.inr rfl

/-- At an offset of one hour it is half past one in UTC; in Berlin, where clocks showed it twice, half past midnight. -/
theorem instant?_spelled_autumn :
    (∃ t, instant? Zone.named? .utc " 2021-10-31 02:30:00.50+0100[Europe/Berlin]\t".toList = some t ∧
      t.seconds = 1635643800 ∧ t.nanos = 500000000) ∧
    ∃ t, instant? Zone.named? .utc " 2021-10-31 02:30:00.50[Europe/Berlin]\t".toList = some t ∧
      Zone.berlin.Earliest autumnSpelling.wall t := by
  have hwell : Zone.berlin.WellFormed := Zone.wellFormed_of_mem (by decide +kernel)
  have hchosen : chosen Zone.named? .utc (some "Europe/Berlin".toList) = some Zone.berlin := by decide +kernel
  have hbefore : ∀ c ∈ [' '], isBlank c = true := List.all_eq_true.1 rfl
  have hafter : ∀ c ∈ ['\t'], isBlank c = true := List.all_eq_true.1 rfl
  obtain ⟨hoffset, hlocal⟩ := instant?_spelled Zone.named? .utc hchosen autumnSpelling hbefore hafter
  have htext : " 2021-10-31 02:30:00.50+0100[Europe/Berlin]\t".toList =
      [' '] ++ (autumnSpelling.text (SpelledOffset.signed false 1 0 false).text ++ bracketed (some "Europe/Berlin".toList)) ++
        ['\t'] := by decide +kernel
  have htext' : " 2021-10-31 02:30:00.50[Europe/Berlin]\t".toList =
      [' '] ++ (autumnSpelling.text [] ++ bracketed (some "Europe/Berlin".toList)) ++ ['\t'] := by decide +kernel
  obtain ⟨t, ht, hseconds, hnanos⟩ := hoffset (.signed false 1 0 false)
  rw [htext, htext']
  exact ⟨⟨t, ht, hseconds.trans (by decide +kernel), hnanos.trans (by decide +kernel)⟩,
    hlocal hwell ⟨1635640200, 500000000, by decide, by decide, by decide⟩ (by decide +kernel)⟩

end Reading

end Rowwise
