import Mathlib.Data.List.TakeWhile
import Rowwise.Function.Calendar
import Rowwise.Proofs.Calendar.LooseText
import Rowwise.Proofs.Calendar.Walls

/-!
# Rowwise.Proofs.Calendar.ReadingBack — texts of instants are read back

* Blanks and a zone name in brackets around a text are taken off (`Reading.trim_surrounded`, `Reading.splitZone_bracketed`).  The
  text of a date and time has no blanks and no brackets, so its forms are tried one after the other on all of it.  What is
  read is the date and time that the text shows, at the offset that it shows (`Reading.instant?_text`).
* A text that ends in `Z` is read with a year of four digits only: the strict form has no other years, and the form that has
  them has no `Z`.
* `Instant.text_read_back`: which instants come back from their canonical text.
* `CalendarFunction.dateText_read_back`: what comes back from a text written in a zone, whose offset it shows in minutes.
-/

namespace Rowwise

namespace Reading

open Text

variable {w : Wall} {o : Int} {zulu : Bool}

/-! ### Characters -/

/-- Digits and the marks of dates, times and offsets. -/
def isStandard (c : Char) : Bool := c.isDigit || c ∈ ['-', '+', ':', '.', 'T', 'Z']

theorem isStandard_padded (width n : Nat) : ∀ c ∈ Double.padded width n, isStandard c = true := by
  intro c hc
  unfold isStandard
  rw [Double.isDigit_padded width n c hc, Bool.true_or]

theorem isStandard_yearText (year : Int) : ∀ c ∈ Wall.yearText year, isStandard c = true := by
  unfold Wall.yearText
  split
  · exact isStandard_padded 4 _
  · refine List.forall_mem_cons.2 ⟨?_, isStandard_padded 4 _⟩
    split <;> rfl

theorem isStandard_dateText {c : Civil} {rest : List Char} (h : ∀ d ∈ rest, isStandard d = true) :
    ∀ d ∈ dateText c rest, isStandard d = true := by
  unfold dateText
  simp only [List.forall_mem_append, List.forall_mem_cons]
  exact ⟨isStandard_yearText _, rfl, isStandard_padded 2 _, rfl, isStandard_padded 2 _, h⟩

theorem isStandard_fractionText (nanos : Nat) : ∀ c ∈ TimeOfDay.fractionText ['.'] nanos, isStandard c = true := by
  have hpointed : ∀ width n, ∀ c ∈ ['.'] ++ Double.padded width n, isStandard c = true := fun width n =>
    List.forall_mem_cons.2 ⟨rfl, isStandard_padded width n⟩
  unfold TimeOfDay.fractionText
  split
  · simp
  · split
    · exact hpointed 3 _
    · split
      · exact hpointed 6 _
      · exact hpointed 9 _

theorem isStandard_offsetEnd (zulu : Bool) (o : Int) : ∀ c ∈ offsetEnd zulu o, isStandard c = true := by
  unfold offsetEnd
  split
  · exact List.forall_mem_cons.2 ⟨rfl, by simp⟩
  · unfold Wall.offsetText
    refine List.forall_mem_cons.2 ⟨?_, ?_⟩
    · split <;> rfl
    · rw [List.append_assoc, List.forall_mem_append, List.forall_mem_append]
      exact ⟨isStandard_padded 2 _, List.forall_mem_cons.2 ⟨rfl, by simp⟩, isStandard_padded 2 _⟩

theorem isStandard_text (w : Wall) (zulu : Bool) (o : Int) : ∀ c ∈ w.text zulu o, isStandard c = true := by
  rw [text_spelled]
  unfold spelledText minuteText
  refine isStandard_dateText ?_
  simp only [List.forall_mem_append, List.forall_mem_cons]
  exact ⟨rfl, isStandard_padded 2 _, rfl, isStandard_padded 2 _, rfl, isStandard_padded 2 _, isStandard_fractionText _,
    isStandard_offsetEnd zulu o⟩

/-! ### Around a text -/

/-- Blanks around a text are taken off. -/
theorem trim_surrounded {before cs after : List Char} (hbefore : ∀ c ∈ before, isBlank c = true)
    (hafter : ∀ c ∈ after, isBlank c = true) (hfirst : ∀ c ∈ cs.head?, isBlank c = false)
    (hlast : ∀ c ∈ cs.getLast?, isBlank c = false) : trim (before ++ cs ++ after) = cs := by
  have hback : ∀ c ∈ cs.reverse.head?, isBlank c = false := by rwa [List.head?_reverse]
  have hend : ∀ c ∈ after.reverse, isBlank c = true := fun c hc => hafter c (List.mem_reverse.1 hc)
  rw [trim, trimStart, List.append_assoc, List.dropWhile_append_of_pos hbefore]
  cases cs with
  | nil =>
    rw [List.nil_append, List.dropWhile_eq_nil_iff.2 hafter]
    rfl
  | cons c cs =>
    have hfront : ((c :: cs) ++ after).dropWhile isBlank = (c :: cs) ++ after := dropWhile_of_head hfirst
    rw [hfront, trimEnd, List.reverse_append, List.dropWhile_append_of_pos hend, dropWhile_of_head hback, List.reverse_reverse]

theorem splitAt?_append {d : Char} {cs rest : List Char} (h : d ∉ cs) : splitAt? d (cs ++ d :: rest) = some (cs, rest) := by
  induction cs with
  | nil => simp [splitAt?]
  | cons c cs ih =>
    rw [List.mem_cons, not_or] at h
    rw [List.cons_append, splitAt?, if_neg (Ne.symm h.1), ih h.2]
    rfl

theorem splitZone_bracketed {cs name : List Char} (h : '[' ∉ cs) : splitZone (cs ++ '[' :: (name ++ [']'])) = some (cs, name) := by
  have hreverse : (cs ++ '[' :: (name ++ [']'])).reverse = ']' :: (cs ++ '[' :: name).reverse := by simp
  unfold splitZone
  rw [hreverse]
  simp only [List.reverse_reverse]
  exact splitAt?_append h

theorem splitZone_of_not_mem {cs : List Char} (h : ']' ∉ cs) : splitZone cs = none := by
  unfold splitZone
  split
  · rename_i front hreverse
    exact absurd (List.mem_reverse.1 (by rw [hreverse]; simp)) h
  · rfl

theorem markDateTime_append {cs : List Char} (h : ' ' ∉ cs) (rest : List Char) :
    markDateTime (cs ++ rest) = cs ++ markDateTime rest := by
  induction cs with
  | nil => rfl
  | cons c cs ih =>
    rw [List.mem_cons, not_or] at h
    rw [List.cons_append, markDateTime, if_neg (Ne.symm h.1), ih h.2]
    rfl

/-! ### Texts of standard characters -/

section Standard

variable {cs : List Char} (h : ∀ c ∈ cs, isStandard c = true)

include h

theorem isBlank_of_isStandard : ∀ c ∈ cs, isBlank c = false := by
  intro c hc
  have hstandard := h c hc
  rw [isStandard, Bool.or_eq_true] at hstandard
  rcases hstandard with hdigit | hmark
  · exact isBlank_of_isDigit hdigit
  · have hmark' : c ∈ ['-', '+', ':', '.', 'T', 'Z'] := of_decide_eq_true hmark
    simp only [List.mem_cons, List.not_mem_nil, or_false] at hmark'
    rcases hmark' with rfl | rfl | rfl | rfl | rfl | rfl <;> rfl

theorem not_mem_of_isStandard {c : Char} (hc : isStandard c = false) : c ∉ cs := fun hmem => by
  rw [h c hmem] at hc
  cases hc

theorem trim_of_isStandard : trim cs = cs := by
  have hblank := isBlank_of_isStandard h
  have htrim := trim_surrounded (List.forall_mem_nil _) (List.forall_mem_nil _) (fun c hc => hblank c (List.mem_of_mem_head? hc))
    fun c hc => hblank c (List.mem_of_mem_getLast? hc)
  rwa [List.nil_append, List.append_nil] at htrim

theorem splitZone_of_isStandard : splitZone cs = none := splitZone_of_not_mem (not_mem_of_isStandard h rfl)

theorem markDateTime_of_isStandard : markDateTime cs = cs := by
  have hmark := markDateTime_append (not_mem_of_isStandard h rfl) []
  rwa [markDateTime, List.append_nil] at hmark

/-- A text of such characters has no blanks and no zone name. -/
theorem instant?_of_isStandard (find : List Char → Option Zone) (zone : Zone) : instant? find zone cs = body? zone cs := by
  rw [instant?, trim_of_isStandard h]
  simp only [splitZone_of_isStandard h, markDateTime_of_isStandard h]

end Standard

/-! ### Texts of dates and times -/

/-- The text of a date and time says them at the offset that it says, unless a year with a sign ends in `Z` or the offset
rounds to a day. -/
theorem instant?_text (find : List Char → Option Zone) (zone : Zone) (hdate : w.date.inRange = true) (ho : o.natAbs < 359970)
    (zulu : Bool) :
    instant? find zone (w.text zulu o) =
      if (zulu = true ∧ o = 0 → w.date.PlainYear) ∧ (Wall.roundedOffset o).natAbs ≤ 86340 then
        w.shown.instant? (Wall.roundedOffset o)
      else none := by
  have hyear := Date.natAbs_year_of_inRange hdate
  rw [instant?_of_isStandard (isStandard_text w zulu o), body?, strict?_text hdate ho, offsetInstant?_text hdate ho,
    wall?_text hyear, startOfDay?_text hyear]
  by_cases hday : (Wall.roundedOffset o).natAbs ≤ 86340
  · simp only [hday, and_true]
    by_cases hplain : w.date.PlainYear
    · -- what the strict form cannot say, the form with an offset cannot say either
      rw [if_pos hplain, if_pos fun _ => hplain]
      cases w.shown.instant? (Wall.roundedOffset o) with
      | some t => rfl
      | none => rw [ite_self]; rfl
    · rw [if_neg hplain]
      by_cases hzulu : zulu = true ∧ o = 0
      · rw [if_neg (not_not_intro hzulu), if_neg fun h => hplain (h hzulu)]
        rfl
      · rw [if_pos hzulu, if_pos fun h => absurd h hzulu]
        cases w.shown.instant? (Wall.roundedOffset o) <;> rfl
  · simp only [hday, and_false, if_false]
    rfl

end Reading

/-! ### Instants -/

namespace Instant

variable {t t' : Instant} {o : Int}

/-- Clocks `o` seconds ahead of UTC show a leap second within one of their minutes, not at its end. -/
def LeapWithin (t : Instant) (o : Int) : Prop := (t.wall o).time.isLeap = true ∧ (t.wall o).time.second ≠ 59

instance (t : Instant) (o : Int) : Decidable (t.LeapWithin o) := inferInstanceAs (Decidable (_ ∧ _))

/-- What the date and time that is shown at one offset stands for at another. -/
theorem instant?_shown (t : Instant) (o r : Int) :
    (t.wall o).shown.instant? r = of? (t.seconds + (o - r) + if t.LeapWithin o then 1 else 0)
      (if t.LeapWithin o then t.nanos - nanosPerSecond else t.nanos) := by
  have hsecond := t.second_wall o
  unfold Wall.second at hsecond
  show of? ((t.wall o).date.day * 86400 + (t.wall o).time.shown.seconds - r) (t.wall o).time.shown.nanos = _
  by_cases hleap : t.LeapWithin o
  · obtain ⟨hseconds, hnanos⟩ := TimeOfDay.shown_of_leap hleap.1 hleap.2
    have hnanos' : (t.wall o).time.shown.nanos = t.nanos - nanosPerSecond := Nat.eq_sub_of_add_eq hnanos
    have hnext : (t.wall o).date.day * 86400 + (t.wall o).time.shown.seconds - r = t.seconds + (o - r) + 1 := by omega
    rw [if_pos hleap, if_pos hleap, hnanos', hnext]
  · have hshown := TimeOfDay.shown_of_second (t := (t.wall o).time) fun h => not_not.1 fun h' => hleap ⟨h, h'⟩
    have hsame : (t.wall o).date.day * 86400 + (t.wall o).time.seconds - r = t.seconds + (o - r) + 0 := by omega
    rw [if_neg hleap, if_neg hleap, hshown, hsame]
    rfl

/-- The instant itself is what its date and time stands for, at the same offset, if the text shows it as it is. -/
theorem instant?_shown_eq_self_iff {r : Int} : (t.wall o).shown.instant? r = some t ↔ r = o ∧ ¬ t.LeapWithin o := by
  rw [instant?_shown, of?_eq_some_iff]
  by_cases hleap : t.LeapWithin o
  · have hnanos : nanosPerSecond ≤ t.nanos := of_decide_eq_true hleap.1
    unfold nanosPerSecond at hnanos ⊢
    rw [if_pos hleap, if_pos hleap]
    refine ⟨fun h => ?_, fun h => absurd hleap h.2⟩
    omega
  · rw [if_neg hleap, if_neg hleap]
    refine ⟨fun h => ⟨by omega, hleap⟩, fun h => ⟨by omega, rfl⟩⟩

/-- Local time with a year of four digits leaves room for what an offset moves. -/
theorem exists_shown (hyear : (t.wall o).date.PlainYear) {r : Int} (hr : r.natAbs ≤ 86400) :
    ∃ t', (t.wall o).shown.instant? r = some t' ∧
      t'.seconds = t.seconds + (o - r) + (if t.LeapWithin o then 1 else 0) ∧
      t'.nanos = (if t.LeapWithin o then t.nanos - nanosPerSecond else t.nanos) := by
  have hday := Date.day_of_year hyear.1 hyear.2
  have hsecond := t.second_wall o
  have htime := (t.wall o).time.seconds_lt
  have hnanos := t.nanos_lt
  unfold Wall.second at hsecond
  have hrange : firstSecond ≤ t.seconds + (o - r) + (if t.LeapWithin o then 1 else 0) ∧
      t.seconds + (o - r) + (if t.LeapWithin o then 1 else 0) ≤ lastSecond := by
    unfold firstSecond lastSecond
    split <;> omega
  have hshown : (if t.LeapWithin o then t.nanos - nanosPerSecond else t.nanos) < 2 * nanosPerSecond := by
    split <;> omega
  rw [instant?_shown]
  exact ⟨⟨_, _, hrange.1, hrange.2, hshown⟩, dif_pos ⟨hrange.1, hrange.2, hshown⟩, rfl, rfl⟩

theorem instant?_canonicalText (find : List Char → Option Zone) (zone : Zone) (t : Instant) :
    Reading.instant? find zone t.text = if (t.wall 0).date.PlainYear then (t.wall 0).shown.instant? 0 else none := by
  have hzero : Wall.roundedOffset 0 = 0 := rfl
  rw [text, Reading.instant?_text find zone t.inRange_wall (by decide), hzero]
  simp

theorem convert_text_and_back (zone zone' : Zone) (t : Instant) :
    ((Value.instant (some t)).cast zone .text).bind (·.cast zone' .instant) =
      .ok (.instant (Reading.instant? Zone.named? zone' t.text)) := by
  show Except.ok (Value.instant (Reading.instant? Zone.named? zone' (String.ofList t.text).toList)) = _
  rw [String.toList_ofList]

/-- The canonical text of an instant is read back as the same instant, in whatever zone, and an instant comes through text
unchanged, exactly if its year has four digits and no sign and it is no leap second within a minute.  Years with a sign are not
read at all; such a leap second is read as the second that follows it. -/
theorem text_read_back (find : List Char → Option Zone) (zone zone' : Zone) (t : Instant) :
    (Reading.instant? find zone t.text = some t ↔ (t.wall 0).date.PlainYear ∧ ¬ t.LeapWithin 0) ∧
    (((Value.instant (some t)).cast zone' .text).bind (·.cast zone .instant) = .ok (.instant (some t)) ↔
      (t.wall 0).date.PlainYear ∧ ¬ t.LeapWithin 0) ∧
    (¬ (t.wall 0).date.PlainYear → Reading.instant? find zone t.text = none) ∧
    ((t.wall 0).date.PlainYear → t.LeapWithin 0 → ∃ t', Reading.instant? find zone t.text = some t' ∧
      t'.seconds = t.seconds + 1 ∧ t'.nanos + nanosPerSecond = t.nanos) := by
  have hself : ∀ names, Reading.instant? names zone t.text = some t ↔ (t.wall 0).date.PlainYear ∧ ¬ t.LeapWithin 0 := by
    intro names
    rw [instant?_canonicalText]
    by_cases hyear : (t.wall 0).date.PlainYear
    · simp [hyear, instant?_shown_eq_self_iff]
    · simp [hyear]
  refine ⟨hself find, ?_, ?_, ?_⟩
  · rw [convert_text_and_back, ← hself Zone.named?]
    simp
  · intro hyear
    rw [instant?_canonicalText, if_neg hyear]
  · intro hyear hleap
    have hnanos : nanosPerSecond ≤ t.nanos := of_decide_eq_true hleap.1
    obtain ⟨t', hshown, hseconds, hshownNanos⟩ := t.exists_shown hyear (by decide : (0 : Int).natAbs ≤ 86400)
    rw [if_pos hleap] at hseconds hshownNanos
    refine ⟨t', ?_, by omega, by omega⟩
    rw [instant?_canonicalText, if_pos hyear, hshown]

/-- The first second of the year 10000. -/
def year10000 : Instant := ⟨253402300800, 0, by decide, by decide, first.nanos_lt⟩

/-- With a year of five digits the text is not read if it ends in `Z`, though it is if it ends in `+00:00`. -/
theorem text_unread :
    Reading.instant? Zone.named? .utc year10000.text = none ∧
    Reading.instant? Zone.named? .utc ((year10000.wall 0).text false 0) = some year10000 := by
  constructor
  · rw [instant?_canonicalText, if_neg (by decide)]
  · rw [Reading.instant?_text _ _ year10000.inRange_wall (by decide), if_pos (by decide), instant?_shown_eq_self_iff]
    decide

end Instant

/-! ### Texts in a zone -/

namespace CalendarFunction

/-- What `dateText` writes where no pattern is given. -/
theorem run_dateText {zone : Zone} {t : Instant} {rest : List Value} {locale : Option Locale} {named : Option Zone}
    (hpattern : textAt (.instant (some t) :: rest) 1 = none) (hlocale : localeAt (.instant (some t) :: rest) 2 = .ok locale)
    (hzone : zoneAt zone (.instant (some t) :: rest) 3 = .ok named) :
    run zone dateText (.instant (some t) :: rest) = .ok (.ofChars
      (((named.getD zone).wall t).text true ((named.getD zone).offsetAt t.seconds).seconds)) := by
  simp only [run, hlocale, hzone, hpattern, bind, Except.bind]
  rfl

/-- What `dateOfText` reads where nothing but the text is given. -/
theorem run_dateOfText (zone : Zone) (cs : List Char) :
    run zone dateOfText [.ofChars cs] = match Reading.instant? Zone.named? zone cs with
      | some t => .ok (.instant (some t))
      | none => .error (.unreadable (String.ofList cs) none) := by
  show (readInstant zone (String.ofList cs) none >>= fun t => .ok (Value.instant (some t))) = _
  rw [readInstant, String.toList_ofList]
  cases Reading.instant? Zone.named? zone cs <;> rfl

/-- The text of an instant in a zone, with a local year of four digits, is read back as an instant again, unless the offset
rounds to a day: it is moved by what the offset loses when it is rounded to minutes, and a leap second within a local minute
is read as the second that follows.  So it is the same instant exactly if the offset is one of whole minutes and the text shows
no such leap second. -/
theorem dateText_read_back {zone : Zone} (zone' : Zone) {t : Instant} {rest : List Value} {locale : Option Locale}
    {named : Option Zone} {o : Int}
    (hpattern : textAt (.instant (some t) :: rest) 1 = none) (hlocale : localeAt (.instant (some t) :: rest) 2 = .ok locale)
    (hzone : zoneAt zone (.instant (some t) :: rest) 3 = .ok named)
    (ho : ((named.getD zone).offsetAt t.seconds).seconds = o) (hoffset : o.natAbs < 86400)
    (hyear : ((named.getD zone).wall t).date.PlainYear) :
    ∃ s, run zone dateText (.instant (some t) :: rest) = .ok (.text (some s)) ∧
      (o.natAbs < 86370 → ∃ t', run zone' dateOfText [.text (some s)] = .ok (.instant (some t')) ∧
        t'.seconds = t.seconds + (o - Wall.roundedOffset o) + (if t.LeapWithin o then 1 else 0) ∧
        t'.nanos = (if t.LeapWithin o then t.nanos - nanosPerSecond else t.nanos) ∧
        (t' = t ↔ 60 ∣ o ∧ ¬ t.LeapWithin o)) ∧
      (86370 ≤ o.natAbs → run zone' dateOfText [.text (some s)] = .error (.unreadable s none)) := by
  have hwall : (named.getD zone).wall t = t.wall o := congrArg t.wall ho
  have hwritten := run_dateText hpattern hlocale hzone
  rw [hwall] at hyear
  rw [hwall, ho] at hwritten
  have hrounded := Reading.natAbs_roundedOffset o
  have hread := Reading.instant?_text Zone.named? zone' (Date.inRange_of_year hyear.1 hyear.2) (by omega : o.natAbs < 359970) true
  have hback := run_dateOfText zone' ((t.wall o).text true o)
  refine ⟨_, hwritten, fun hless => ?_, fun hmore => ?_⟩
  · obtain ⟨t', hshown, hseconds, hnanos⟩ := t.exists_shown hyear (by omega : (Wall.roundedOffset o).natAbs ≤ 86400)
    rw [hread, if_pos ⟨fun _ => hyear, by omega⟩, hshown] at hback
    refine ⟨t', hback, hseconds, hnanos, ?_⟩
    rw [← Reading.roundedOffset_eq_self_iff, ← Instant.instant?_shown_eq_self_iff, hshown, Option.some_inj]
  · rw [hread, if_neg fun h => by omega] at hback
    exact hback

/-- Clocks two hours ahead. -/
def twoHours : Zone := .fixed "EET" ⟨7200, "EET"⟩

/-- The leap second at the end of the year 2016. -/
def leapSecond : Instant := ⟨1483228799, 1000000000, by decide, by decide, by decide⟩

theorem dateText_read_back_leap : ∃ s,
    run twoHours dateText [.instant (some leapSecond), .text none] = .ok (.text (some s)) ∧
    run .utc dateOfText [.text (some s)] = .ok (.instant (some leapSecond)) := by
  have hpattern : textAt [.instant (some leapSecond), .text none] 1 = none := rfl
  have hzone : zoneAt twoHours [.instant (some leapSecond), .text none] 3 = .ok (some twoHours) := rfl
  obtain ⟨s, hwritten, hread, -⟩ := dateText_read_back .utc hpattern rfl hzone rfl (by decide) (by decide)
  obtain ⟨t', hread, -, -, hself⟩ := hread (by decide)
  refine ⟨s, hwritten, ?_⟩
  rw [hread, hself.2 (by decide)]

/-- The beginning of the year 1800, when clocks showed local mean time. -/
def year1800 : Instant := ⟨-5364662400, 0, by decide, by decide, Instant.first.nanos_lt⟩

/-- An offset of 53 minutes and 28 seconds is written without its seconds, so another instant is read. -/
theorem dateText_read_shifted : ∃ s,
    run (.fixed "LMT" ⟨3208, "LMT"⟩) dateText [.instant (some year1800)] = .ok (.text (some s)) ∧
    run .utc dateOfText [.text (some s)] ≠ .ok (.instant (some year1800)) := by
  refine ⟨"1800-01-01T00:53:28+00:53", by decide +kernel, by decide +kernel⟩

end CalendarFunction

end Rowwise
