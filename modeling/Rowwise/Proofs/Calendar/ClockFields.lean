import Rowwise.Proofs.Calendar.Editing

/-!
# Rowwise.Proofs.Calendar.ClockFields — the fields of a time of day

Hour, minute, second and the fraction of the second are stored in two numbers, and milliseconds are digits of the nanoseconds.
Each field is still one of its own: for every number of its range there is a time that has it there and is the same elsewhere
(`TimeOfDay.withField?_spec`).  So a time takes any number that its field takes, shows it from then on, keeps what the field does
not cover, and stays what it is if the number was there before (`TimeOfDay.withField_lawful`).
-/

namespace Rowwise

/-- The number `n`, given as a double, is one that the field of a unit takes. -/
def DateUnit.Takes (unit : DateUnit) (v : Float) (n : Int) : Prop :=
  Double.IsInt v n ∧ unit.range.1 ≤ n ∧ n ≤ unit.range.2

namespace TimeOfDay

variable {t t' : TimeOfDay} {unit : DateUnit} {n : Nat} {v : Float}

/-- The time with the number `n` in a field, if there is one; fields of the calendar leave it as it is. -/
def withField? (t : TimeOfDay) (n : Nat) : DateUnit → Option TimeOfDay
  | .nanosecond => t.withNanos? n
  | .millisecond => t.withNanos? (n * 1000000 + t.nanos % 1000000)
  | .second => t.withSecond? n
  | .minute => t.withMinute? n
  | .hour => t.withHour? n
  | _ => some t

/-- Where there is no such time, the old one would stay. -/
theorem withField_eq (hunit : unit.isOfDay false = true) (t : TimeOfDay) (v : Float) : t.withField v unit =
    (fieldValue unit unit.range.1 unit.range.2 v).map fun n => (t.withField? n.toNat unit).getD t := by
  have hsteps : t.withField v unit =
      fieldValue unit unit.range.1 unit.range.2 v >>= fun n => .ok ((t.withField? n.toNat unit).getD t) := by
    cases unit <;> first | rfl | cases hunit
  rw [hsteps]
  cases fieldValue unit unit.range.1 unit.range.2 v <;> rfl

/-- Two times that differ at most in the field of a unit.  Milliseconds leave the digits behind them alone, and the units of the
calendar leave the time as it is. -/
structure SameBut (unit : DateUnit) (t t' : TimeOfDay) : Prop where
  calendar : unit.isOfDay false = false → t' = t
  hour : unit ≠ .hour → t'.hour = t.hour
  minute : unit ≠ .minute → t'.minute = t.minute
  second : unit ≠ .second → t'.second = t.second
  nanos : unit ≠ .nanosecond → unit ≠ .millisecond → t'.nanos = t.nanos
  behindMillis : unit ≠ .nanosecond → t'.nanos % 1000000 = t.nanos % 1000000

theorem SameBut.refl (unit : DateUnit) (t : TimeOfDay) : t.SameBut unit t :=
  ⟨fun _ => rfl, fun _ => rfl, fun _ => rfl, fun _ => rfl, fun _ _ => rfl, fun _ => rfl⟩

/-- Times that differ in their seconds only. -/
theorem SameBut.ofSeconds (hunit : unit.isOfDay false = true) (hnanos : t'.nanos = t.nanos)
    (hhour : unit ≠ .hour → t'.hour = t.hour) (hminute : unit ≠ .minute → t'.minute = t.minute)
    (hsecond : unit ≠ .second → t'.second = t.second) : t.SameBut unit t' where
  calendar hcalendar := absurd (hunit.symm.trans hcalendar) Bool.true_eq_false.mp
  hour := hhour
  minute := hminute
  second := hsecond
  nanos _ _ := hnanos
  behindMillis _ := congrArg (· % 1000000) hnanos

/-! ### One field at a time -/

theorem of?_eq_some_iff {seconds nanos : Nat} : of? seconds nanos = some t ↔ t.seconds = seconds ∧ t.nanos = nanos := by
  refine ⟨fun h => ?_, ?_⟩
  · unfold of? at h
    split at h
    · cases h
      exact ⟨rfl, rfl⟩
    · cases h
  · rintro ⟨rfl, rfl⟩
    exact of?_self t

theorem exists_of? {seconds nanos : Nat} (hs : seconds < 86400) (hn : nanos < 2000000000) :
    ∃ t, of? seconds nanos = some t ∧ t.seconds = seconds ∧ t.nanos = nanos :=
  ⟨⟨seconds, nanos, hs, hn⟩, of?_eq_some_iff.2 ⟨rfl, rfl⟩, rfl, rfl⟩

theorem withHour?_spec (hn : n < 24) : ∃ t', t.withHour? n = some t' ∧ t'.hour = n ∧ t.SameBut .hour t' := by
  have hseconds := t.seconds_lt
  obtain ⟨t', ht', hs, hnanos⟩ := exists_of? (show n * 3600 + t.seconds % 3600 < 86400 by omega) t.nanos_lt
  refine ⟨t', (if_pos hn).trans ht', ?_, .ofSeconds rfl hnanos (fun h => absurd rfl h) (fun _ => ?_) fun _ => ?_⟩
  · unfold hour
    omega
  · unfold minute
    omega
  · unfold second
    omega

theorem withMinute?_spec (hn : n < 60) : ∃ t', t.withMinute? n = some t' ∧ t'.minute = n ∧ t.SameBut .minute t' := by
  have hseconds := t.seconds_lt
  obtain ⟨t', ht', hs, hnanos⟩ :=
    exists_of? (show t.seconds / 3600 * 3600 + n * 60 + t.seconds % 60 < 86400 by omega) t.nanos_lt
  refine ⟨t', (if_pos hn).trans ht', ?_, .ofSeconds rfl hnanos (fun _ => ?_) (fun h => absurd rfl h) fun _ => ?_⟩
  · unfold minute
    omega
  · unfold hour
    omega
  · unfold second
    omega

theorem withSecond?_spec (hn : n < 60) : ∃ t', t.withSecond? n = some t' ∧ t'.second = n ∧ t.SameBut .second t' := by
  have hseconds := t.seconds_lt
  obtain ⟨t', ht', hs, hnanos⟩ := exists_of? (show t.seconds / 60 * 60 + n < 86400 by omega) t.nanos_lt
  refine ⟨t', (if_pos hn).trans ht', ?_, .ofSeconds rfl hnanos (fun _ => ?_) (fun _ => ?_) fun h => absurd rfl h⟩
  · unfold second
    omega
  · unfold hour
    omega
  · unfold minute
    omega

/-- Other nanoseconds leave hour, minute and second alone. -/
theorem withNanos?_spec (hn : n < 2000000000) : ∃ t', t.withNanos? n = some t' ∧ t'.nanos = n ∧
    t'.hour = t.hour ∧ t'.minute = t.minute ∧ t'.second = t.second := by
  obtain ⟨t', ht', hs, hnanos⟩ := exists_of? t.seconds_lt hn
  unfold hour minute second
  exact ⟨t', ht', hnanos, congrArg (· / 3600) hs, congrArg (· / 60 % 60) hs, congrArg (· % 60) hs⟩

/-- For every number of its range there is a time that has it in the field and is the same elsewhere. -/
theorem withField?_spec (hunit : unit.isOfDay false = true) (hlo : unit.range.1 ≤ n) (hhi : (n : Int) ≤ unit.range.2) :
    ∃ t', t.withField? n unit = some t' ∧ t'.field unit = n ∧ t.SameBut unit t' := by
  cases unit with
  | nanosecond =>
    simp only [DateUnit.range] at hhi
    obtain ⟨t', ht', hnanos, hhour, hminute, hsecond⟩ := withNanos?_spec (t := t) (n := n) (by omega)
    refine ⟨t', ht', ?_, ?_⟩
    · show t'.nanos % nanosPerSecond = n
      unfold nanosPerSecond
      omega
    · exact ⟨by rintro ⟨⟩, fun _ => hhour, fun _ => hminute, fun _ => hsecond, fun h => absurd rfl h, fun h => absurd rfl h⟩
  | millisecond =>
    simp only [DateUnit.range] at hhi
    obtain ⟨t', ht', hnanos, hhour, hminute, hsecond⟩ :=
      withNanos?_spec (t := t) (n := n * 1000000 + t.nanos % 1000000) (by omega)
    have hdigits : t'.nanos % 1000000 = t.nanos % 1000000 := by omega
    refine ⟨t', ht', ?_, ?_⟩
    · show t'.nanos % nanosPerSecond / 1000000 = n
      unfold nanosPerSecond
      omega
    · exact ⟨by rintro ⟨⟩, fun _ => hhour, fun _ => hminute, fun _ => hsecond, fun _ h => absurd rfl h, fun _ => hdigits⟩
  | second =>
    simp only [DateUnit.range] at hhi
    exact withSecond?_spec (by omega)
  | minute =>
    simp only [DateUnit.range] at hhi
    exact withMinute?_spec (by omega)
  | hour =>
    simp only [DateUnit.range] at hhi
    exact withHour?_spec (by omega)
  | _ => cases hunit

/-- The number that a field has is one that it takes. -/
theorem field_bounds (hunit : unit.isOfDay false = true) (t : TimeOfDay) :
    unit.range.1 ≤ t.field unit ∧ (t.field unit : Int) ≤ unit.range.2 := by
  have hhour := t.hour_lt
  have hminute := t.minute_lt
  have hsecond := t.second_lt
  have hnanosecond := t.nanosecond_lt
  unfold nanosPerSecond at hnanosecond
  cases unit <;> simp only [DateUnit.range, field] <;> first | omega | cases hunit

theorem withField?_self (hunit : unit.isOfDay false = true) (hleap : t.nanos < nanosPerSecond) :
    t.withField? (t.field unit) unit = some t := by
  have hnanosecond : t.nanosecond = t.nanos := Nat.mod_eq_of_lt hleap
  cases unit with
  | nanosecond =>
    show of? t.seconds t.nanosecond = some t
    rw [hnanosecond, of?_self]
  | millisecond =>
    show of? t.seconds (t.nanosecond / 1000000 * 1000000 + t.nanos % 1000000) = some t
    rw [hnanosecond, Nat.div_add_mod', of?_self]
  | second => exact t.withSecond?_second
  | minute => exact t.withMinute?_minute
  | hour => exact t.withHour?_hour
  | _ => cases hunit

/-! ### All fields -/

/-- What a number does that the field takes. -/
theorem withField_of_takes (hunit : unit.isOfDay false = true) {n : Int} (h : unit.Takes v n) :
    ∃ t', t.withField? n.toNat unit = some t' ∧ t.withField v unit = .ok t' ∧ (t'.field unit : Int) = n ∧
      t.SameBut unit t' := by
  have hnonneg : 0 ≤ n := by
    have hlo := h.2.1
    cases unit <;> first | exact hlo | cases hunit
  have hnat : ((n.toNat : Nat) : Int) = n := Int.toNat_of_nonneg hnonneg
  obtain ⟨t', ht', hfield, hsame⟩ := withField?_spec (t := t) (n := n.toNat) hunit (hnat ▸ h.2.1) (hnat ▸ h.2.2)
  refine ⟨t', ht', ?_, by rw [hfield, hnat], hsame⟩
  rw [withField_eq hunit, fieldValue_eq_ok_iff.2 h]
  show Except.ok ((t.withField? n.toNat unit).getD t) = .ok t'
  rw [ht']
  rfl

/-- Setting a field of a time of day fails exactly for numbers that the field does not take.  For any other number there is a
time with the number in this field, and this is the result, not the old time in its place: the field shows the number, and
the hour, minute, second and digits of the second that it does not cover are as before.  Outside of leap seconds a time whose
field is set to what it is stays the same. -/
theorem withField_lawful (hunit : unit.isOfDay false = true) (t : TimeOfDay) (v : Float) :
    ((∃ cause, t.withField v unit = .error cause) ↔ ¬ ∃ n, unit.Takes v n) ∧
    (∀ n, unit.Takes v n → ∃ t', t.withField? n.toNat unit = some t' ∧ t.withField v unit = .ok t' ∧
      (t'.field unit : Int) = n ∧ t.SameBut unit t') ∧
    (t.nanos < nanosPerSecond → t.withField (Double.ofInt (t.field unit)) unit = .ok t) := by
  refine ⟨⟨?_, fun hnone => ?_⟩, fun n h => withField_of_takes hunit h, fun hleap => ?_⟩
  · rintro ⟨cause, hcause⟩ ⟨n, h⟩
    obtain ⟨t', -, hok, -⟩ := withField_of_takes (t := t) hunit h
    rw [hcause] at hok
    cases hok
  · rw [withField_eq hunit]
    cases hvalue : fieldValue unit unit.range.1 unit.range.2 v with
    | error cause => exact ⟨cause, rfl⟩
    | ok n => exact absurd ⟨n, fieldValue_eq_ok_iff.1 hvalue⟩ hnone
  · obtain ⟨hlo, hhi⟩ := t.field_bounds hunit
    have hsmall : ((t.field unit : Nat) : Int).natAbs ≤ 2 ^ 53 := by
      have hmost : unit.range.2 ≤ 999999999 := by cases unit <;> decide
      omega
    rw [withField_eq hunit, fieldValue_eq_ok_iff.2 ⟨Double.isInt_ofInt hsmall, hlo, hhi⟩]
    show Except.ok ((t.withField? (t.field unit : Int).toNat unit).getD t) = .ok t
    rw [Int.toNat_natCast, withField?_self hunit hleap]
    rfl

/-- Twenty past ten and thirty seconds and a fraction. -/
def tenTwenty : TimeOfDay := ⟨37230, 400000007, by decide, by decide⟩

theorem withField_lawful_minute : DateUnit.minute.isOfDay false = true ∧ tenTwenty.nanos < nanosPerSecond ∧
    (∃ t, tenTwenty.withField 5 .minute = .ok t ∧ t.field .minute = 5 ∧ t.hour = 10 ∧ t.second = 30 ∧ t.nanos = 400000007) ∧
    tenTwenty.withField (Double.ofInt (tenTwenty.field .millisecond)) .millisecond = .ok tenTwenty := by
  have hminute : DateUnit.minute.isOfDay false = true := rfl
  refine ⟨hminute, by decide, ?_, (withField_lawful rfl tenTwenty 5).2.2 (by decide)⟩
  obtain ⟨t, -, hok, hfield, hsame⟩ :=
    (withField_lawful hminute tenTwenty 5).2.1 5 ⟨by decide +kernel, by decide, by decide⟩
  exact ⟨t, hok, Int.ofNat_inj.1 hfield, hsame.hour (by decide), hsame.second (by decide),
    hsame.nanos (by decide) (by decide)⟩

end TimeOfDay

end Rowwise
