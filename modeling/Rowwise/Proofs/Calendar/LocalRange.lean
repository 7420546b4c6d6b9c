import Rowwise.Proofs.Calendar.LocalTimes
import Rowwise.Proofs.Calendar.Setting
import Rowwise.Proofs.Evaluation.Contract
import Rowwise.Proofs.Evaluation.Functions

/-!
# Rowwise.Proofs.Calendar.LocalRange — where local times end

In universal time the date of every instant is in range.  Clocks ahead of it show dates that programs cannot hold at the last
instants, and clocks behind it at the first (`Zone.inRange_wall_iff`).  Differences and sums on the calendar and all settings of
fields start from the local time and break off where its date is out of range (`Instant.unitsUntil_breaks_iff`,
`Instant.add_breaks_iff`, `Instant.withField_breaks_iff`); nothing but the count of units is checked before.

So the three functions answer with a value or a fault unless they come to such a local time (`CalendarFunction.answers_iff`),
which happens only within a day of the ends (`CalendarFunction.not_leavesRange`).
-/

namespace Rowwise

theorem bind_eq_error_iff {ε α β : Type} {x : Except ε α} {f : α → Except ε β} {e : ε} :
    (x >>= f) = .error e ↔ x = .error e ∨ ∃ a, x = .ok a ∧ f a = .error e := by
  cases x <;> simp [bind, Except.bind]

/-! ### Local times in range -/

namespace Zone

variable {z : Zone} {t : Instant}

theorem inRange_wall_iff : (z.wall t).inRange = true ↔
    firstSecond ≤ z.shownAt t.seconds ∧ z.shownAt t.seconds ≤ lastSecond := by
  rw [Wall.inRange_iff, wall, Instant.second_wall]
  rfl

/-- A day inside the range the clocks of all zones show a date that is in range. -/
theorem WellFormed.inRange_wall (hz : z.WellFormed) (hlo : firstSecond + 86400 ≤ t.seconds)
    (hhi : t.seconds ≤ lastSecond - 86400) : (z.wall t).inRange = true := by
  have hnear := hz.shownAt_near t.seconds
  exact inRange_wall_iff.2 ⟨by omega, by omega⟩

theorem wellFormed_of_named {name : List Char} (h : named? name = some z) : z.WellFormed :=
  wellFormed_of_mem (List.mem_of_find?_eq_some h)

end Zone

/-! ### Calculations that break off -/

/-- A sum of `n` units starts from the local time.  Greater counts are out of range before it is looked at. -/
def DateUnit.StartsLocal (n : Int) : DateUnit → Prop
  | day => n.natAbs < 2 ^ 63
  | week => (n * 7).natAbs < 2 ^ 63
  | month => n.natAbs < 2 ^ 32
  | year => (n * 12).natAbs < 2 ^ 32
  | _ => False

variable {unit : DateUnit} {lo hi n : Int} {v : Float} {cause : CalendarCause}

/-- A field that does not take the number says so. -/
theorem fieldValue_eq_error (h : fieldValue unit lo hi v = .error cause) : cause = .badField unit lo hi v := by
  unfold fieldValue at h
  split at h
  · exact (Except.error.inj h).symm
  · split at h
    · cases h
    · exact (Except.error.inj h).symm

namespace Instant

variable {a b t : Instant} {z : Zone} {w : Wall}

theorem orOutOfRange_ne (r : Option Instant) : orOutOfRange r ≠ .error .noLocalTime := by
  cases r <;> nofun

theorem localTime_eq_error_iff : t.localTime z = .error cause ↔ (z.wall t).inRange = false ∧ cause = .noLocalTime := by
  unfold localTime
  cases (z.wall t).inRange <;> simp [eq_comm]

theorem countLocal_breaks_iff {count : Wall → Wall → Int} : a.countLocal b z count = .error .noLocalTime ↔
    ¬ ((z.wall a).inRange = true ∧ (z.wall b).inRange = true) := by
  unfold countLocal localTime
  cases (z.wall a).inRange <;> cases (z.wall b).inRange <;> simp [bind, Except.bind, pure, Except.pure]

/-- Differences in units of fixed length below a day have no need of local times. -/
theorem unitsUntil_breaks_iff : a.unitsUntil b unit z = .error .noLocalTime ↔
    unit.isOfDay false = false ∧ ¬ ((z.wall a).inRange = true ∧ (z.wall b).inRange = true) := by
  cases unit with
  | day | week | month | year => exact countLocal_breaks_iff.trans (and_iff_right rfl).symm
  | nanosecond =>
    refine iff_of_false ?_ nofun
    simp only [unitsUntil]
    split <;> nofun
  | millisecond | second | minute | hour => exact iff_of_false nofun nofun

theorem mapDate_breaks_iff {f : Date → Option Date} :
    t.mapDate z f = .error .noLocalTime ↔ (z.wall t).inRange = false := by
  rw [mapDate, bind_eq_error_iff, localTime_eq_error_iff, and_iff_left rfl]
  refine or_iff_left ?_
  rintro ⟨w, -, h⟩
  exact orOutOfRange_ne _ h

theorem moveDate_breaks_iff {f : Date → Int → Option Date} {limit : Nat} :
    t.moveDate z limit n f = .error .noLocalTime ↔ n.natAbs < limit ∧ (z.wall t).inRange = false := by
  unfold moveDate
  split
  · rename_i h
    rw [mapDate_breaks_iff, and_iff_right h]
  · rename_i h
    exact iff_of_false nofun fun hless => h hless.1

theorem addUnits_breaks_iff : t.addUnits n unit z = .error .noLocalTime ↔
    unit.StartsLocal n ∧ (z.wall t).inRange = false := by
  cases unit with
  | nanosecond | millisecond | second | minute | hour => exact iff_of_false (orOutOfRange_ne _) And.left
  | day | week | month | year => exact moveDate_breaks_iff

theorem add_breaks_iff {x : Float} : t.add x unit z = .error .noLocalTime ↔
    ∃ n, Double.toInt? x = some n ∧ n.natAbs < 2 ^ 63 ∧ unit.StartsLocal n ∧ (z.wall t).inRange = false := by
  cases hx : Double.toInt? x with
  | none =>
    refine iff_of_false ?_ (by simp)
    rw [add, hx]
    split <;> simp
  | some n =>
    have hstep : (t.addUnits n unit z).map some = .error .noLocalTime ↔ t.addUnits n unit z = .error .noLocalTime := by
      cases t.addUnits n unit z <;> simp [Except.map]
    rw [add, if_neg (Bool.eq_false_iff.1 (Double.isMissing_of_toInt? hx)), hx]
    simp only [Option.some_inj, exists_eq_left']
    by_cases hn : n.natAbs < twoTo 63
    · rw [if_pos hn, hstep, addUnits_breaks_iff]
      exact (and_iff_right hn).symm
    · rw [if_neg hn]
      exact iff_of_false (by simp) fun h => hn h.1

/-- With a local time there is no reason to break off. -/
theorem wallWith_ne (w : Wall) (v : Float) (unit : DateUnit) : wallWith w v unit ≠ .error .noLocalTime := by
  intro h
  have hvalue : ∀ {hi : Int}, fieldValue unit unit.range.1 hi v ≠ .error .noLocalTime :=
    fun h => CalendarCause.noConfusion (fieldValue_eq_error h)
  cases unit with
  | week =>
    rw [wallWith, bind_eq_error_iff] at h
    obtain h | ⟨n, -, h⟩ := h
    · exact hvalue h
    · split at h <;> cases h
  | _ =>
    rw [wallWith, bind_eq_error_iff] at h
    obtain h | ⟨n, -, h⟩ := h
    · exact hvalue h
    · cases h

/-- Fields of the clock and of the calendar alike are set in the local time, and whether the number fits is asked after it. -/
theorem withField_breaks_iff : t.withField v unit z = .error .noLocalTime ↔ (z.wall t).inRange = false := by
  rw [withField, bind_eq_error_iff, localTime_eq_error_iff, and_iff_left rfl]
  refine or_iff_left ?_
  rintro ⟨w, -, h⟩
  rw [bind_eq_error_iff] at h
  obtain h | ⟨w', -, h⟩ := h
  · exact wallWith_ne w v unit h
  · exact orOutOfRange_ne _ h

end Instant

/-! ### Functions that break off -/

theorem onCalendar_bind_eq_error_iff {α : Type} {r : Except CalendarCause α} {f : α → Value} :
    (onCalendar r >>= fun a => .ok (f a)) = .error (.calendar cause) ↔ r = .error cause := by
  cases r <;> simp [onCalendar, bind, Except.bind]

theorem readUnit_ne {s : String} : readUnit s ≠ .error (.calendar cause) := by
  unfold readUnit
  split <;> nofun

theorem zoneAt_ne {zone : Zone} {args : List Value} {i : Nat} : zoneAt zone args i ≠ .error (.calendar cause) := by
  unfold zoneAt
  split
  · nofun
  · unfold readZone
    split <;> nofun
  · nofun

/-- A zone that a call names or that holds by default is one with a table. -/
theorem wellFormed_of_zoneAt {zone z : Zone} {args : List Value} {i : Nat} (hzone : zone.WellFormed)
    (h : zoneAt zone args i = .ok (some z)) : z.WellFormed := by
  unfold zoneAt at h
  split at h
  · cases h
    exact hzone
  · rename_i s _
    unfold readZone at h
    cases hnamed : Zone.named? (Text.trim s.toList) with
    | none =>
      rw [hnamed] at h
      cases h
    | some z' =>
      rw [hnamed] at h
      cases h
      exact Zone.wellFormed_of_named hnamed
  · cases h

namespace CalendarFunction

variable {f : CalendarFunction} {zone : Zone} {args : List Value}

/-- With a unit and with a zone that may be missing, a function breaks off if it does so with the unit in the zone. -/
theorem inZone_eq_error_iff {s : String} {i : Nat} {g : DateUnit → Zone → Except ValueCause Value} {P : DateUnit → Zone → Prop}
    (hg : ∀ unit z, g unit z = .error (.calendar cause) ↔ P unit z) :
    (do
      let unit ← readUnit s
      match ← zoneAt zone args i with
      | some z => g unit z
      | none => return .missing f.result) = .error (.calendar cause) ↔
    ∃ unit, readUnit s = .ok unit ∧ ∃ z, zoneAt zone args i = .ok (some z) ∧ P unit z := by
  rw [bind_eq_error_iff, or_iff_right readUnit_ne]
  refine exists_congr fun unit => and_congr_right fun _ => ?_
  rw [bind_eq_error_iff, or_iff_right zoneAt_ne]
  constructor
  · rintro ⟨z, hz, h⟩
    cases z with
    | none => cases h
    | some z => exact ⟨z, hz, (hg unit z).1 h⟩
  · rintro ⟨z, hz, h⟩
    exact ⟨some z, hz, (hg unit z).2 h⟩

/-- The call comes to a local time out of the range of dates: all that it reads is there, the unit is one that is counted on the
calendar, and for sums the count is not out of range by itself. -/
def LeavesRange (zone : Zone) (f : CalendarFunction) (args : List Value) : Prop :=
  match f, args with
  | dateDiff, .instant (some a) :: .instant (some b) :: .text (some s) :: _ =>
    ∃ unit, readUnit s = .ok unit ∧ ∃ z, zoneAt zone args 3 = .ok (some z) ∧
      unit.isOfDay false = false ∧ ¬ ((z.wall a).inRange = true ∧ (z.wall b).inRange = true)
  | dateAdd, .instant (some a) :: amount :: .text (some s) :: _ =>
    ∃ unit, readUnit s = .ok unit ∧ ∃ z, zoneAt zone args 3 = .ok (some z) ∧
      ∃ n, Double.toInt? amount.toNumber = some n ∧ n.natAbs < 2 ^ 63 ∧ unit.StartsLocal n ∧ (z.wall a).inRange = false
  | dateSet, .instant (some a) :: field :: .text (some s) :: _ =>
    field.isMissing = false ∧ ∃ unit, readUnit s = .ok unit ∧ ∃ z, zoneAt zone args 3 = .ok (some z) ∧
      (z.wall a).inRange = false
  | _, _ => False

/-- The answer is a value of the type that the function's results have, or a fault for the value of an argument with which the
program goes on. -/
def Answers (f : CalendarFunction) : Except ValueCause Value → Prop
  | .ok v => v.type = f.result
  | .error cause =>
    (Fault.ofCause f.signature.name cause).kind = .value ∧ (Fault.ofCause f.signature.name cause).breaksOff = false

theorem answers_of_typed {r : Except ValueCause Value} (h : f.Typed r) :
    f.Answers r ↔ r ≠ .error (.calendar .noLocalTime) := by
  cases r with
  | ok v => exact iff_of_true h nofun
  | error cause =>
    have hkind := Fault.kind_ofCause h f.signature.name
    rw [Answers, and_iff_right hkind]
    cases cause with
    | calendar cause => cases cause <;> simp [Fault.ofCause, Fault.breaksOff, ValueCause.breaksOff]
    | lostArgument => exact absurd rfl h
    | _ => exact iff_of_true rfl nofun

section Present

variable (zone : Zone) (rest : List Value)

theorem dateDiff_breaks_iff (a b : Option Instant) (s : Option String) :
    dateDiff.run zone (.instant a :: .instant b :: .text s :: rest) = .error (.calendar .noLocalTime) ↔
      LeavesRange zone dateDiff (.instant a :: .instant b :: .text s :: rest) := by
  rcases a with _ | a
  · exact iff_of_false nofun id
  rcases b with _ | b
  · exact iff_of_false nofun id
  rcases s with _ | s
  · exact iff_of_false nofun id
  exact inZone_eq_error_iff fun unit z => onCalendar_bind_eq_error_iff.trans Instant.unitsUntil_breaks_iff

theorem dateAdd_breaks_iff (a : Option Instant) (amount : Value) (s : Option String) :
    dateAdd.run zone (.instant a :: amount :: .text s :: rest) = .error (.calendar .noLocalTime) ↔
      LeavesRange zone dateAdd (.instant a :: amount :: .text s :: rest) := by
  rcases a with _ | a
  · exact iff_of_false nofun id
  rcases s with _ | s
  · exact iff_of_false nofun id
  exact inZone_eq_error_iff fun unit z => onCalendar_bind_eq_error_iff.trans Instant.add_breaks_iff

theorem dateSet_breaks_iff (a : Option Instant) (field : Value) (s : Option String) :
    dateSet.run zone (.instant a :: field :: .text s :: rest) = .error (.calendar .noLocalTime) ↔
      LeavesRange zone dateSet (.instant a :: field :: .text s :: rest) := by
  rcases a with _ | a
  · exact iff_of_false nofun id
  rcases s with _ | s
  · exact iff_of_false nofun id
  show (if field.isMissing = true then _ else _) = _ ↔ field.isMissing = false ∧ _
  by_cases hfield : field.isMissing = true
  · rw [if_pos hfield]
    exact iff_of_false nofun fun h => Bool.false_ne_true (h.1.symm.trans hfield)
  rw [if_neg hfield, and_iff_right (Bool.eq_false_iff.2 hfield)]
  exact inZone_eq_error_iff fun unit z => onCalendar_bind_eq_error_iff.trans Instant.withField_breaks_iff

end Present

theorem breaks_iff (hf : f = dateDiff ∨ f = dateAdd ∨ f = dateSet) (harity : f.signature.arity.accepts args.length = true)
    (hparams : badParam? 1 (Builtin.calendar f).params (args.map Value.type) = none) :
    f.run zone args = .error (.calendar .noLocalTime) ↔ LeavesRange zone f args := by
  rcases hf with rfl | rfl | rfl
  · match args, harity with
    | a :: b :: c :: rest, _ =>
      obtain ⟨⟨a, rfl⟩, hrest⟩ := instant_accepted hparams
      obtain ⟨⟨b, rfl⟩, hlast⟩ := instant_accepted hrest
      obtain ⟨s, rfl⟩ := texts_accepted hlast List.mem_cons_self
      exact dateDiff_breaks_iff zone rest a b s
  · match args, harity with
    | a :: amount :: c :: rest, _ =>
      obtain ⟨⟨a, rfl⟩, hrest⟩ := instant_accepted hparams
      obtain ⟨s, rfl⟩ := texts_accepted (badParam?_cons.1 hrest).2 List.mem_cons_self
      exact dateAdd_breaks_iff zone rest a amount s
  · match args, harity with
    | a :: field :: c :: rest, _ =>
      obtain ⟨⟨a, rfl⟩, hrest⟩ := instant_accepted hparams
      obtain ⟨s, rfl⟩ := texts_accepted (badParam?_cons.1 hrest).2 List.mem_cons_self
      exact dateSet_breaks_iff zone rest a field s

/-- The instants of a call are all a day away from the ends of the range. -/
def Inside (args : List Value) : Prop :=
  ∀ t : Instant, .instant (some t) ∈ args → firstSecond + 86400 ≤ t.seconds ∧ t.seconds ≤ lastSecond - 86400

/-- A day away from the ends no zone leads out of the range. -/
theorem not_leavesRange (hzone : zone.WellFormed) (hargs : Inside args) : ¬ LeavesRange zone f args := by
  have hrange : ∀ {z : Zone} {i : Nat} {t : Instant}, zoneAt zone args i = .ok (some z) → .instant (some t) ∈ args →
      (z.wall t).inRange = true := fun hz ht =>
    (wellFormed_of_zoneAt hzone hz).inRange_wall (hargs _ ht).1 (hargs _ ht).2
  unfold LeavesRange
  split
  · rintro ⟨unit, -, z, hz, -, hwall⟩
    exact hwall ⟨hrange hz List.mem_cons_self, hrange hz (List.mem_cons_of_mem _ List.mem_cons_self)⟩
  · rintro ⟨unit, -, z, hz, n, -, -, -, hwall⟩
    exact Bool.false_ne_true (hwall.symm.trans (hrange hz List.mem_cons_self))
  · rintro ⟨-, unit, -, z, hz, hwall⟩
    exact Bool.false_ne_true (hwall.symm.trans (hrange hz List.mem_cons_self))
  · exact id

/-- Differences, sums and settings of fields answer every call that they accept with a value or a fault for an argument, except
for the calls that come to a local time out of the range of dates: there the program breaks off.  No call whose instants lie a day
inside the range is one of these, whatever the zone, the unit and the number. -/
theorem answers_iff (hf : f = dateDiff ∨ f = dateAdd ∨ f = dateSet) (harity : f.signature.arity.accepts args.length = true)
    (hparams : badParam? 1 (Builtin.calendar f).params (args.map Value.type) = none) :
    (f.Answers (f.run zone args) ↔ ¬ LeavesRange zone f args) ∧
      (zone.WellFormed → Inside args → f.Answers (f.run zone args)) := by
  have hanswers : f.Answers (f.run zone args) ↔ ¬ LeavesRange zone f args :=
    (answers_of_typed (run_typed zone harity hparams)).trans (not_congr (breaks_iff hf harity hparams))
  exact ⟨hanswers, fun hzone hargs => hanswers.2 (not_leavesRange hzone hargs)⟩

/-- A day before the last instant. -/
def dayBeforeLast : Instant := ⟨8210266790399, 999999999, by decide, by decide, Instant.last.nanos_lt⟩

/-- In Tokyo it can still be set to ten o'clock. -/
theorem answers_iff_day : dateSet.Answers
    (dateSet.run .utc [.instant (some dayBeforeLast), .integer 10, .text (some "hour"), .text (some "Asia/Tokyo")]) := by
  have hutc : Zone.utc.WellFormed := Zone.wellFormed_of_mem (by decide +kernel)
  have hargs : Inside [.instant (some dayBeforeLast), .integer 10, .text (some "hour"), .text (some "Asia/Tokyo")] := by
    intro t ht
    have hsame : t = dayBeforeLast := by simpa using ht
    rw [hsame]
    decide
  exact (answers_iff (.inr (.inr rfl)) (by decide) (by decide)).2 hutc hargs

/-- Sums of infinitely many days end at the last instant.  Clocks in Tokyo show a date out of range there: differences in days,
sums of a month and settings of the hour break off, which is no answer of any function. -/
theorem breaks_last :
    dateAdd.run .utc [.instant (some .first), .double (Double.infinity false), .text (some "day")] =
        .ok (.instant (some .last)) ∧
      dateDiff.run .utc [.instant (some .last), .instant (some .last), .text (some "day"), .text (some "Asia/Tokyo")] =
        .error (.calendar .noLocalTime) ∧
      dateAdd.run .utc [.instant (some .last), .integer (-1), .text (some "month"), .text (some "Asia/Tokyo")] =
        .error (.calendar .noLocalTime) ∧
      dateSet.run .utc [.instant (some .last), .integer 5, .text (some "hour"), .text (some "Asia/Tokyo")] =
        .error (.calendar .noLocalTime) ∧
      ∀ f : CalendarFunction, ¬ f.Answers (.error (.calendar .noLocalTime)) :=
  ⟨by decide +kernel, by decide +kernel, by decide +kernel, by decide +kernel, fun _ h => Bool.true_eq_false.mp h.2⟩

end CalendarFunction

end Rowwise
