import Rowwise.Calendar.Instant
import Rowwise.Proofs.Calendar.Days

/-!
# Rowwise.Proofs.Calendar.Walls — dates and times against seconds

A time of day is its hour, minute and second and its nanoseconds (`TimeOfDay.seconds_eq`).  A date and time is told by the second
that it shows and by its nanoseconds (`Wall.eq_iff`), an instant by its second and its nanoseconds.  So clocks show a date and time exactly at the seconds that their offset moves to the one shown
(`Instant.wall_eq_iff`).
-/

namespace Rowwise

namespace TimeOfDay

theorem eq_iff {a b : TimeOfDay} : a = b ↔ a.seconds = b.seconds ∧ a.nanos = b.nanos := by
  refine ⟨fun h => h ▸ ⟨rfl, rfl⟩, fun h => ?_⟩
  cases a
  cases b
  simpa using h

theorem of?_self (t : TimeOfDay) : of? t.seconds t.nanos = some t := dif_pos ⟨t.seconds_lt, t.nanos_lt⟩

theorem seconds_eq (t : TimeOfDay) : t.hour * 3600 + t.minute * 60 + t.second = t.seconds := by
  unfold hour minute second
  omega

theorem hour_lt (t : TimeOfDay) : t.hour < 24 := by
  have := t.seconds_lt
  unfold hour
  omega

theorem minute_lt (t : TimeOfDay) : t.minute < 60 := Nat.mod_lt _ (by decide)

theorem second_lt (t : TimeOfDay) : t.second < 60 := Nat.mod_lt _ (by decide)

theorem nanosecond_lt (t : TimeOfDay) : t.nanosecond < nanosPerSecond := Nat.mod_lt _ (by decide)

end TimeOfDay

namespace Wall

variable {a b w : Wall}

theorem eq_iff : a = b ↔ a.second = b.second ∧ a.time.nanos = b.time.nanos := by
  refine ⟨fun h => h ▸ ⟨rfl, rfl⟩, fun ⟨hsecond, hnanos⟩ => ?_⟩
  have ha := a.time.seconds_lt
  have hb := b.time.seconds_lt
  unfold second at hsecond
  obtain ⟨⟨day⟩, time⟩ := a
  obtain ⟨⟨day'⟩, time'⟩ := b
  simp only at hsecond hnanos ha hb
  have htime : time = time' := TimeOfDay.eq_iff.2 ⟨by omega, hnanos⟩
  have hday : day = day' := by omega
  rw [htime, hday]

/-- The date is in range if the second is. -/
theorem inRange_iff : w.inRange = true ↔ firstSecond ≤ w.second ∧ w.second ≤ lastSecond := by
  have := w.time.seconds_lt
  unfold inRange second firstSecond lastSecond
  rw [Date.inRange_iff]
  omega

end Wall

namespace Instant

variable {t : Instant} {o : Int}

theorem second_wall (t : Instant) (o : Int) : (t.wall o).second = t.seconds + o := by
  show (t.seconds + o) / 86400 * 86400 + ((t.seconds + o) % 86400).toNat = _
  omega

theorem of?_eq_some_iff {seconds : Int} {nanos : Nat} : of? seconds nanos = some t ↔ t.seconds = seconds ∧ t.nanos = nanos := by
  refine ⟨fun h => ?_, ?_⟩
  · unfold of? at h
    split at h
    · cases h
      exact ⟨rfl, rfl⟩
    · cases h
  · rintro ⟨rfl, rfl⟩
    exact dif_pos ⟨t.first_le, t.le_last, t.nanos_lt⟩

theorem wall_eq_iff {w : Wall} : t.wall o = w ↔ t.seconds + o = w.second ∧ t.nanos = w.time.nanos := by
  rw [Wall.eq_iff, second_wall]
  rfl

theorem inRange_wall (t : Instant) : (t.wall 0).date.inRange = true := by
  rw [← Wall.inRange, Wall.inRange_iff, second_wall, Int.add_zero]
  exact ⟨t.first_le, t.le_last⟩

end Instant

end Rowwise
