import Rowwise.Proofs.Calendar.Counting

/-!
# Rowwise.Proofs.Calendar.ClockSums — sums of times of day

A sum goes around the clock twice: the count of units is taken modulo the units of a day before it becomes nanoseconds, and the
clock is taken modulo a day after the nanoseconds have been added.  As each unit divides the day, the two are one remainder
(`TimeOfDay.add_eq`): the sum is addition modulo a day, and where it stays in the day the difference gives the count back
(`TimeOfDay.add_wraps`).

Counts are integers of 128 bits, and a count that is none of them is pulled to the nearest, which stands at another place of the
clock (`TimeOfDay.add_far`).
-/

namespace Rowwise

namespace TimeOfDay

variable {t : TimeOfDay} {unit : DateUnit} {length : Nat} {x : Float} {n : Int}

/-! ### Counts of units -/

/-- The count of units that a sum takes for `n`. -/
def counted (n : Int) : Int := Double.clamp (-maxCount - 1) maxCount n

theorem counted_self (hlo : -2 ^ 127 ≤ n) (hhi : n < 2 ^ 127) : counted n = n := by
  have hmax : maxCount = 2 ^ 127 - 1 := rfl
  unfold counted Double.clamp
  omega

/-- A unit of fixed length is some part of a day. -/
theorem length_dvd_day (hunit : unit.nanos? = some length) : 0 < length ∧ nanosPerDay / length * length = nanosPerDay := by
  cases unit <;> cases hunit <;> decide

/-- Whole turns of the clock can be left out before the units become nanoseconds. -/
theorem steps_mul (hunit : unit.nanos? = some length) (n : Int) :
    n % (nanosPerDay / length : Nat) * length = n * length % nanosPerDay := by
  obtain ⟨hpos, hday⟩ := length_dvd_day hunit
  have hturn : (nanosPerDay : Int) = length * (nanosPerDay / length : Nat) := by
    rw [Int.mul_comm, ← Int.natCast_mul, hday]
  rw [hturn, Int.mul_comm n, Int.mul_emod_mul_of_pos _ _ (by omega), Int.mul_comm]

/-- A count that does not lead around the clock is small. -/
theorem natAbs_le_of_mul (hpos : 0 < length) (hn : (n * length).natAbs < nanosPerDay) : n.natAbs < nanosPerDay := by
  rw [Int.natAbs_mul, Int.natAbs_natCast] at hn
  exact lt_of_le_of_lt (Nat.le_mul_of_pos_right _ hpos) hn

/-! ### Sums -/

theorem totalNanos_lt (ht : t.nanos < nanosPerSecond) : t.totalNanos < nanosPerDay := by
  have hseconds := t.seconds_lt
  unfold totalNanos
  unfold nanosPerSecond nanosPerDay at *
  omega

/-- A move by nanoseconds leads to the place of the clock that is so far away. -/
theorem addNanos_totalNanos (ht : t.nanos < nanosPerSecond) (n : Int) :
    ((t.addNanos n).1.totalNanos : Int) = (t.totalNanos + n) % nanosPerDay := by
  obtain ⟨htotal, hleap⟩ := addNanos_total ht n
  have hless := totalNanos_lt hleap
  rw [← htotal, Int.add_comm, Int.add_mul_emod_self_right, Int.emod_eq_of_lt (by omega) (by omega)]

/-- The sum is an addition of nanoseconds modulo a day. -/
theorem add_eq (ht : t.nanos < nanosPerSecond) (hunit : unit.nanos? = some length) (hx : Double.toInt? x = some n) :
    ∃ t', t.add x unit = some t' ∧ t'.nanos < nanosPerSecond ∧
      (t'.totalNanos : Int) = (t.totalNanos + counted n * length) % nanosPerDay := by
  have hlength : unitNanos unit = length := by rw [unitNanos, hunit, Option.getD_some]
  have hsum : t.add x unit = some (t.addNanos (counted n * length % nanosPerDay)).1 := by
    rw [add, if_neg (Bool.eq_false_iff.1 (Double.isMissing_of_toInt? hx)), hx, hlength]
    simp only
    rw [← steps_mul hunit]
    rfl
  refine ⟨_, hsum, (addNanos_total ht _).2, ?_⟩
  rw [addNanos_totalNanos ht, Int.add_emod_emod]

/-- Sums of times of day go around the clock, for every count of units of fixed length.  The count is the one that was given
unless it has more than 127 binary digits, and whole days lead nowhere in any case.  A sum that stays in the day is undone by the
difference. -/
theorem add_wraps (ht : t.nanos < nanosPerSecond) (hunit : unit.nanos? = some length) (hx : Double.toInt? x = some n) :
    ∃ t', t.add x unit = some t' ∧ t'.nanos < nanosPerSecond ∧
      (t'.totalNanos : Int) = (t.totalNanos + counted n * length) % nanosPerDay ∧
      (unit = .day ∨ -2 ^ 127 ≤ n ∧ n < 2 ^ 127 → (t'.totalNanos : Int) = (t.totalNanos + n * length) % nanosPerDay) ∧
      (0 ≤ t.totalNanos + n * length → t.totalNanos + n * length < nanosPerDay → t.unitsUntil t' unit = n) := by
  obtain ⟨t', hsum, hleap, htotal⟩ := add_eq ht hunit hx
  refine ⟨t', hsum, hleap, htotal, ?_, fun hlo hhi => ?_⟩
  · rintro (rfl | ⟨hlo, hhi⟩)
    · cases hunit
      rw [htotal]
      exact (Int.add_mul_emod_self_right ..).trans (Int.add_mul_emod_self_right ..).symm
    · rw [htotal, counted_self hlo hhi]
  · obtain ⟨hpos, -⟩ := length_dvd_day hunit
    have hstart := totalNanos_lt ht
    have hsmall : n.natAbs < 86400000000000 := natAbs_le_of_mul hpos (by omega)
    rw [counted_self (by omega) (by omega), Int.emod_eq_of_lt hlo hhi] at htotal
    have huntil : t.nanosUntil t' = n * length := by
      rw [nanosUntil_eq ht hleap, htotal]
      omega
    rw [unitsUntil, unitNanos, hunit, Option.getD_some, huntil, Int.mul_tdiv_cancel _ (by omega)]

/-- A quarter of a second past three in the afternoon. -/
def pastThree : TimeOfDay := ⟨54000, 250000000, by decide, by decide⟩

/-- Two hours and a half before it are two hours before it. -/
theorem add_wraps_hours : ∃ t', pastThree.add (-2.5) .hour = some t' ∧
    (t'.totalNanos : Int) = (pastThree.totalNanos + -2 * 3600000000000) % nanosPerDay ∧ pastThree.unitsUntil t' .hour = -2 := by
  have hcount : Double.toInt? (-2.5) = some (-2) := by decide +kernel
  obtain ⟨t', hsum, -, -, htotal, huntil⟩ := add_wraps (t := pastThree) (show pastThree.nanos < nanosPerSecond by decide)
    (show DateUnit.hour.nanos? = some 3600000000000 from rfl) hcount
  exact ⟨t', hsum, htotal (.inr (by decide)), huntil (by decide) (by decide)⟩

/-- So many hours after midnight it is eight in the morning, but the sum stops an hour before it: the number of hours is
pulled to the greatest count, which is one less. -/
theorem add_far : Double.toInt? (Double.ofFields false 1150 0) = some (2 ^ 127) ∧
    (midnight.totalNanos + 2 ^ 127 * 3600000000000 : Int) % nanosPerDay = 8 * 3600000000000 ∧
    (midnight.add (Double.ofFields false 1150 0) .hour).map totalNanos = some (7 * 3600000000000) :=
  ⟨by decide +kernel, by decide, by decide +kernel⟩

end TimeOfDay

end Rowwise
