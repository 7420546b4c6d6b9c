import Rowwise.Function.Calendar
import Rowwise.Proofs.Calendar.Counting

/-!
# Rowwise.Proofs.Calendar.Milliseconds — instants as numbers of milliseconds

Every number of milliseconds from the first instant to the last is the number of one instant, which lies on the line of
nanoseconds where the number says (`Instant.ofMillis?_eq_some_iff`); the number of an instant is its position rounded down
(`Instant.millis_eq`).  All these numbers have at most 53 binary digits, so they are doubles.  Doubles beyond 64 bits are pulled to
the ends of that range, but they are out of the range of instants before and after (`Value.instantOfMillis?_eq`).  So nothing is
lost on the way there and back (`CalendarFunction.millis_lossless`).
-/

namespace Rowwise

namespace Instant

variable {t : Instant} {n : Int}

/-- Milliseconds are counted by rounding down, also before 1970. -/
theorem millis_eq (t : Instant) : t.millis = t.position / 1000000 := by
  unfold millis position nanosPerSecond
  omega

/-- The instant at a number of milliseconds is the one that lies there, outside of leap seconds. -/
theorem ofMillis?_eq_some_iff : ofMillis? n = some t ↔ t.position = n * 1000000 ∧ t.nanos < nanosPerSecond := by
  rw [ofMillis?, of?_eq_some_iff]
  unfold position nanosPerSecond
  omega

/-- There is one for each number of the range. -/
theorem isSome_ofMillis?_iff : (ofMillis? n).isSome = true ↔ first.millis ≤ n ∧ n ≤ last.millis := by
  have hfirst : first.millis = -8334601228800000 := by decide
  have hlast : last.millis = 8210266876799999 := by decide
  have hnanos : (n % 1000).toNat * 1000000 < 2 * nanosPerSecond := by
    unfold nanosPerSecond
    omega
  rw [hfirst, hlast, ofMillis?]
  by_cases h : firstSecond ≤ n / 1000 ∧ n / 1000 ≤ lastSecond ∧ (n % 1000).toNat * 1000000 < 2 * nanosPerSecond
  · refine iff_of_true (by rw [of?, dif_pos h]; rfl) ?_
    unfold firstSecond lastSecond at h
    omega
  · refine iff_of_false (by rw [of?, dif_neg h]; exact Bool.false_ne_true) fun hrange => h ⟨?_, ?_, hnanos⟩
    · unfold firstSecond
      omega
    · unfold lastSecond
      omega

theorem ofMillis?_eq_none (h : ¬ (first.millis ≤ n ∧ n ≤ last.millis)) : ofMillis? n = none := by
  rw [← Option.not_isSome_iff_eq_none, isSome_ofMillis?_iff]
  exact h

theorem millis_of_ofMillis? (h : ofMillis? n = some t) : t.millis = n := by
  rw [millis_eq, (ofMillis?_eq_some_iff.1 h).1, Int.mul_ediv_cancel _ (by decide)]

theorem millis_bounds (ht : t.nanos < nanosPerSecond) : first.millis ≤ t.millis ∧ t.millis ≤ last.millis := by
  obtain ⟨hfirst, hlast⟩ := position_bounds ht
  rw [millis_eq, millis_eq, millis_eq]
  exact ⟨Int.ediv_le_ediv (by decide) hfirst, Int.ediv_le_ediv (by decide) hlast⟩

/-- Numbers of milliseconds are doubles. -/
theorem isInt_ofInt_of_range (h : first.millis ≤ n ∧ n ≤ last.millis) : Double.IsInt (Double.ofInt n) n := by
  have hfirst : first.millis = -8334601228800000 := by decide
  have hlast : last.millis = 8210266876799999 := by decide
  exact Double.isInt_ofInt (by omega)

end Instant

variable {x : Float} {n : Int}

/-- The range of 64-bit integers, to which numbers are pulled, is wider than that of milliseconds. -/
theorem Value.instantOfMillis?_eq (hx : Double.toInt? x = some n) : instantOfMillis? x = Instant.ofMillis? n := by
  obtain ⟨p, hp, rfl⟩ := Option.map_eq_some_iff.1 hx
  have hfinite : Double.isFinite x = true := Double.isFinite_iff.2 (by rw [hp]; rfl)
  have hcount : Double.toInt64 x = Double.clamp Double.minInt64 Double.maxInt64 p.toInt := by
    rw [Double.toInt64, Double.saturate, hp]
  rw [instantOfMillis?, if_pos hfinite, hcount]
  by_cases hrange : Instant.first.millis ≤ p.toInt ∧ p.toInt ≤ Instant.last.millis
  · have hself : Double.clamp Double.minInt64 Double.maxInt64 p.toInt = p.toInt := by
      have hfirst : Double.minInt64 ≤ Instant.first.millis := by decide
      have hlast : Instant.last.millis ≤ Double.maxInt64 := by decide
      unfold Double.clamp
      omega
    rw [hself]
  · have hfirst : Double.minInt64 < Instant.first.millis := by decide
    have hlast : Instant.last.millis < Double.maxInt64 := by decide
    rw [Instant.ofMillis?_eq_none hrange, Instant.ofMillis?_eq_none]
    unfold Double.clamp
    omega

namespace CalendarFunction

theorem instantOfNumber_of_some {t : Instant} (hx : Double.toInt? x = some n) (ht : Instant.ofMillis? n = some t) :
    instantOfNumber x = .ok (.instant (some t)) := by
  rw [instantOfNumber, if_neg (Bool.eq_false_iff.1 (Double.isMissing_of_toInt? hx)), Value.instantOfMillis?_eq hx, ht]

theorem instantOfNumber_of_none (hx : Double.toInt? x = some n) (hnone : Instant.ofMillis? n = none) :
    instantOfNumber x = .error (.calendar .outOfRange) := by
  rw [instantOfNumber, if_neg (Bool.eq_false_iff.1 (Double.isMissing_of_toInt? hx)), Value.instantOfMillis?_eq hx, hnone]

/-- Instants and their numbers of milliseconds are converted without loss.  An instant outside of leap seconds comes back
rounded down to milliseconds.  A finite number, its fraction dropped, is the number of the instant that is made of it; the
conversion fails only if there is none, where the number is out of the range of all instants. -/
theorem millis_lossless (zone : Zone) :
    (∀ t : Instant, t.nanos < nanosPerSecond → ∃ v t', dateMillis.run zone [.instant (some t)] = .ok v ∧
      dateOfMillis.run zone [v] = .ok (.instant (some t')) ∧ t'.nanos < nanosPerSecond ∧
        t'.position = t.position / 1000000 * 1000000) ∧
    ∀ (v : Value) (x : Float) (n : Int), v.number? = some x → Double.toInt? x = some n →
      ((Instant.first.millis ≤ n ∧ n ≤ Instant.last.millis) →
        ∃ t y, dateOfMillis.run zone [v] = .ok (.instant (some t)) ∧
          dateMillis.run zone [.instant (some t)] = .ok (.integer y) ∧ Double.IsInt y n) ∧
      (¬ (Instant.first.millis ≤ n ∧ n ≤ Instant.last.millis) →
        dateOfMillis.run zone [v] = .error (.calendar .outOfRange)) := by
  constructor
  · intro t ht
    have hrange := Instant.millis_bounds ht
    have hcount := Instant.isInt_ofInt_of_range hrange
    obtain ⟨t', ht'⟩ := Option.isSome_iff_exists.1 (Instant.isSome_ofMillis?_iff.2 hrange)
    obtain ⟨hposition, hleap⟩ := Instant.ofMillis?_eq_some_iff.1 ht'
    refine ⟨.ofInt t.millis, t', rfl, ?_, hleap, ?_⟩
    · exact instantOfNumber_of_some hcount.2 ht'
    · rw [hposition, Instant.millis_eq]
  · intro v x n hv hx
    have hnumber : v.toNumber = x := by
      cases v <;> cases hv <;> rfl
    have hrun : dateOfMillis.run zone [v] = instantOfNumber x := by rw [← hnumber]; rfl
    rw [hrun]
    refine ⟨fun hrange => ?_, fun hrange => ?_⟩
    · obtain ⟨t, ht⟩ := Option.isSome_iff_exists.1 (Instant.isSome_ofMillis?_iff.2 hrange)
      refine ⟨t, Double.ofInt t.millis, instantOfNumber_of_some hx ht, rfl, ?_⟩
      rw [Instant.millis_of_ofMillis? ht]
      exact Instant.isInt_ofInt_of_range hrange
    · exact instantOfNumber_of_none hx (Instant.ofMillis?_eq_none hrange)

/-- A little after the last but one millisecond of 1969. -/
def beforeSeventy : Instant := ⟨-1, 998000001, by decide, by decide, by decide⟩

/-- It is two milliseconds before 1970, as is the number -2.75 without its fraction. -/
theorem millis_lossless_negative : (∃ v t', dateMillis.run .utc [.instant (some beforeSeventy)] = .ok v ∧
      dateOfMillis.run .utc [v] = .ok (.instant (some t')) ∧ t'.position = -2000000) ∧
    (∃ t y, dateOfMillis.run .utc [.double (-2.75)] = .ok (.instant (some t)) ∧
      dateMillis.run .utc [.instant (some t)] = .ok (.integer y) ∧ Double.IsInt y (-2)) := by
  obtain ⟨hback, hnumbers⟩ := millis_lossless .utc
  obtain ⟨v, t', hv, ht', -, hposition⟩ := hback beforeSeventy (by decide)
  exact ⟨⟨v, t', hv, ht', hposition⟩, (hnumbers (.double (-2.75)) (-2.75) (-2) rfl (by decide +kernel)).1 (by decide)⟩

end CalendarFunction

end Rowwise
