import Mathlib.Tactic.IntervalCases
import Rowwise.Calendar.Reading
import Rowwise.Proofs.Numbers.Digits

/-!
# Rowwise.Proofs.Calendar.Scanning — the pieces of dates and times are read back

A number written with all of its digits is read back in front of any text (`Reading.number_padded`), a fraction and a number
without a limit in front of a text that does not go on with a digit (`EndsNumber`).  Offsets are written in minutes, so what is
read back is the offset rounded to minutes (`Reading.offset_offsetText`).
-/

namespace Rowwise

/-- An offset as it is written: rounded to minutes, halves away from zero. -/
def Wall.roundedOffset (offset : Int) : Int :=
  if offset < 0 then -((offset.natAbs + 30) / 60 * 60 : Nat) else ((offset.natAbs + 30) / 60 * 60 : Nat)

namespace Reading

open Text

/-- The text does not go on with a digit. -/
def EndsNumber (rest : List Char) : Prop := ∀ c ∈ rest.head?, c.isDigit = false

theorem dropWhile_of_head {p : Char → Bool} {cs : List Char} (h : ∀ c ∈ cs.head?, p c = false) : cs.dropWhile p = cs := by
  cases cs with
  | nil => rfl
  | cons c cs => rw [List.dropWhile_cons_of_neg (by simp [h c rfl])]

/-! ### Numbers -/

section Number

variable {ds rest : List Char} (hds : ∀ c ∈ ds, c.isDigit = true)

include hds

theorem takeWhile_digits (hrest : EndsNumber rest) : (ds ++ rest).takeWhile Char.isDigit = ds := by
  have hnone : rest.takeWhile Char.isDigit = [] := by
    cases rest with
    | nil => rfl
    | cons c rest => simp [hrest c rfl]
  rw [List.takeWhile_append_of_pos hds, hnone, List.append_nil]

theorem leadingDigits_unlimited (hrest : EndsNumber rest) : leadingDigits none (ds ++ rest) = ds :=
  takeWhile_digits hds hrest

theorem leadingDigits_exact (rest : List Char) : leadingDigits (some ds.length) (ds ++ rest) = ds := by
  rw [leadingDigits, List.take_left]
  have hall : EndsNumber [] := by simp [EndsNumber]
  simpa using takeWhile_digits hds hall

/-- Fewer digits than the limit, if no more follow. -/
theorem leadingDigits_within {limit : Nat} (hlength : ds.length ≤ limit) (hrest : EndsNumber rest) :
    leadingDigits (some limit) (ds ++ rest) = ds := by
  have htaken : EndsNumber (rest.take (limit - ds.length)) := by
    intro c hc
    cases rest with
    | nil => simp at hc
    | cons d rest =>
      cases hmore : limit - ds.length with
      | zero => simp [hmore] at hc
      | succ more =>
        rw [hmore] at hc
        exact hrest c hc
  rw [leadingDigits, List.take_append, List.take_of_length_le hlength]
  exact takeWhile_digits hds htaken

omit hds

theorem number_of_leading {least : Nat} {limit : Option Nat} (hleading : leadingDigits limit (ds ++ rest) = ds)
    (hleast : least ≤ ds.length) (hmax : (Double.ofDigits ds : Int) ≤ maxNumber) :
    number least limit (ds ++ rest) = .ok ((Double.ofDigits ds : Int), rest) := by
  unfold number
  simp only [hleading]
  rw [if_neg (by omega), if_neg (by omega), List.drop_left]

/-- A number with all of its digits, whatever follows. -/
theorem number_padded {width n : Nat} (hwidth : 0 < width) (hn : n < 10 ^ width) (hmax : (n : Int) ≤ maxNumber) {least : Nat}
    (hleast : least ≤ width) (rest : List Char) :
    number least (some width) (Double.padded width n ++ rest) = .ok ((n : Int), rest) := by
  have hlength := Double.length_padded hwidth hn
  have hleading := leadingDigits_exact (Double.isDigit_padded width n) rest
  rw [hlength] at hleading
  have hread := number_of_leading hleading (by omega : least ≤ _) (by rwa [Double.ofDigits_padded])
  rwa [Double.ofDigits_padded] at hread

/-- Two digits. -/
theorem number_two {n : Nat} (hn : n < 100) {least : Nat} (hleast : least ≤ 2) (rest : List Char) :
    number least (some 2) (Double.padded 2 n ++ rest) = .ok ((n : Int), rest) :=
  number_padded (by decide) hn (by unfold maxNumber; omega) hleast rest

end Number

/-! ### Fractions -/

section Fraction

variable {rest : List Char}

theorem fraction_digits {ds : List Char} (hds : ∀ c ∈ ds, c.isDigit = true) (hpositive : 0 < ds.length)
    (hlength : ds.length ≤ 9) (hmax : (Double.ofDigits ds : Int) ≤ maxNumber) (hrest : EndsNumber rest) :
    fraction (ds ++ rest) = .ok ((Double.ofDigits ds : Int) * tenTo (9 - ds.length), rest) := by
  have hused : (ds ++ rest).length - rest.length = ds.length := by
    rw [List.length_append]
    omega
  have hrest' : rest.dropWhile Char.isDigit = rest := dropWhile_of_head hrest
  unfold fraction
  rw [number_of_leading (leadingDigits_within hds hlength hrest) hpositive hmax]
  show Except.ok _ = _
  simp only [hused, hrest']

theorem fraction_padded {width n : Nat} (hwidth : 0 < width) (hmost : width ≤ 9) (hn : n < 10 ^ width)
    (hrest : EndsNumber rest) : fraction (Double.padded width n ++ rest) = .ok ((n : Int) * tenTo (9 - width), rest) := by
  have hlength := Double.length_padded hwidth hn
  have hmax : (n : Int) ≤ maxNumber := by
    have hpower : 10 ^ width ≤ 10 ^ 9 := Nat.pow_le_pow_right (by decide) hmost
    unfold maxNumber
    omega
  have hread := fraction_digits (Double.isDigit_padded width n) (by omega : 0 < (Double.padded width n).length)
    (by omega) (by rwa [Double.ofDigits_padded]) hrest
  rwa [hlength, Double.ofDigits_padded] at hread

/-- A fraction is read back from as many digits as show it fully. -/
theorem readPointed_fractionText (f : Fields) {nanos : Nat} (hnanos : nanos < nanosPerSecond) (hrest : EndsNumber rest)
    (hpoint : rest.head? ≠ some '.') : readPointed f fraction (TimeOfDay.fractionText ['.'] nanos ++ rest) =
      if nanos = 0 then .ok (f, rest) else do return (← f.setNanosecond nanos, rest) := by
  have hpointed : ∀ (width n : Nat), 0 < width → width ≤ 9 → n < 10 ^ width → n * tenTo (9 - width) = nanos →
      readPointed f fraction ((['.'] ++ Double.padded width n) ++ rest) = do return (← f.setNanosecond nanos, rest) := by
    intro width n hwidth hmost hn hvalue
    show (fraction (Double.padded width n ++ rest) >>= fun p => do return (← f.setNanosecond p.1, p.2)) = _
    rw [fraction_padded hwidth hmost hn hrest, ← Int.natCast_mul, hvalue]
    rfl
  unfold nanosPerSecond at hnanos
  unfold TimeOfDay.fractionText
  by_cases hzero : nanos = 0
  · rw [if_pos hzero, if_pos hzero, List.nil_append, readPointed]
    rintro cs rfl
    exact hpoint rfl
  rw [if_neg hzero, if_neg hzero]
  by_cases hmillis : nanos % 1000000 = 0
  · rw [if_pos hmillis]
    exact hpointed 3 _ (by decide) (by decide) (by omega) (by rw [show tenTo (9 - 3) = 1000000 from rfl]; omega)
  rw [if_neg hmillis]
  by_cases hmicros : nanos % 1000 = 0
  · rw [if_pos hmicros]
    exact hpointed 6 _ (by decide) (by decide) (by omega) (by rw [show tenTo (9 - 6) = 1000 from rfl]; omega)
  · rw [if_neg hmicros]
    exact hpointed 9 _ (by decide) (by decide) (by omega) (by rw [show tenTo (9 - 9) = 1 from rfl]; omega)

end Fraction

/-! ### Offsets -/

theorem padded_two : ∀ n < 100, Double.padded 2 n = [Char.ofNat (48 + n / 10), Char.ofNat (48 + n % 10)] := by
  decide +kernel

theorem digit_char : ∀ n < 10, (Char.ofNat (48 + n)).isDigit = true ∧ (Char.ofNat (48 + n)).toNat - 48 = n := by
  decide +kernel

theorem twoDigits?_padded {n : Nat} (hn : n < 100) (rest : List Char) :
    twoDigits? (Double.padded 2 n ++ rest) = some (some (n / 10, n % 10), rest) := by
  obtain ⟨htens, htens'⟩ := digit_char (n / 10) (by omega)
  obtain ⟨hones, hones'⟩ := digit_char (n % 10) (by omega)
  rw [padded_two n hn]
  simp [twoDigits?, htens, htens', hones, hones']

theorem isBlank_of_isDigit {c : Char} (h : c.isDigit = true) : isBlank c = false := by
  have hrange := Double.toNat_of_isDigit h
  unfold isBlank
  simp only [Bool.or_eq_false_iff, Bool.and_eq_false_iff, decide_eq_false_iff_not, beq_eq_false_iff_ne]
  omega

/-- Digits stay where others are dropped. -/
theorem dropWhile_padded {p : Char → Bool} (hp : ∀ c : Char, c.isDigit = true → p c = false) (width n : Nat)
    (rest : List Char) : (Double.padded width n ++ rest).dropWhile p = Double.padded width n ++ rest := by
  have hpositive := Double.length_padded_pos width n
  have hdigit := Double.isDigit_padded width n
  cases hpadded : Double.padded width n with
  | nil => simp [hpadded] at hpositive
  | cons c cs =>
    have hfirst := hp c (hdigit c (by simp [hpadded]))
    rw [List.cons_append, List.dropWhile_cons_of_neg (by simp [hfirst])]

theorem trimStart_padded (width n : Nat) (rest : List Char) :
    trimStart (Double.padded width n ++ rest) = Double.padded width n ++ rest :=
  dropWhile_padded (fun _ => isBlank_of_isDigit) width n rest

/-- What stands between hours and minutes of an offset passes over a colon. -/
def PassesColon (between : List Char → Except Unreadable (Scan Unit)) : Prop :=
  ∀ (n : Nat) (rest : List Char), between (':' :: (Double.padded 2 n ++ rest)) = .ok ((), Double.padded 2 n ++ rest)

theorem passesColon_character : PassesColon (character ':') := fun _ _ => rfl

theorem not_separator_of_isDigit {c : Char} (hc : c.isDigit = true) : (c == ':' || isBlank c) = false := by
  have hcolon : c ≠ ':' := by
    rintro rfl
    exact absurd hc (by decide)
  simp [hcolon, isBlank_of_isDigit hc]

theorem passesColon_separators : PassesColon separators := by
  intro n rest
  unfold separators
  rw [List.dropWhile_cons_of_pos (by decide), dropWhile_padded fun _ => not_separator_of_isDigit]

/-- Behind its sign an offset is two numbers of two digits, with something between them. -/
theorem offset_signed {c : Char} (hc : c = '+' ∨ c = '-') {hours minutes : Nat} (hhours : hours < 100)
    (hminutes : minutes < 60) {between : List Char → Except Unreadable (Scan Unit)} (mid : List Char) {rest : List Char}
    (hbetween : between (mid ++ (Double.padded 2 minutes ++ rest)) = .ok ((), Double.padded 2 minutes ++ rest))
    (zulu hoursOnly : Bool) :
    offset between zulu hoursOnly (c :: (Double.padded 2 hours ++ mid ++ Double.padded 2 minutes) ++ rest) =
      .ok (if c = '-' then -((hours * 3600 + minutes * 60 : Nat) : Int) else ((hours * 3600 + minutes * 60 : Nat) : Int),
        rest) := by
  have hread : ∀ cs, twoDigits? (Double.padded 2 hours ++ mid ++ cs) = some (some (hours / 10, hours % 10), mid ++ cs) := by
    intro cs
    rw [List.append_assoc]
    exact twoDigits?_padded hhours _
  have htens : minutes / 10 < 6 := by omega
  have hhours' : 10 * (hours / 10) + hours % 10 = hours := Nat.div_add_mod hours 10
  have hminutes' : 10 * (minutes / 10) + minutes % 10 = minutes := Nat.div_add_mod minutes 10
  rw [List.cons_append, List.append_assoc]
  rcases hc with rfl | rfl <;> cases zulu <;>
  · simp only [offset, bind, Except.bind, hread, hbetween, twoDigits?_padded (by omega : minutes < 100),
      if_pos htens, pure, Except.pure, hhours', hminutes']
    rfl

/-- What is written of an offset is read as the offset rounded to minutes. -/
theorem offset_offsetText {o : Int} (ho : o.natAbs < 359970) {between : List Char → Except Unreadable (Scan Unit)}
    (hbetween : PassesColon between) (zulu hoursOnly : Bool) (rest : List Char) :
    offset between zulu hoursOnly (Wall.offsetText true o ++ rest) = .ok (Wall.roundedOffset o, rest) := by
  have hread := fun (c : Char) (hc : c = '+' ∨ c = '-') => offset_signed hc (by omega : (o.natAbs + 30) / 60 / 60 < 100)
    (by omega : (o.natAbs + 30) / 60 % 60 < 60) [':'] (hbetween _ rest) zulu hoursOnly
  unfold Wall.offsetText Wall.roundedOffset
  by_cases hneg : o < 0
  · simp only [if_pos hneg]
    refine (hread '-' (Or.inr rfl)).trans ?_
    rw [if_pos rfl]
    congr 3
    omega
  · simp only [if_neg hneg]
    refine (hread '+' (Or.inl rfl)).trans ?_
    rw [if_neg (by decide)]
    congr 3
    omega

theorem natAbs_roundedOffset (o : Int) : (Wall.roundedOffset o).natAbs = (o.natAbs + 30) / 60 * 60 := by
  unfold Wall.roundedOffset
  split <;> omega

/-- Offsets of whole minutes are written as they are. -/
theorem roundedOffset_eq_self_iff {o : Int} : Wall.roundedOffset o = o ↔ 60 ∣ o := by
  unfold Wall.roundedOffset
  split <;> omega

end Reading

end Rowwise
