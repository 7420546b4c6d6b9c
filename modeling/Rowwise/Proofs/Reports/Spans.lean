import Rowwise.Proofs.Parsing.Bytes
import Rowwise.Expr.Parse
import Rowwise.Report.Span

/-!
# Rowwise.Proofs.Reports.Spans — from an offset to a line and a column, and back

A fault of a text keeps the line and the column of the place where reading stopped; a report looks the place up again.  The
line of an offset begins as far before it as the characters that follow the last line feed (`Text.lineStart?_count`), so
what is looked up is where reading stopped (`Expr.span_malformedAt`).  A line and a column that the text does not have are
kept within it (`Fault.span_within`).
-/

namespace Rowwise

namespace Text

variable {n start line column : Nat} {cs : List Char}

theorem lineStart?_one (cs : List Char) : lineStart? 1 cs = some 0 := by
  cases cs <;> rfl

/-- Every line but the first begins behind a line feed. -/
theorem pos_of_lineStart? (h : lineStart? (n + 2) cs = some start) : 0 < start := by
  cases cs with
  | nil => cases h
  | cons c cs =>
    obtain ⟨start', -, rfl⟩ := Option.map_eq_some_iff.mp h
    exact Nat.succ_pos start'

/-- The line of a place begins as far before it as the characters that follow the last line feed. -/
theorem lineStart?_count (before after : List Char) :
    ∃ start, lineStart? (before.count '\n' + 1) (before ++ after) = some start ∧
      start + (before.reverse.takeWhile (· ≠ '\n')).length = before.length := by
  induction before with
  | nil => exact ⟨0, lineStart?_one after, rfl⟩
  | cons c cs ih =>
    obtain ⟨start, hstart, hlength⟩ := ih
    rw [List.reverse_cons, List.takeWhile_append, List.length_reverse, List.length_cons, List.cons_append]
    by_cases hc : c = '\n'
    · have hnone : [c].takeWhile (· ≠ '\n') = [] := by simp [hc]
      refine ⟨start + 1, ?_, ?_⟩
      · rw [hc, List.count_cons_self, lineStart?, if_pos rfl, hstart]
        rfl
      · rw [hnone, List.append_nil]
        split
        · rw [List.length_reverse]
          omega
        · omega
    · have hsome : [c].takeWhile (· ≠ '\n') = [c] := by simp [hc]
      rw [List.count_cons_of_ne hc, hsome]
      cases hcount : cs.count '\n' with
      -- no line feed yet: the character belongs to the first line
      | zero =>
        rw [hcount, lineStart?_one] at hstart
        have hzero : start = 0 := (Option.some.inj hstart).symm
        refine ⟨0, lineStart?_one _, ?_⟩
        rw [if_pos (by omega), List.length_append, List.length_reverse, List.length_singleton, Nat.zero_add]
      | succ n =>
        rw [hcount] at hstart
        have hpos : 0 < start := pos_of_lineStart? hstart
        refine ⟨start + 1, ?_, ?_⟩
        · rw [lineStart?, if_neg hc, hstart]
          rfl
        · rw [if_neg (by omega)]
          omega

theorem offsetOf_le (cs : List Char) (line column : Nat) : offsetOf cs line column ≤ cs.length := by
  unfold offsetOf
  split
  · exact Nat.min_le_right _ _
  · exact Nat.le_refl _

end Text

namespace Expr

/-- The line and the column of a place lead back to it. -/
theorem offsetOf_malformedAt (before after : List Char) :
    Text.offsetOf (before ++ after) (before.count '\n' + 1) ((before.reverse.takeWhile (· ≠ '\n')).length + 1) =
      before.length := by
  obtain ⟨start, hstart, hlength⟩ := Text.lineStart?_count before after
  rw [Text.offsetOf, hstart, Nat.add_sub_cancel]
  simp only
  rw [hlength, List.length_append, Nat.min_eq_left (Nat.le_add_right _ _)]

/-- A report points at the place where reading stopped: at one character, or at the end of the text. -/
theorem span_malformedAt {source : List Char} {offset : Nat} (h : offset ≤ source.length) (cause : Malformed) :
    (malformedAt source offset cause).span source = ⟨offset, min (offset + 1) source.length⟩ := by
  have hback := offsetOf_malformedAt (source.take offset) (source.drop offset)
  rw [List.take_append_drop, List.length_take, Nat.min_eq_left h] at hback
  rw [malformedAt, Fault.span, hback]

end Expr

namespace Fault

/-- What a report points at lies within the text, whatever line and column a fault has. -/
theorem span_within (f : Fault) (source : List Char) :
    (f.span source).start ≤ (f.span source).stop ∧ (f.span source).stop ≤ source.length := by
  cases f with
  | malformed line column cause =>
    have hle := Text.offsetOf_le source line column
    exact ⟨Nat.le_min.mpr ⟨Nat.le_succ _, hle⟩, Nat.min_le_right _ _⟩
  | _ => exact ⟨Nat.zero_le _, Nat.le_refl _⟩

end Fault

end Rowwise
