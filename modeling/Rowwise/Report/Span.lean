import Rowwise.Value.Fault

/-!
# Rowwise.Report.Span — where a fault lies

A report points at a span of the text.  Malformed text is pointed at where it cannot go on; any other fault belongs to
the expression as a whole.
-/

namespace Rowwise

namespace Report

/-- The characters from offset `start` up to, and without, offset `stop`. -/
structure Span where
  start : Nat
  stop : Nat
deriving DecidableEq, Repr

namespace Span

/-- True if the character at an offset lies in the span. -/
def contains (s : Span) (offset : Nat) : Bool := s.start ≤ offset && offset < s.stop

/-- The offset of the last character; of an empty span, where it starts. -/
def last (s : Span) : Nat := max (s.stop - 1) s.start

end Span

end Report

namespace Text

/-- The offset at which a line begins.  Lines are counted from one and end with a line feed. -/
def lineStart? : Nat → List Char → Option Nat
  | 0, _ => none
  | 1, _ => some 0
  | _ + 2, [] => none
  | n + 2, c :: cs => (lineStart? (if c = '\n' then n + 1 else n + 2) cs).map (· + 1)

/-- The offset of a line and a column, both counted from one; past the end of the text, where the text ends. -/
def offsetOf (cs : List Char) (line column : Nat) : Nat :=
  match lineStart? line cs with
  | some start => min (start + (column - 1)) cs.length
  | none => cs.length

end Text

/-- The span of a text that a fault belongs to: one character of malformed text, or none at its end; else all. -/
def Fault.span (f : Fault) (source : List Char) : Report.Span :=
  match f with
  | malformed line column _ =>
    let start := Text.offsetOf source line column
    ⟨start, min (start + 1) source.length⟩
  | _ => ⟨0, source.length⟩

end Rowwise
