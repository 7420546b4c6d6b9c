import Rowwise.Report.Span
import Rowwise.Text.Blank
import Rowwise.Text.Width

/-!
# Rowwise.Report.Line — the lines of a report

A report prints lines as an editor would show them: seven characters end a line, a tab fills up to the next stop, and
blanks at the end are left out.
-/

namespace Rowwise.Report

/-! ### Splitting -/

/-- True for the characters that end a line. -/
def endsLine (c : Char) : Bool :=
  let n := c.toNat
  (0xA ≤ n && n ≤ 0xD) || n == 0x85 || n == 0x2028 || n == 0x2029

/-- Splits a text after every line end; a carriage return and a line feed are one. -/
def splitLines : List Char → List (List Char)
  | [] => []
  | c :: cs =>
    if endsLine c && !(c == '\r' && cs.head? == some '\n') then [c] :: splitLines cs
    else
      match splitLines cs with
      | [] => [[c]]
      | line :: lines => (c :: line) :: lines

/-- Splitting loses nothing. -/
@[simp] theorem flatten_splitLines (cs : List Char) : (splitLines cs).flatten = cs := by
  induction cs with
  | nil => rfl
  | cons c cs ih =>
    rw [splitLines]
    split
    · simp [ih]
    · split <;> simp_all

/-- A line of a text. -/
structure Line where
  /-- Counted from one. -/
  number : Nat
  /-- How many characters stand before the line. -/
  offset : Nat
  /-- The characters with the line's end. -/
  chars : List Char
deriving DecidableEq, Repr

/-- Numbers the lines that follow `number` lines of `offset` characters. -/
def numberLines (number offset : Nat) : List (List Char) → List Line
  | [] => []
  | cs :: rest => ⟨number + 1, offset, cs⟩ :: numberLines (number + 1) (offset + cs.length) rest

/-- The lines of a text. -/
def linesOf (source : List Char) : List Line := numberLines 0 0 (splitLines source)

/-- The line that an offset lies in; the end of a text lies in its last line. -/
def lineAt? (lines : List Line) (offset : Nat) : Option Line := lines.reverse.find? (·.offset ≤ offset)

/-! ### Characters -/

/-- The distance of tab stops. -/
def tabStop : Nat := 4

/-- The columns that a character takes as the `i`th of its line; a tab fills up to the next stop. -/
def columnsAt (i : Nat) (c : Char) : Nat :=
  if c = '\t' then (i / tabStop + 1) * tabStop - i
  else if Text.isBlank c then 1
  else Text.columns c

namespace Line

/-- The characters that are printed. -/
def shown (l : Line) : List Char := Text.trimEnd l.chars

/-- The columns of the first `reach` characters, one each past the end of what is printed. -/
def columns (l : Line) (reach : Nat) : List Nat :=
  ((l.shown.zipIdx.map fun (c, i) => columnsAt i c) ++ List.replicate reach 1).take reach

end Line

end Rowwise.Report
