import Rowwise.Report.Line
import Rowwise.Report.Stroke

/-!
# Rowwise.Report.Drawing — a label under its lines

A label within a line is drawn under it: an underline with a stem, and an arm from the stem to the message.  A label
over several lines is drawn beside its first and its last line, with the arm under the last one.  Lines between the two
are left out.
-/

namespace Rowwise.Report

/-! ### Margins -/

/-- How many digits a number has. -/
def digitsOf (n : Nat) : Nat := (toString n).length

/-- The margin of a printed line, with room for so many digits. -/
def numberedMargin (digits : Nat) (number : Nat) : Row :=
  let blanks := String.ofList (List.replicate (digits - digitsOf number) ' ')
  [.plain " ", .inked .frame (blanks ++ s!"{number} │"), .plain " "]

/-- The margin of a drawn row, or of a gap between lines. -/
def drawnMargin (digits : Nat) (bar : String) : Row :=
  [.plain " ", .inked .margin (String.ofList (List.replicate (digits + 1) ' ') ++ bar), .plain " "]

/-! ### Rows -/

/-- A printed line, with what lies in the label standing out. -/
def sourceRow (label : Span) (l : Line) : Row :=
  l.shown.zipIdx.flatMap fun (c, i) =>
    let ink := if label.contains (l.offset + i) then Ink.label else .faint
    if Text.isBlank c then List.replicate (columnsAt i c) (.inked ink " ") else [.inked ink c.toString]

/-- What is drawn under a character: a head on its first column and a tail on the others. -/
structure Mark where
  head : Char
  tail : Char
deriving DecidableEq, Repr

namespace Mark

/-- A line along the row. -/
def bar : Mark := ⟨'─', '─'⟩

/-- Where the stem leaves the underline. -/
def stem : Mark := ⟨'┬', '─'⟩

/-- A stem without an underline. -/
def upright : Mark := ⟨'│', ' '⟩

/-- Where the arm turns to the message. -/
def corner : Mark := ⟨'╰', '─'⟩

/-- The strokes of a mark under a character of so many columns; no mark leaves them blank. -/
def strokes (columns : Nat) : Option Mark → Row
  | none => List.replicate columns (.plain " ")
  | some m =>
    match columns with
    | 0 => []
    | n + 1 => .inked .label m.head.toString :: List.replicate n (.inked .label m.tail.toString)

end Mark

/-- Draws marks under the first `reach` characters of a line. -/
def markRow (l : Line) (reach : Nat) (mark : Nat → Option Mark) : Row :=
  (l.columns reach).zipIdx.flatMap fun (n, i) => Mark.strokes n (mark i)

/-- How many columns an arm goes past what it belongs to. -/
def armOverhang : Nat := 2

/-! ### Labels -/

/-- A label within a line.  The stem stands under the middle of the span. -/
def drawWithin (digits : Nat) (l : Line) (label : Span) (message : String) : List Row :=
  let stem := max ((label.start + label.stop) / 2) label.start - l.offset
  let reach := label.stop - l.offset + armOverhang
  let underline (i : Nat) : Option Mark :=
    match label.contains (l.offset + i), i == stem with
    | true, true => some .stem
    | true, false => some .bar
    | false, true => some .upright
    | false, false => none
  let arm (i : Nat) : Option Mark := if i < stem then none else if i = stem then some .corner else some .bar
  [numberedMargin digits l.number ++ sourceRow label l,
    drawnMargin digits "│" ++ markRow l reach underline,
    drawnMargin digits "│" ++ markRow l reach arm ++ [.plain (" " ++ message)]]

/-- The columns between the margin and the lines that a label over several lines takes. -/
def gutter (texts : List String) : Row := texts.map (.inked .label)

/-- The gutter of a row that the label passes. -/
def passing (bar : String) : Row := [.inked .label bar, .blanks 3]

/-- A label over several lines. -/
def drawAcross (digits : Nat) (first last : Line) (label : Span) (message : String) : List Row :=
  let reach := last.chars.length + armOverhang
  let gap := if first.number + 1 < last.number then [drawnMargin digits "┆" ++ passing "┆"] else []
  [numberedMargin digits first.number ++ gutter ["╭", "─", "▶", " "] ++ sourceRow label first] ++ gap ++
    [numberedMargin digits last.number ++ gutter ["├", "─", "▶", " "] ++ sourceRow label last,
      drawnMargin digits "│" ++ passing "│" ++ markRow last reach fun _ => none,
      drawnMargin digits "│" ++ gutter ["╰", "─", "─", "─"] ++ (markRow last reach fun _ => some .bar) ++
        [.plain (" " ++ message)]]

/-! ### Frames -/

/-- What a drawing is about. -/
structure Drawing where
  /-- The words before the colon. -/
  title : String
  /-- The text on top. -/
  headline : String
  /-- The name of the text that the label lies in. -/
  origin : String
  label : Span
  message : String
  /-- A closing hint: its word, and the hint. -/
  hint : Option (String × String)
deriving Repr

namespace Drawing

/-- The rows above the label: the headline, the place that the label starts at, and an empty row. -/
def top (d : Drawing) (digits : Nat) (first : Line) : List Row :=
  let indent := Stroke.blanks (digits + 2)
  let place := s!" {d.origin}:{first.number}:{d.label.start - first.offset + 1} "
  [[.inked .title (d.title ++ ":"), .plain (" " ++ d.headline)],
    [indent, .inked .frame "╭", .inked .frame "─", .inked .frame "[", .plain place, .inked .frame "]"],
    [indent, .inked .frame "│"]]

/-- The rows of the hint, below an empty row; `beside` is what stands between the margin and the text. -/
def hintRows (d : Drawing) (digits : Nat) (beside : Row) : List Row :=
  match d.hint with
  | none => []
  | some (word, text) =>
    [drawnMargin digits "│" ++ beside,
      drawnMargin digits "│" ++ beside ++ [.inked .hint word, .plain (": " ++ text)]]

/-- The last row. -/
def bottom (digits : Nat) : Row := [.inked .frame (String.ofList (List.replicate (digits + 2) '─') ++ "╯")]

/-- The rows of a drawing; none without a line to point at. -/
def rows (d : Drawing) (source : List Char) : List Row :=
  let lines := linesOf source
  match lineAt? lines d.label.start, lineAt? lines d.label.last with
  | some first, some last =>
    let digits := digitsOf last.number
    if first.number = last.number then
      d.top digits first ++ drawWithin digits first d.label d.message ++ d.hintRows digits [] ++ [bottom digits]
    else
      d.top digits first ++ drawAcross digits first last d.label d.message ++ d.hintRows digits [.blanks 4] ++
        [bottom digits]
  | _, _ => []

end Drawing

end Rowwise.Report
