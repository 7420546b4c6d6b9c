/-!
# Rowwise.Report.Stroke — coloured text

A drawing is a list of rows, a row a list of strokes.  Every stroke has its own escapes for its colour, so that the same
drawing is written with colours or without.
-/

namespace Rowwise.Report

/-- What a stroke is coloured as. -/
inductive Ink where
  /-- The kind of the report. -/
  | title
  /-- The frame and the numbers of lines. -/
  | frame
  /-- The frame beside drawn rows. -/
  | margin
  /-- Text of the source outside of the label. -/
  | faint
  /-- The label and the text under it. -/
  | label
  /-- The word before a hint. -/
  | hint
deriving DecidableEq, Repr

/-- The parameters of the escape. -/
def Ink.code : Ink → String
  | title => "31"
  | frame => "38;5;246"
  | margin => "38;5;240"
  | faint => "38;5;249"
  | label => "38;5;155"
  | hint => "38;5;115"

/-- Text of one colour, or of none. -/
structure Stroke where
  ink : Option Ink
  text : String
deriving DecidableEq, Repr

namespace Stroke

/-- Text without a colour. -/
def plain (text : String) : Stroke := ⟨none, text⟩

/-- Text with a colour. -/
def inked (ink : Ink) (text : String) : Stroke := ⟨some ink, text⟩

/-- As many blanks. -/
def blanks (n : Nat) : Stroke := plain (String.ofList (List.replicate n ' '))

/-- The text with its escapes if it is written with colours. -/
def write (coloured : Bool) (s : Stroke) : String :=
  match s.ink, coloured with
  | some ink, true => "\x1b[" ++ ink.code ++ "m" ++ s.text ++ "\x1b[0m"
  | _, _ => s.text

end Stroke

/-- Strokes beside each other. -/
abbrev Row := List Stroke

/-- The text of a drawing; every row ends with a line feed. -/
def writeRows (coloured : Bool) (rows : List Row) : String :=
  String.join (rows.map fun row => String.join (row.map (Stroke.write coloured)) ++ "\n")

end Rowwise.Report
