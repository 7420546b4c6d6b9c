import Rowwise.Report.Drawing

/-!
# Rowwise.Report.FaultReport — faults as a reader sees them

The report of a fault shows the text of the expression with the fault at its place.
-/

namespace Rowwise

/-- The word for a kind of fault. -/
def FaultKind.word : FaultKind → String
  | malformed => "syntax"
  | type => "type"
  | value => "value"
  | nested => "subexpression"
  | internal => "fatal"
  | aborted => "aborted"

namespace Fault

/-- What a label says: the cause alone where the place is shown, and the inner fault of a nested expression. -/
def labelText : Fault → String
  | malformed _ _ cause => cause.text
  | nested _ inner => inner.text
  | f => f.text

/-- The hint that closes a report. -/
def hint? : Fault → Option (String × String)
  | unknownName _ => some ("Help", "write column names that are not identifiers as [name]")
  | aborted => some ("Note", "the host cancelled the evaluation")
  | _ => none

/-- The drawing of a fault. -/
def drawing (f : Fault) (source : List Char) : Report.Drawing where
  title := "[" ++ f.kind.word ++ "] Error"
  headline := f.text
  origin := "<expression>"
  label := f.span source
  message := f.labelText
  hint := f.hint?

/-- The report of a fault of a text, with colours or without.  An empty text has no place to point at. -/
def report (f : Fault) (source : String) (coloured : Bool) : String :=
  if source.isEmpty then "Error: " ++ f.text ++ "\n"
  else Report.writeRows coloured ((f.drawing source.toList).rows source.toList)

end Fault

end Rowwise
