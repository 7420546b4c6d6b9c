import Rowwise.Expr.Grammar
import Rowwise.Expr.Nesting

/-!
# Rowwise.Expr.Parse — from a text to its tree

A text is refused if it nests too deeply, then if it does not follow the grammar, then if an escape in it is bad, and
last if its tree is too deep.  Faults name the line and column, counted from one.
-/

namespace Rowwise.Expr

/-- The limit of nesting where none is given. -/
def defaultDepth : Nat := 500

/-- A fault at an offset of a text. -/
def malformedAt (source : List Char) (offset : Nat) (cause : Malformed) : Fault :=
  let before := source.take offset
  .malformed (before.count '\n' + 1) ((before.reverse.takeWhile (· ≠ '\n')).length + 1) cause

/-- Reads a text by the grammar alone. -/
def read (source : List Char) : Except Fault Expr :=
  match Grammar.whole source.length ⟨0, source⟩ {} with
  | (none, attempts) => .error (malformedAt source attempts.place (.expected attempts.concepts))
  | (some (.error bad, _), _) => .error (malformedAt source bad.offset bad.cause)
  | (some (.ok e, _), _) => .ok e

/-- The tree of a text whose nesting has a limit. -/
def parse (limit : Nat) (source : String) : Except Fault Expr :=
  match Nesting.tooDeepAt? limit source.toList with
  | some offset => .error (malformedAt source.toList offset (.tooDeep limit))
  | none => do
    let e ← read source.toList
    if e.depth > limit then .error (.malformed 1 1 (.tooDeep limit)) else .ok e

end Rowwise.Expr
