import Rowwise.Regex.Pattern

/-!
# Rowwise.Regex.Replace — replacing matches

A replacement may name groups of the match: `$` and a number or a name, which is as long as letters, digits and
underscores last, or both in braces.  Two dollar signs stand for one; a dollar sign before anything else
stands for itself.
-/

namespace Rowwise.Regex

/-- A piece of a replacement. -/
inductive Piece where
  | character (c : Char)
  | group (name : List Char)
deriving DecidableEq, Repr

/-- True for the characters in a reference without braces. -/
def isReference (c : Char) : Bool := c.isAlphanum || c = '_'

/-- The pieces of a replacement. -/
def pieces : Nat → List Char → List Piece
  | 0, _ => []
  | _, [] => []
  | n + 1, '$' :: cs =>
    match cs with
    | '$' :: rest => .character '$' :: pieces n rest
    | '\x7b' :: inside =>
      match Text.splitAt? '\x7d' inside with
      | some (name, rest) => .group name :: pieces n rest
      | none => .character '$' :: pieces n cs
    | cs =>
      match cs.takeWhile isReference with
      | [] => .character '$' :: pieces n cs
      | name => .group name :: pieces n (cs.dropWhile isReference)
  | n + 1, c :: cs => .character c :: pieces n cs

/-- The number that the name of a group is: digits, which may follow a plus sign. -/
def groupNumber? (name : List Char) : Option Nat :=
  let digits := match name with
    | '+' :: rest => rest
    | cs => cs
  if digits.isEmpty || !digits.all Char.isDigit then none
  else if Double.ofDigits digits < twoTo 64 then some (Double.ofDigits digits) else none

/-- The part of a text from one offset to another. -/
def slice (cs : List Char) (start finish : Nat) : List Char := (cs.drop start).take (finish - start)

/-- The text of a group in a match; empty if the group is unknown or took no part. -/
def groupText (names : List (List Char × Nat)) (cs : List Char) (o : Occurrence) (name : List Char) : List Char :=
  match (groupNumber? name).or (names.lookup name) with
  | none => []
  | some index =>
    match o.span? index with
    | some (start, finish) => slice cs start finish
    | none => []

/-- The text that takes the place of a match. -/
def expand (names : List (List Char × Nat)) (cs : List Char) (o : Occurrence) (replacement : List Piece) : List Char :=
  replacement.flatMap fun
    | .character c => [c]
    | .group name => groupText names cs o name

/-- Replaces occurrences in the text from `offset` on. -/
def replaceFrom (names : List (List Char × Nat)) (cs : List Char) (replacement : List Piece) (offset : Nat) :
    List Occurrence → List Char
  | [] => cs.drop offset
  | o :: os =>
    slice cs offset o.start ++ expand names cs o replacement ++ replaceFrom names cs replacement o.finish os

/-- Replaces all matches in a text. -/
def replaceAll (r : Regex) (names : List (List Char × Nat)) (replacement cs : List Char) : List Char :=
  replaceFrom names cs (pieces replacement.length replacement) 0 (r.occurrences cs)

end Rowwise.Regex
