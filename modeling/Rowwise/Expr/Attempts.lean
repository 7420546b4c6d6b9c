import Rowwise.Expr.Tree
import Rowwise.Text.Search
import Rowwise.Value.Fault

/-!
# Rowwise.Expr.Attempts — reading with a record of what was tried

A parser takes characters from a cursor or fails, and keeps a record of the rules that failed at the furthest place.  The
record is what a fault reports; it never changes what is read.
-/

namespace Rowwise

/-- The rules whose failures are recorded, in the order of a report. -/
inductive Rule where
  | endOfInput
  | whole
  | expression
  | sign (op : UnaryOp)
  | operator (op : BinaryOp)
  | grouped
  | call
  | float
  | integer
  | text
  | textBody
  | column
  | columnName
  | scope
  | macroRef
  | scopeName
  | identifier
deriving DecidableEq, Repr

namespace Rule

/-- All rules, in the order of a report. -/
def all : List Rule :=
  [endOfInput, whole, expression] ++ [UnaryOp.negate, .plus, .not].map sign ++
    [BinaryOp.or, .and, .equal, .unequal, .atMost, .atLeast, .less, .greater, .add, .subtract, .multiply, .divide,
      .remainder, .power].map operator ++
    [grouped, call, float, integer, text, textBody, column, columnName, scope, macroRef, scopeName, identifier]

theorem mem_all (r : Rule) : r ∈ all := by
  cases r with
  | sign op => cases op <;> decide
  | operator op => cases op <;> decide
  | _ => decide

/-- What a reader calls the things that a rule reads. -/
def concept : Rule → Concept
  | endOfInput => .endOfInput
  | operator _ => .operator
  | call | identifier => .identifier
  | float | integer | text => .literal
  | column | scope | macroRef => .reference
  | whole | expression | sign _ | grouped | textBody | columnName | scopeName => .expression

end Rule

/-! ### The record -/

/-- Where reading stands: how many characters have been read, and those that follow. -/
structure Cursor where
  offset : Nat
  rest : List Char
deriving DecidableEq, Repr

/-- The rules that failed at the furthest place, the latest first. -/
structure Attempts where
  place : Nat := 0
  rules : List Rule := []
deriving DecidableEq, Repr

namespace Attempts

/-- The number of failures recorded at a place. -/
def countAt (a : Attempts) (place : Nat) : Nat := if a.place = place then a.rules.length else 0

/-- Records that a rule failed which began at `place` with the record `before`.  If a single failure was recorded there
since, it says more than the rule; otherwise the rule stands for all of them. -/
def failed (a before : Attempts) (rule : Rule) (place : Nat) : Attempts :=
  let earlier := before.countAt place
  if a.countAt place = earlier + 1 then a
  else if a.place = place then { a with rules := rule :: a.rules.drop (a.rules.length - earlier) }
  else if a.place < place then ⟨place, [rule]⟩
  else a

/-- Appends the concepts that are not in the list yet. -/
def addConcepts (seen : List Concept) : List Rule → List Concept
  | [] => seen
  | r :: rs => addConcepts (if r.concept ∈ seen then seen else seen ++ [r.concept]) rs

/-- What could have stood at the place, without repetitions. -/
def concepts (a : Attempts) : List Concept := addConcepts [] (Rule.all.filter (· ∈ a.rules))

end Attempts

/-! ### Parsers -/

/-- Reads from a cursor, or fails; either way the record goes on. -/
def Parser (α : Type) : Type := Cursor → Attempts → Option (α × Cursor) × Attempts

namespace Parser

variable {α β : Type}

instance : Monad Parser where
  pure x := fun c a => (some (x, c), a)
  bind p f := fun c a =>
    match p c a with
    | (none, a) => (none, a)
    | (some (x, c), a) => f x c a

/-- Reads with the first parser or, if it fails, with the second. -/
def orElse (p q : Parser α) : Parser α := fun c a =>
  match p c a with
  | (none, a) => q c a
  | done => done

instance : OrElse (Parser α) := ⟨fun p q => orElse p (q ())⟩

/-- Fails. -/
def fail : Parser α := fun _ a => (none, a)

/-- Reads with the first parser of a list that succeeds. -/
def firstOf : List (Parser α) → Parser α
  | [] => fail
  | p :: ps => orElse p (firstOf ps)

/-- Reads as often as possible, at most `n` times. -/
def upTo (n : Nat) (p : Parser α) : Parser (List α) := fun c a =>
  match n with
  | 0 => (some ([], c), a)
  | n + 1 =>
    match p c a with
    | (none, a) => (some ([], c), a)
    | (some (x, c), a) =>
      match upTo n p c a with
      | (none, a) => (some ([x], c), a)
      | (some (xs, c), a) => (some (x :: xs, c), a)

/-- Reads as often as possible; each time takes a character, and the last time fails. -/
def many (p : Parser α) : Parser (List α) := fun c a => upTo (c.rest.length + 1) p c a

/-- Records a failure under the name of a rule. -/
def rule (r : Rule) (p : Parser α) : Parser α := fun c a =>
  match p c a with
  | (none, b) => (none, b.failed a r c.offset)
  | done => done

/-- Takes the characters that `split?` takes, which are given back with the rest. -/
def take (split? : List Char → Option (List Char × List Char)) : Parser (List Char) := fun c a =>
  match split? c.rest with
  | none => (none, a)
  | some (taken, rest) => (some (taken, ⟨c.offset + taken.length, rest⟩), a)

/-- Takes just these characters. -/
def exactly (s : String) : Parser (List Char) :=
  take fun cs => (Text.dropPrefix? s.toList cs).map fun rest => (s.toList, rest)

/-- The place where reading stands. -/
def place : Parser Nat := fun c a => (some (c.offset, c), a)

/-- True for the characters between which words are read. -/
def isGap (c : Char) : Bool := c = ' ' || c = '\t' || c = '\r' || c = '\n'

/-- Passes blanks, tabs and ends of lines. -/
def gap : Parser Unit := fun c a =>
  (some ((), ⟨c.offset + (c.rest.takeWhile isGap).length, c.rest.dropWhile isGap⟩), a)

/-- Takes these characters, after any gap. -/
def symbol (s : String) : Parser Unit := do
  gap
  let _ ← exactly s

end Parser

end Rowwise
