/-!
# Rowwise.Text.Runs — tables of code points

A table of a character property is a text of words.  A word `41-5A` stands for the code points from hexadecimal 41 to
5A, `100-12E/2` for every second one of its range, `AA` for one alone.  A shift `>20` or `<20` may follow: the word
then maps each of its code points to the one that many places up or down.
-/

namespace Rowwise.Text

/-- The code points `first`, `first + step`, … up to `last`, each mapped `shift` places away. -/
structure Run where
  first : Nat
  last : Nat
  step : Nat
  shift : Int
deriving DecidableEq, Repr

/-- True if `n` is one of the code points of the run. -/
def Run.contains (r : Run) (n : Nat) : Bool :=
  r.first ≤ n && n ≤ r.last && (n - r.first) % r.step == 0

/-- The value of a hexadecimal digit. -/
def hexDigit? (c : Char) : Option Nat :=
  if '0' ≤ c ∧ c ≤ '9' then some (c.toNat - 48)
  else if 'A' ≤ c ∧ c ≤ 'F' then some (c.toNat - 55)
  else if 'a' ≤ c ∧ c ≤ 'f' then some (c.toNat - 87)
  else none

/-- A hexadecimal number in front of a text, and the text after it. -/
def takeHex (cs : List Char) : Nat × List Char := go 0 cs
where
  /-- Continues the number `n`. -/
  go (n : Nat) : List Char → Nat × List Char
    | [] => (n, [])
    | c :: cs =>
      match hexDigit? c with
      | some d => go (16 * n + d) cs
      | none => (n, c :: cs)

/-- The run that a word of a table stands for. -/
def Run.ofWord (word : List Char) : Run :=
  let (first, rest) := takeHex word
  let (last, rest) :=
    match rest with
    | '-' :: more => takeHex more
    | _ => (first, rest)
  let (step, rest) :=
    match rest with
    | '/' :: more => takeHex more
    | _ => (1, rest)
  let shift : Int :=
    match rest with
    | '>' :: more => (takeHex more).1
    | '<' :: more => -(takeHex more).1
    | _ => 0
  ⟨first, last, step, shift⟩

/-- A table of runs in ascending order. -/
abbrev Runs := Array Run

/-- Splits a text at spaces and line ends. -/
def splitWords (cs : List Char) : List (List Char) := go [] cs
where
  /-- Continues the word whose characters so far, last first, are given. -/
  go (word : List Char) : List Char → List (List Char)
    | [] => if word.isEmpty then [] else [word.reverse]
    | c :: cs =>
      if c = ' ' ∨ c = '\n' then if word.isEmpty then go [] cs else word.reverse :: go [] cs
      else go (c :: word) cs

/-- The table that a text of words stands for. -/
def Runs.ofText (text : String) : Runs := ((splitWords text.toList).map Run.ofWord).toArray

/-- The first run that holds `n`. -/
def Runs.find? (rs : Runs) (n : Nat) : Option Run := Array.find? (·.contains n) rs

/-- True if some run holds the character. -/
def Runs.has (rs : Runs) (c : Char) : Bool := (rs.find? c.toNat).isSome

/-- The character that the table maps `c` to. -/
def Runs.map? (rs : Runs) (c : Char) : Option Char :=
  (rs.find? c.toNat).map fun r => Char.ofNat ((c.toNat : Int) + r.shift).toNat

end Rowwise.Text
