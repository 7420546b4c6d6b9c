/-!
# Rowwise.Expr.Nesting — how deep a text may nest

A bound on the depth of the tree, taken from the text before it is read: each operator and each pair of parentheses may
add one level.  Texts, bracketed names and references are passed over.  `tooDeepAt?` finds the first character at which
the bound exceeds the limit.
-/

namespace Rowwise.Nesting

/-- What is known of one pair of parentheses, or of the whole text. -/
structure Budget where
  /-- The operators in the current argument. -/
  operators : Nat := 0
  /-- The deepest parentheses in the current argument. -/
  inner : Nat := 0
  /-- The bound of the finished arguments. -/
  finished : Nat := 0
deriving DecidableEq, Repr

namespace Budget

/-- The bound of the current argument. -/
def argument (b : Budget) : Nat := b.operators + max b.inner 1

/-- The bound of all arguments. -/
def total (b : Budget) : Nat := max b.finished b.argument

/-- The current argument ends. -/
def nextArgument (b : Budget) : Budget := ⟨0, 0, b.total⟩

/-- One more operator. -/
def withOperator (b : Budget) : Budget := { b with operators := b.operators + 1 }

/-- Parentheses of this depth end in the current argument. -/
def withInner (b : Budget) (depth : Nat) : Budget := { b with inner := max b.inner depth }

end Budget

/-- What the next character is part of. -/
inductive Mode where
  | code
  /-- The second character of an operator. -/
  | operator
  /-- A text, name or reference that ends with this character. -/
  | quoted (close : Char)
  /-- The character after a backslash in one of these. -/
  | escaped (close : Char)
deriving DecidableEq, Repr

/-- True for the characters that start an operator. -/
def startsOperator (c : Char) : Bool :=
  c ∈ ['|', '&', '=', '!', '<', '>', '+', '-', '*', '/', '%', '^']

/-- True if two characters are one operator. -/
def isPair (c : Char) (next : Option Char) : Bool :=
  match c with
  | '|' => next = some '|'
  | '&' => next = some '&'
  | '=' | '!' | '<' | '>' => next = some '='
  | _ => false

/-- True if a sign after these two characters belongs to a number with an exponent. -/
def endsExponent (before last : Char) : Bool :=
  (last = 'e' || last = 'E') && (before.isDigit || before = '.')

/-- What has been read: the two last characters, the innermost parentheses and those around them. -/
structure State where
  before : Char := ' '
  last : Char := ' '
  current : Budget := {}
  around : List Budget := []
deriving DecidableEq, Repr

/-- Reads one character of code; none if the bound exceeds the limit there. -/
def State.code? (limit : Nat) (s : State) (c : Char) (next : Option Char) : Option (State × Mode) :=
  let s' := { s with before := s.last, last := c }
  let within (s : State) (m : Mode) : Option (State × Mode) :=
    if s.current.argument > limit then none else some (s, m)
  match c with
  | '"' => some (s', .quoted '"')
  | '[' => some (s', .quoted ']')
  | '(' =>
    if s.around.length + 1 > limit then none
    else some ({ s' with current := {}, around := s.current :: s.around }, .code)
  | ',' => some ({ s' with current := s.current.nextArgument }, .code)
  | ')' =>
    match s.around with
    | [] => some (s', .code)
    | outer :: around =>
      within { s' with current := outer.withInner (1 + s.current.total), around := around } .code
  | c =>
    if (c = '%' || c = '#') && next = some '\x7b' then some (s', .quoted '\x7d')
    else if (c = '+' || c = '-') && endsExponent s.before s.last then some (s', .code)
    else if startsOperator c then
      within { s' with current := s.current.withOperator } (if isPair c next then .operator else .code)
    else some (s', .code)

/-- The offset of the first character at which the bound exceeds the limit. -/
def scan (limit : Nat) : Nat → Mode → State → List Char → Option Nat
  | _, _, _, [] => none
  | offset, .code, s, c :: rest =>
    match s.code? limit c rest.head? with
    | none => some offset
    | some (s, mode) => scan limit (offset + 1) mode s rest
  | offset, .operator, s, c :: rest => scan limit (offset + 1) .code { s with before := s.last, last := c } rest
  | offset, .quoted close, s, c :: rest =>
    if c = '\\' then scan limit (offset + 1) (.escaped close) s rest
    else if c = close then scan limit (offset + 1) .code { s with before := s.last, last := c } rest
    else scan limit (offset + 1) (.quoted close) s rest
  | offset, .escaped close, s, _ :: rest => scan limit (offset + 1) (.quoted close) s rest

/-- The offset of the first character at which a text may nest deeper than the limit. -/
def tooDeepAt? (limit : Nat) (source : List Char) : Option Nat := scan limit 0 .code {} source

end Rowwise.Nesting
