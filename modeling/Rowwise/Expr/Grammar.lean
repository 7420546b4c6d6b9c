import Rowwise.Double.Decimal
import Rowwise.Expr.Attempts
import Rowwise.Expr.Chain
import Rowwise.Expr.Escape

/-!
# Rowwise.Expr.Grammar — the grammar of expressions

An expression is a chain of operands; an operand is a primary with signs before it.  Between words there may be gaps, but
not inside numbers, names, texts and references.  Of several ways to read a primary the first that succeeds counts.

Escapes are resolved while reading; a bad one does not stop reading, because a text that does not follow the grammar is
reported as such.
-/

namespace Rowwise

/-- A bad escape and the offset of the text that holds it. -/
structure BadEscape where
  offset : Nat
  cause : Malformed

/-- What was read, or the first bad escape in it. -/
abbrev Decoded (α : Type) := Except BadEscape α

namespace Grammar

open Rowwise.Parser

/-! ### Words -/

/-- The digits at the start, of which there must be one. -/
def digits? (cs : List Char) : Option (List Char × List Char) :=
  match cs.takeWhile Char.isDigit with
  | [] => none
  | ds => some (ds, cs.dropWhile Char.isDigit)

/-- The exponent of a number. -/
def exponent? : List Char → Option (List Char × List Char)
  | e :: cs =>
    if e = 'e' ∨ e = 'E' then
      match cs with
      | '+' :: cs => (digits? cs).map fun (ds, rest) => (e :: '+' :: ds, rest)
      | '-' :: cs => (digits? cs).map fun (ds, rest) => (e :: '-' :: ds, rest)
      | cs => (digits? cs).map fun (ds, rest) => (e :: ds, rest)
    else none
  | [] => none

/-- What has been taken, with an exponent if there is one. -/
def withExponent (taken rest : List Char) : List Char × List Char :=
  match exponent? rest with
  | some (e, rest) => (taken ++ e, rest)
  | none => (taken, rest)

/-- A number with a point or an exponent: digits before the point or after it, or digits with an exponent. -/
def float? (cs : List Char) : Option (List Char × List Char) :=
  match digits? cs with
  | some (ds, '.' :: rest) =>
    some (withExponent (ds ++ '.' :: rest.takeWhile Char.isDigit) (rest.dropWhile Char.isDigit))
  | some (ds, rest) => (exponent? rest).map fun (e, rest) => (ds ++ e, rest)
  | none =>
    match cs with
    | '.' :: rest => (digits? rest).map fun (ds, rest) => withExponent ('.' :: ds) rest
    | _ => none

/-- True for the characters that may start a name. -/
def startsName (c : Char) : Bool := c.isAlpha || c = '_'

/-- True for the characters that may follow in a name. -/
def continuesName (c : Char) : Bool := c.isAlphanum || c = '_'

/-- A name. -/
def name? : List Char → Option (List Char × List Char)
  | c :: cs =>
    if startsName c then some (c :: cs.takeWhile continuesName, cs.dropWhile continuesName) else none
  | [] => none

/-- The characters before a closing one; a backslash takes the next character along. -/
def body (close : Char) : List Char → List Char × List Char
  | '\\' :: c :: cs => ('\\' :: c :: (body close cs).1, (body close cs).2)
  | c :: cs => if c = close ∨ c = '\\' then ([], c :: cs) else (c :: (body close cs).1, (body close cs).2)
  | [] => ([], [])

/-- Refuses to take nothing. -/
def nonempty (taken : List Char × List Char) : Option (List Char × List Char) :=
  if taken.1.isEmpty then none else some taken

/-- The characters before a closing brace. -/
def braced (cs : List Char) : Option (List Char × List Char) :=
  nonempty (cs.takeWhile (· ≠ '\x7d'), cs.dropWhile (· ≠ '\x7d'))

/-- A percent sign that does not open a reference. -/
def percent? : List Char → Option (List Char × List Char)
  | '%' :: '\x7b' :: _ => none
  | '%' :: cs => some (['%'], cs)
  | _ => none

/-- An exclamation mark that is not half of an operator. -/
def exclamation? : List Char → Option (List Char × List Char)
  | '!' :: '=' :: _ => none
  | '!' :: cs => some (['!'], cs)
  | _ => none

/-! ### Operators -/

/-- A sign, after any gap. -/
def sign : Parser UnaryOp := do
  gap
  firstOf
    [do let _ ← rule (.sign .negate) (exactly "-"); return .negate,
     do let _ ← rule (.sign .plus) (exactly "+"); return .plus,
     do let _ ← rule (.sign .not) (take exclamation?); return .not]

/-- The operators in the order in which they are tried: the longer of two that start alike is first. -/
def operators : List BinaryOp :=
  [.or, .and, .equal, .unequal, .atMost, .atLeast, .less, .greater, .add, .subtract, .multiply, .divide, .remainder,
    .power]

/-- One operator. -/
def thisOperator (op : BinaryOp) : Parser BinaryOp := do
  let _ ← rule (.operator op) (if op = .remainder then take percent? else exactly op.symbol)
  return op

/-- An operator, after any gap. -/
def operator : Parser BinaryOp := do
  gap
  firstOf (operators.map thisOperator)

/-! ### Primaries -/

/-- The number that digits write. -/
def numberOf (cs : List Char) : Float := (Double.read? cs).getD Double.nan

/-- A text whose escapes are resolved. -/
def decoded (offset : Nat) (raw : List Char) : Decoded String :=
  match Escape.decode raw with
  | .ok cs => .ok (String.ofList cs)
  | .error cause => .error ⟨offset, cause⟩

/-- A word without escapes. -/
def word (r : Rule) (split? : List Char → Option (List Char × List Char)) (f : List Char → Expr) :
    Parser (Decoded Expr) := do
  let cs ← rule r (take split?)
  return .ok (f cs)

/-- A word with escapes between two marks. -/
def quoted (r inside : Rule) (opening closing : String) (split? : List Char → Option (List Char × List Char))
    (f : String → Expr) : Parser (Decoded Expr) :=
  rule r do
    let _ ← exactly opening
    let offset ← place
    let raw ← rule inside (take split?)
    let _ ← exactly closing
    return (decoded offset raw).map f

/-- A reference in braces. -/
def reference (r : Rule) (mark : String) (f : String → Expr) : Parser (Decoded Expr) :=
  rule r do
    let _ ← exactly mark
    let cs ← rule .scopeName (take braced)
    let _ ← exactly "\x7d"
    return .ok (f (String.ofList cs))

/-- An expression in parentheses. -/
def grouped (inner : Parser (Decoded Expr)) : Parser (Decoded Expr) :=
  rule .grouped do
    let _ ← exactly "("
    let e ← inner
    symbol ")"
    return e

/-- Arguments with commas between them, if there are any. -/
def arguments (inner : Parser (Decoded Expr)) : Parser (List (Decoded Expr)) :=
  orElse
    (do
      let first ← inner
      let rest ← many do
        symbol ","
        inner
      return first :: rest)
    (pure [])

/-- A call of a function. -/
def call (inner : Parser (Decoded Expr)) : Parser (Decoded Expr) :=
  rule .call do
    let name ← rule .identifier (take name?)
    symbol "("
    let args ← arguments inner
    symbol ")"
    return do return .call (String.ofList name) (← args.mapM id)

/-- A primary. -/
def primary (inner : Parser (Decoded Expr)) : Parser (Decoded Expr) :=
  firstOf
    [grouped inner,
     call inner,
     word .float float? fun cs => .double (numberOf cs),
     word .integer digits? fun cs => .integer (numberOf cs),
     quoted .text .textBody "\"" "\"" (fun cs => some (body '"' cs)) .text,
     quoted .column .columnName "[" "]" (fun cs => nonempty (body ']' cs)) .column,
     reference .scope "%\x7b" .scope,
     reference .macroRef "#\x7b" .macroRef,
     word .identifier name? fun cs => .name (String.ofList cs)]

/-! ### Expressions -/

/-- A primary with the signs before it. -/
def operand (inner : Parser (Decoded Expr)) : Parser (Decoded Operand) := do
  let signs ← many sign
  gap
  let e ← primary inner
  return e.map fun e => ⟨signs, e⟩

/-- An operator and the operand after it. -/
def link (inner : Parser (Decoded Expr)) : Parser (Decoded (BinaryOp × Operand)) := do
  let op ← operator
  let x ← operand inner
  return x.map fun x => (op, x)

/-- A chain of operands. -/
def chain (inner : Parser (Decoded Expr)) : Parser (Decoded Expr) := do
  let first ← operand inner
  let rest ← many (link inner)
  return do return Chain.tree ⟨← first, ← rest.mapM id⟩

/-- An expression, after any gap, with parentheses nested at most `n` deep. -/
def expression : Nat → Parser (Decoded Expr)
  | 0 => fail
  | n + 1 => do
    gap
    rule .expression (chain (expression n))

/-- The end of the text. -/
def atEnd : Parser Unit := fun c a => if c.rest.isEmpty then (some ((), c), a) else (none, a)

/-- A whole text.  Each pair of parentheses takes two characters, so its length bounds the nesting. -/
def whole (length : Nat) : Parser (Decoded Expr) :=
  rule .whole do
    let e ← expression (length + 1)
    gap
    rule .endOfInput atEnd
    return e

end Grammar

end Rowwise
