import Rowwise.Value.Fault

/-!
# Rowwise.Expr.Escape — escapes in texts and bracketed names

A backslash with `n`, `t` or `r` stands for a control character, with `u` and four hexadecimal digits for the character
of that number, and with any other character for that character.
-/

namespace Rowwise.Escape

/-- The value of a hexadecimal digit. -/
def hexDigit? (c : Char) : Option Nat :=
  if c.isDigit then some (c.toNat - '0'.toNat)
  else if 'a' ≤ c ∧ c ≤ 'f' then some (c.toNat - 'a'.toNat + 10)
  else if 'A' ≤ c ∧ c ≤ 'F' then some (c.toNat - 'A'.toNat + 10)
  else none

/-- The number that hexadecimal digits write. -/
def hexValue? (cs : List Char) : Option Nat :=
  cs.foldlM (fun n c => (hexDigit? c).map (16 * n + ·)) 0

/-- The character that four characters name: a hexadecimal number, which may start with a plus sign. -/
def character? (cs : List Char) : Option Char := do
  let digits := match cs with
    | '+' :: rest => rest
    | cs => cs
  let n ← hexValue? digits
  if n.isValidChar then some (Char.ofNat n) else none

/-- Resolves the escapes of a text. -/
def decode : List Char → Except Malformed (List Char)
  | [] => .ok []
  | '\\' :: 'n' :: rest => (decode rest).map ('\n' :: ·)
  | '\\' :: 't' :: rest => (decode rest).map ('\t' :: ·)
  | '\\' :: 'r' :: rest => (decode rest).map ('\r' :: ·)
  | '\\' :: 'u' :: a :: b :: c :: d :: rest =>
    match character? [a, b, c, d] with
    | some x => (decode rest).map (x :: ·)
    | none => .error (.badUnicode (String.ofList [a, b, c, d]))
  | '\\' :: 'u' :: rest => .error (.badUnicode (String.ofList rest))
  | '\\' :: c :: rest => (decode rest).map (c :: ·)
  | ['\\'] => .error .danglingEscape
  | c :: rest => (decode rest).map (c :: ·)

end Rowwise.Escape
