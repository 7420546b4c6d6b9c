/-!
# Rowwise.Text.Search — finding and replacing characters

A text is a list of characters, and positions and lengths count characters.  `indexOf?` is the least position of an
occurrence, `replace` replaces occurrences from left to right, each search going on behind the last one.
-/

namespace Rowwise.Text

/-- What is left of `cs` after `p` in front of it. -/
def dropPrefix? : List Char → List Char → Option (List Char)
  | [], cs => some cs
  | _ :: _, [] => none
  | p :: ps, c :: cs => if p = c then dropPrefix? ps cs else none

theorem dropPrefix?_eq_some_iff {p cs rest : List Char} :
    dropPrefix? p cs = some rest ↔ cs = p ++ rest := by
  induction p generalizing cs with
  | nil => simp [dropPrefix?, eq_comm]
  | cons a p ih =>
    cases cs with
    | nil => simp [dropPrefix?]
    | cons c cs =>
      by_cases h : a = c
      · subst h; simp [dropPrefix?, ih]
      · simp [dropPrefix?, h, Ne.symm h]

/-- True if `cs` begins with `p`. -/
def startsWith (p cs : List Char) : Bool := (dropPrefix? p cs).isSome

/-- True if `cs` ends with `p`. -/
def endsWith (p cs : List Char) : Bool := startsWith p.reverse cs.reverse

/-- The least number of characters in front of an occurrence of `p` in `cs`. -/
def indexOf? (p : List Char) : List Char → Option Nat
  | [] => if p.isEmpty then some 0 else none
  | c :: cs => if startsWith p (c :: cs) then some 0 else (indexOf? p cs).map (· + 1)

/-- True if `p` occurs in `cs`. -/
def occursIn (p cs : List Char) : Bool := (indexOf? p cs).isSome

theorem occursIn_iff {p cs : List Char} : occursIn p cs = true ↔ p <:+: cs := by
  induction cs with
  | nil => simp [occursIn, indexOf?]
  | cons c cs ih =>
    have hstart : startsWith p (c :: cs) = true ↔ p <+: c :: cs := by
      simp only [startsWith, Option.isSome_iff_exists, dropPrefix?_eq_some_iff]
      exact ⟨fun ⟨rest, h⟩ => ⟨rest, h.symm⟩, fun ⟨rest, h⟩ => ⟨rest, h.symm⟩⟩
    rw [List.infix_cons_iff, ← ih, ← hstart]
    unfold occursIn
    rw [indexOf?]
    split
    · rename_i h
      simp [h]
    · rename_i h
      simp [h]

/-- Replaces every occurrence of `search`, which is not empty; `skip` counts characters of the last occurrence that
are still to be passed over. -/
def replaceFrom (search replacement : List Char) : (skip : Nat) → List Char → List Char
  | _, [] => []
  | skip + 1, _ :: cs => replaceFrom search replacement skip cs
  | 0, c :: cs =>
    if startsWith search (c :: cs) then replacement ++ replaceFrom search replacement (search.length - 1) cs
    else c :: replaceFrom search replacement 0 cs

/-- Replaces every occurrence of `search`, which is not empty, from left to right. -/
def replace (search replacement cs : List Char) : List Char := replaceFrom search replacement 0 cs

/-- The part before and the part after the first `c`. -/
def splitAt? (c : Char) : List Char → Option (List Char × List Char)
  | [] => none
  | d :: cs => if d = c then some ([], cs) else (splitAt? c cs).map fun (a, b) => (d :: a, b)

/-- The part before and the part after the first `!=`. -/
def splitUnequal? : List Char → Option (List Char × List Char)
  | [] => none
  | '!' :: '=' :: cs => some ([], cs)
  | c :: cs => (splitUnequal? cs).map fun (a, b) => (c :: a, b)

/-- The characters that markup reserves are written as character references. -/
def escapeMarkup : List Char → List Char
  | [] => []
  | c :: cs =>
    let written :=
      match c with
      | '&' => "&amp;".toList
      | '<' => "&lt;".toList
      | '>' => "&gt;".toList
      | '"' => "&quot;".toList
      | '\'' => "&#39;".toList
      | c => [c]
    written ++ escapeMarkup cs

end Rowwise.Text
