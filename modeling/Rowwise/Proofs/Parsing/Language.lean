import Rowwise.Expr.Grammar

/-!
# Rowwise.Proofs.Parsing.Language — the language of expressions

What an expression is, without a way to read it.  The strata order the operators: an expression of a stratum is an
expression of the next one, or joins two expressions by an operator of the stratum.  The left side of a joining is of the
same stratum and the right side of the next, so equal operators group to the left; only powers have a primary on the left
and may have signs on the right.  Between words there may be gaps.

No rule looks at what comes after an expression or prefers one rule to another.
-/

namespace Rowwise

/-! ### Words -/

namespace Spelling

/-- Blanks, tabs and ends of lines. -/
def Gap (cs : List Char) : Prop := ∀ c ∈ cs, Parser.isGap c = true

/-- One digit or more. -/
structure Digits (cs : List Char) : Prop where
  nonempty : cs ≠ []
  digits : ∀ c ∈ cs, c.isDigit = true

/-- True for the marks of an exponent. -/
def isMark (c : Char) : Bool := c = 'e' || c = 'E'

/-- An exponent, with a sign or without. -/
inductive Exponent : List Char → Prop where
  | unsigned {e ds} : isMark e = true → Digits ds → Exponent (e :: ds)
  | signed {e sign ds} : isMark e = true → sign = '+' ∨ sign = '-' → Digits ds → Exponent (e :: sign :: ds)

/-- An exponent or nothing. -/
def Exponent? (cs : List Char) : Prop := cs = [] ∨ Exponent cs

/-- A number with a point or an exponent. -/
inductive Fractional : List Char → Prop where
  | whole {ds fs ex} : Digits ds → (∀ c ∈ fs, c.isDigit = true) → Exponent? ex → Fractional (ds ++ '.' :: (fs ++ ex))
  | fraction {ds ex} : Digits ds → Exponent? ex → Fractional ('.' :: (ds ++ ex))
  | scaled {ds ex} : Digits ds → Exponent ex → Fractional (ds ++ ex)

/-- A name. -/
inductive Name : List Char → Prop where
  | intro {c cs} : Grammar.startsName c = true → (∀ d ∈ cs, Grammar.continuesName d = true) → Name (c :: cs)

/-- The inside of a text or of a bracketed name, in which a backslash takes the next character along. -/
inductive Body (close : Char) : List Char → Prop where
  | nil : Body close []
  | plain {c cs} : c ≠ close → c ≠ '\\' → Body close cs → Body close (c :: cs)
  | escaped {c cs} : Body close cs → Body close ('\\' :: c :: cs)

/-- The inside of a reference in braces. -/
structure Reference (cs : List Char) : Prop where
  nonempty : cs ≠ []
  open_ : '\x7d' ∉ cs

/-- A word that is an expression. -/
inductive Word : List Char → Expr → Prop where
  | integer {cs x} : Digits cs → Double.read? cs = some x → Word cs (.integer x)
  | double {cs x} : Fractional cs → Double.read? cs = some x → Word cs (.double x)
  | text {raw cs} : Body '"' raw → Escape.decode raw = .ok cs → Word ('"' :: (raw ++ ['"'])) (.text (String.ofList cs))
  | column {raw cs} : raw ≠ [] → Body ']' raw → Escape.decode raw = .ok cs →
      Word ('[' :: (raw ++ [']'])) (.column (String.ofList cs))
  | scope {cs} : Reference cs → Word ('%' :: '\x7b' :: (cs ++ ['\x7d'])) (.scope (String.ofList cs))
  | macroRef {cs} : Reference cs → Word ('#' :: '\x7b' :: (cs ++ ['\x7d'])) (.macroRef (String.ofList cs))
  | name {cs} : Name cs → Word cs (.name (String.ofList cs))

end Spelling

/-! ### Strata -/

/-- The strata of expressions, from the outermost. -/
inductive Stratum where
  /-- An expression with gaps around it. -/
  | whole
  | disjunction
  | conjunction
  | equality
  | order
  | sum
  | product
  | signed
  | power
  | primary
deriving DecidableEq, Repr

namespace Stratum

/-- The operators that join expressions to the left. -/
def operators : Stratum → List BinaryOp
  | disjunction => [.or]
  | conjunction => [.and]
  | equality => [.equal, .unequal]
  | order => [.less, .atMost, .greater, .atLeast]
  | sum => [.add, .subtract]
  | product => [.multiply, .divide, .remainder]
  | whole | signed | power | primary => []

/-- The stratum within. -/
def next? : Stratum → Option Stratum
  | disjunction => some conjunction
  | conjunction => some equality
  | equality => some order
  | order => some sum
  | sum => some product
  | product => some signed
  | signed => some power
  | power => some primary
  | whole | primary => none

open Spelling in
/-- The characters are an expression of the stratum. -/
inductive Derives : Stratum → List Char → Expr → Prop where
  | whole {g cs h e} : Gap g → Derives disjunction cs e → Gap h → Derives whole (g ++ (cs ++ h)) e
  | next {s t cs e} : s.next? = some t → Derives t cs e → Derives s cs e
  | binary {s t op ls g h rs l r} : s.next? = some t → op ∈ s.operators → Derives s ls l → Gap g → Gap h →
      Derives t rs r → Derives s (ls ++ (g ++ (op.symbol.toList ++ (h ++ rs)))) (.binary op l r)
  | sign {op g cs e} : Gap g → Derives signed cs e → Derives signed (op.symbol.toList ++ (g ++ cs)) (.unary op e)
  | power {ls g h rs l r} : Derives primary ls l → Gap g → Gap h → Derives signed rs r →
      Derives power (ls ++ (g ++ (BinaryOp.power.symbol.toList ++ (h ++ rs)))) (.binary .power l r)
  | word {cs e} : Word cs e → Derives primary cs e
  | grouped {cs e} : Derives whole cs e → Derives primary ('(' :: (cs ++ [')'])) e
  | callEmpty {name g h} : Name name → Gap g → Gap h →
      Derives primary (name ++ (g ++ '(' :: (h ++ [')']))) (.call (String.ofList name) [])
  | call {name g args} : Name name → Gap g → args ≠ [] → (∀ a ∈ args, Derives whole a.1 a.2) →
      Derives primary (name ++ (g ++ '(' :: ([','].intercalate (args.map Prod.fst) ++ [')'])))
        (.call (String.ofList name) (args.map Prod.snd))

/-- A primary is an expression of every stratum around it. -/
theorem Derives.whole_of_primary {cs : List Char} {e : Expr} (h : primary.Derives cs e) : Stratum.whole.Derives cs e := by
  have hsigned : signed.Derives cs e := .next rfl (.next rfl h)
  have hequality : equality.Derives cs e := .next rfl (.next rfl (.next rfl (.next rfl hsigned)))
  have hgap : Spelling.Gap [] := nofun
  simpa using Derives.whole hgap (.next rfl (.next rfl hequality)) hgap

/-- A call of a function with one argument, with a gap before the parenthesis or without. -/
theorem Derives.call_one {name g cs : List Char} {e : Expr} (hname : Spelling.Name name) (hg : Spelling.Gap g)
    (h : Stratum.whole.Derives cs e) :
    Stratum.whole.Derives (name ++ (g ++ '(' :: (cs ++ [')']))) (.call (String.ofList name) [e]) := by
  have hcall := @Derives.call name g [(cs, e)] hname hg (by simp) (by simpa using h)
  simpa [List.intercalate] using hcall.whole_of_primary

theorem Derives.of_whole {cs : List Char} {e : Expr} (h : Stratum.whole.Derives cs e) :
    ∃ g ds k, cs = g ++ (ds ++ k) ∧ Spelling.Gap g ∧ Derives disjunction ds e ∧ Spelling.Gap k := by
  cases h with
  | whole hg he hk => exact ⟨_, _, _, rfl, hg, he, hk⟩
  | next hnext => cases hnext
  | binary hnext => cases hnext

end Stratum

end Rowwise
