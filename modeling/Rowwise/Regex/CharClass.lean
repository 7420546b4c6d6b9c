import Rowwise.Text.Blank
import Rowwise.Text.Case
import Rowwise.Text.Category

/-!
# Rowwise.Regex.CharClass — sets of characters

The sets that patterns name, and the operations between them.
-/

namespace Rowwise.Regex

/-- A set of characters. -/
inductive CharClass where
  /-- The characters from `lo` to `hi`. -/
  | range (lo hi : Char)
  /-- The characters of words. -/
  | word
  | digit
  | blank
  | any
  /-- The characters of the general categories with these short names. -/
  | categories (names : List String)
  | nothing
  | union (a b : CharClass)
  | common (a b : CharClass)
  | without (a b : CharClass)
  | either (a b : CharClass)
  | complement (a : CharClass)
  /-- The set together with the other cases of its characters. -/
  | anyCase (a : CharClass)
deriving DecidableEq, Repr

namespace CharClass

/-- True if the set has the character. -/
def contains : CharClass → Char → Bool
  | range lo hi, c => lo ≤ c && c ≤ hi
  | word, c => Text.isWordChar c
  | digit, c => Text.isDecimal c
  | blank, c => Text.isBlank c
  | any, _ => true
  | categories names, c => Text.hasAnyCategory names c
  | nothing, _ => false
  | union a b, c => a.contains c || b.contains c
  | common a b, c => a.contains c && b.contains c
  | without a b, c => a.contains c && !b.contains c
  | either a b, c => a.contains c != b.contains c
  | complement a, c => !a.contains c
  | anyCase a, c => a.contains c || (Text.sameLetter c).any fun d => a.contains d

/-- The set of one character. -/
def single (c : Char) : CharClass := range c c

/-- The set of the characters of some ranges. -/
def ranges (rs : List (Char × Char)) : CharClass := rs.foldr (fun r s => union (range r.1 r.2) s) nothing

/-- The digits and letters of words among the first 128 characters. -/
def asciiWord : CharClass := ranges [('0', '9'), ('A', 'Z'), ('_', '_'), ('a', 'z')]

/-- The digits among the first 128 characters. -/
def asciiDigit : CharClass := range '0' '9'

/-- The blanks among the first 128 characters. -/
def asciiBlank : CharClass := ranges [('\t', '\r'), (' ', ' ')]

/-- The sets that brackets and colons name, all among the first 128 characters. -/
def bracketNames : List (String × CharClass) :=
  [("alnum", ranges [('0', '9'), ('A', 'Z'), ('a', 'z')]),
   ("alpha", ranges [('A', 'Z'), ('a', 'z')]),
   ("ascii", range '\x00' '\x7f'),
   ("blank", ranges [('\t', '\t'), (' ', ' ')]),
   ("cntrl", ranges [('\x00', '\x1f'), ('\x7f', '\x7f')]),
   ("digit", asciiDigit),
   ("graph", range '!' '~'),
   ("lower", range 'a' 'z'),
   ("print", range ' ' '~'),
   ("punct", ranges [('!', '/'), (':', '@'), ('[', '\x60'), ('\x7b', '~')]),
   ("space", asciiBlank),
   ("upper", range 'A' 'Z'),
   ("word", asciiWord),
   ("xdigit", ranges [('0', '9'), ('A', 'F'), ('a', 'f')])]

/-! ### Properties -/

/-- The names of the general categories and of groups of them, each with the short names of its members. -/
def categoryNames : List (List String × List String) :=
  [(["lu", "uppercaseletter"], ["Lu"]),
   (["ll", "lowercaseletter"], ["Ll"]),
   (["lt", "titlecaseletter"], ["Lt"]),
   (["lc", "casedletter"], ["Lu", "Ll", "Lt"]),
   (["lm", "modifierletter"], ["Lm"]),
   (["lo", "otherletter"], ["Lo"]),
   (["l", "letter"], ["Lu", "Ll", "Lt", "Lm", "Lo"]),
   (["mn", "nonspacingmark"], ["Mn"]),
   (["mc", "spacingmark"], ["Mc"]),
   (["me", "enclosingmark"], ["Me"]),
   (["m", "mark", "combiningmark"], ["Mn", "Mc", "Me"]),
   (["nd", "decimalnumber", "digit"], ["Nd"]),
   (["nl", "letternumber"], ["Nl"]),
   (["no", "othernumber"], ["No"]),
   (["n", "number"], ["Nd", "Nl", "No"]),
   (["pc", "connectorpunctuation"], ["Pc"]),
   (["pd", "dashpunctuation"], ["Pd"]),
   (["ps", "openpunctuation"], ["Ps"]),
   (["pe", "closepunctuation"], ["Pe"]),
   (["pi", "initialpunctuation"], ["Pi"]),
   (["pf", "finalpunctuation"], ["Pf"]),
   (["po", "otherpunctuation"], ["Po"]),
   (["p", "punctuation", "punct"], ["Pc", "Pd", "Ps", "Pe", "Pi", "Pf", "Po"]),
   (["sm", "mathsymbol"], ["Sm"]),
   (["sc", "currencysymbol"], ["Sc"]),
   (["sk", "modifiersymbol"], ["Sk"]),
   (["so", "othersymbol"], ["So"]),
   (["s", "symbol"], ["Sm", "Sc", "Sk", "So"]),
   (["zs", "spaceseparator"], ["Zs"]),
   (["zl", "lineseparator"], ["Zl"]),
   (["zp", "paragraphseparator"], ["Zp"]),
   (["z", "separator"], ["Zs", "Zl", "Zp"]),
   (["cc", "control", "cntrl"], ["Cc"]),
   (["cf", "format"], ["Cf"]),
   (["co", "privateuse"], ["Co"])]

/-- The short names of all categories that have a table. -/
def assignedNames : List String := Text.categories.map (·.1)

/-- The category of the characters that no other category has. -/
def unassigned : CharClass := complement (categories assignedNames)

/-- Names of properties are compared without case, blanks, hyphens and underscores, and without `is` in front. -/
def looseName (cs : List Char) : String :=
  let cs := (Text.lowerAscii cs).filter fun c => !(c = ' ' || c = '-' || c = '_' || Text.isBlank c)
  match cs with
  | 'i' :: 's' :: rest => String.ofList rest
  | cs => String.ofList cs

/-- The set that a name of a general category stands for. -/
def category? (name : String) : Option CharClass :=
  if name = "cn" ∨ name = "unassigned" then some unassigned
  else if name = "c" ∨ name = "other" then some (union unassigned (categories ["Cc", "Cf", "Co"]))
  else (categoryNames.find? fun p => name ∈ p.1).map fun p => categories p.2

/-- The set that the name of a property stands for. -/
def property? (cs : List Char) : Option CharClass :=
  match looseName cs with
  | "any" => some any
  | "ascii" => some (range '\x00' '\x7f')
  | "assigned" => some (categories assignedNames)
  | "whitespace" | "space" | "wspace" => some blank
  | name => category? name

/-- The set that a name of a property with a value stands for. -/
def propertyValue? (key value : List Char) : Option CharClass :=
  match looseName key with
  | "generalcategory" | "gc" => category? (looseName value)
  | _ => none

end CharClass

end Rowwise.Regex
