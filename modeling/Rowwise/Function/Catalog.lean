import Rowwise.Function.Strict

/-!
# Rowwise.Function.Catalog — the standard functions

Every operator is a function named by its symbol.  A function has a name, a group, a usage line, the counts of arguments
that it accepts and, for most, the types that it accepts at each place.
-/

namespace Rowwise

/-- What listings show of a function, and the counts of arguments that it accepts. -/
structure Signature where
  name : String
  group : String
  usage : String
  arity : Arity
deriving DecidableEq, Repr

/-- Functions of any number of arguments, between which the host may cancel the job. -/
inductive Aggregate where
  | least
  | greatest
  | sum
  | mean
  /-- Joins texts. -/
  | concat
deriving DecidableEq, Repr

/-- The standard functions. -/
inductive Builtin where
  | plus
  | minus
  | number (f : NumberFunction)
  | order (o : Order)
  | equality (negated : Bool)
  | logic (l : Logic)
  | isMissing
  | text (f : TextFunction)
  | calendar (f : CalendarFunction)
  | aggregate (f : Aggregate)
  | binomial
  | choose
  | eval
  | columnNamed
  | macroNamed
  | now
  /-- Random numbers; only with a host. -/
  | random
  /-- Parameters of the host's job; only with a host. -/
  | parameter
deriving DecidableEq, Repr

namespace Signature

/-- An operator between two arguments. -/
def binary (group symbol : String) : Signature := ⟨symbol, group, "a " ++ symbol ++ " b", .exact 2⟩

/-- A function of mathematics with one argument. -/
def math (name : String) : Signature := ⟨name, "math", name ++ "(x)", .exact 1⟩

/-- A function with these words for its arguments. -/
def named (group name arguments : String) (arity : Arity) : Signature :=
  ⟨name, group, name ++ "(" ++ arguments ++ ")", arity⟩

end Signature

/-- The signatures of functions of numbers. -/
def NumberFunction.signature : NumberFunction → Signature
  | negate | subtract => ⟨"-", "arithmetic", "a - b", .between 1 2⟩
  | add => ⟨"+", "arithmetic", "a + b", .between 1 2⟩
  | multiply => .binary "arithmetic" "*"
  | divide => .binary "arithmetic" "/"
  | remainder => .binary "arithmetic" "%"
  | power => .binary "arithmetic" "^"
  | squareRoot => .math "sqrt"
  | exponential => .math "exp"
  | logarithm => .math "ln"
  | decimalLogarithm => .math "log"
  | binaryLogarithm => .math "ld"
  | sign => .math "signum"
  | absolute => .math "abs"
  | floor => .math "floor"
  | ceiling => .math "ceil"
  | halfEven => .math "rint"
  | round => .named "math" "round" "x[, digits]" (.between 1 2)
  | sine => .math "sin"
  | cosine => .math "cos"
  | tangent => .math "tan"
  | cotangent => .math "cot"
  | secant => .math "sec"
  | cosecant => .math "cosec"
  | arcSine => .math "asin"
  | arcCosine => .math "acos"
  | arcTangent => .math "atan"
  | angle => .named "math" "atan2" "y, x" (.exact 2)
  | hyperbolicSine => .math "sinh"
  | hyperbolicCosine => .math "cosh"
  | hyperbolicTangent => .math "tanh"
  | areaSine => .math "asinh"
  | areaCosine => .math "acosh"
  | areaTangent => .math "atanh"
  | bitOr => .named "math" "bit_or" "a, b" (.exact 2)
  | bitAnd => .named "math" "bit_and" "a, b" (.exact 2)
  | bitXor => .named "math" "bit_xor" "a, b" (.exact 2)
  | bitNot => .named "math" "bit_not" "a" (.exact 1)

/-- The signatures of comparisons. -/
def Order.signature : Order → Signature
  | less => .binary "comparison" "<"
  | atMost => .binary "comparison" "<="
  | greater => .binary "comparison" ">"
  | atLeast => .binary "comparison" ">="

/-- The signatures of functions of truth values. -/
def Logic.signature : Logic → Signature
  | and => .binary "logical" "&&"
  | or => .binary "logical" "||"
  | not => ⟨"!", "logical", "!a", .exact 1⟩

/-- The signatures of functions of texts. -/
def TextFunction.signature : TextFunction → Signature
  | text => .named "text" "str" "value" (.exact 1)
  | parse => .named "text" "parse" "text" (.exact 1)
  | cut => .named "text" "cut" "text, start, length" (.exact 3)
  | replace => .named "text" "replace" "text, search, replacement" (.exact 3)
  | replaceAll => .named "text" "replaceAll" "text, regex, replacement" (.exact 3)
  | lower => .named "text" "lower" "text" (.exact 1)
  | upper => .named "text" "upper" "text" (.exact 1)
  | trim => .named "text" "trim" "text" (.exact 1)
  | length => .named "text" "length" "text" (.exact 1)
  | index => .named "text" "index" "text, search" (.exact 2)
  | char => .named "text" "char" "text, index" (.exact 2)
  | compare => .named "text" "compare" "a, b" (.exact 2)
  | contains => .named "text" "contains" "text, search" (.exact 2)
  | equals => .named "text" "equals" "a, b" (.exact 2)
  | starts => .named "text" "starts" "text, prefix" (.exact 2)
  | ends => .named "text" "ends" "text, suffix" (.exact 2)
  | wholeMatch => .named "text" "matches" "text, regex" (.exact 2)
  | partMatch => .named "text" "finds" "text, regex" (.exact 2)
  | first => .named "text" "prefix" "text, length" (.exact 2)
  | last => .named "text" "suffix" "text, length" (.exact 2)
  | escapeMarkup => .named "text" "escape_html" "text" (.exact 1)

/-- The signatures of functions of instants and times of day. -/
def CalendarFunction.signature : CalendarFunction → Signature
  | dateDiff => .named "calendar" "date_diff" "from, to, unit[, zone]" (.between 3 4)
  | dateAdd => .named "calendar" "date_add" "date, amount, unit[, zone]" (.between 3 4)
  | dateSet => .named "calendar" "date_set" "date, value, unit[, zone]" (.between 3 4)
  | dateGet => .named "calendar" "date_get" "date, unit[, zone]" (.between 2 3)
  | dateOfText => .named "calendar" "date_parse_str" "text[, pattern[, locale[, zone]]]" (.between 1 4)
  | dateText => .named "calendar" "date_str" "date[, pattern[, locale[, zone]]]" (.between 1 4)
  | dateBefore => .named "calendar" "date_before" "a, b" (.exact 2)
  | dateAfter => .named "calendar" "date_after" "a, b" (.exact 2)
  | dateMillis => .named "calendar" "date_millis" "date" (.exact 1)
  | dateOfMillis => .named "calendar" "date_parse" "millis" (.exact 1)
  | timeDiff => .named "calendar" "time_diff" "from, to, unit" (.exact 3)
  | timeAdd => .named "calendar" "time_add" "time, amount, unit" (.exact 3)
  | timeSet => .named "calendar" "time_set" "time, value, unit" (.exact 3)
  | timeGet => .named "calendar" "time_get" "time, unit" (.exact 2)
  | timeOfText => .named "calendar" "time_parse_str" "text[, pattern[, locale]]" (.between 1 3)
  | timeText => .named "calendar" "time_str" "time[, pattern[, locale]]" (.between 1 3)

/-- The signatures of functions of any number of arguments. -/
def Aggregate.signature : Aggregate → Signature
  | least => .named "math" "min" "x, ..." (.atLeast 1)
  | greatest => .named "math" "max" "x, ..." (.atLeast 1)
  | sum => .named "math" "sum" "x, ..." (.atLeast 1)
  | mean => .named "math" "avg" "x, ..." (.atLeast 1)
  | concat => .named "text" "concat" "text, ..." (.atLeast 0)

namespace Builtin

/-- The signature of a function. -/
def signature : Builtin → Signature
  | plus => NumberFunction.add.signature
  | minus => NumberFunction.subtract.signature
  | number f => f.signature
  | order o => o.signature
  | equality false => .binary "comparison" "=="
  | equality true => .binary "comparison" "!="
  | logic l => l.signature
  | isMissing => .named "advanced" "missing" "value" (.exact 1)
  | text f => f.signature
  | calendar f => f.signature
  | aggregate f => f.signature
  | binomial => .named "math" "binom" "n, k" (.exact 2)
  | choose => .named "advanced" "if" "condition, then, else" (.exact 3)
  | eval => .named "advanced" "eval" "expression[, type]" (.between 1 2)
  | columnNamed => .named "advanced" "attribute" "name[, type]" (.between 1 2)
  | macroNamed => .named "advanced" "macro" "name[, default]" (.between 1 2)
  | now => .named "calendar" "date_now" "" (.exact 0)
  | random => .named "process" "rand" "[seed]" (.between 0 1)
  | parameter => .named "process" "param" "operator, parameter" (.exact 2)

/-- The name of a function. -/
def name (b : Builtin) : String := b.signature.name

/-- The functions of numbers that have a name of their own. -/
def numbers : List NumberFunction :=
  [.multiply, .divide, .remainder, .power, .squareRoot, .exponential, .logarithm, .decimalLogarithm, .binaryLogarithm,
    .sign, .absolute, .floor, .ceiling, .halfEven, .round, .sine, .cosine, .tangent, .cotangent, .secant, .cosecant,
    .arcSine, .arcCosine, .arcTangent, .angle, .hyperbolicSine, .hyperbolicCosine, .hyperbolicTangent, .areaSine,
    .areaCosine, .areaTangent, .bitOr, .bitAnd, .bitXor, .bitNot]

/-- All functions of texts. -/
def texts : List TextFunction :=
  [.text, .parse, .cut, .replace, .replaceAll, .lower, .upper, .trim, .length, .index, .char, .compare, .contains,
    .equals, .starts, .ends, .wholeMatch, .partMatch, .first, .last, .escapeMarkup]

/-- All functions of instants and times of day. -/
def calendars : List CalendarFunction :=
  [.dateDiff, .dateAdd, .dateSet, .dateGet, .dateOfText, .dateText, .dateBefore, .dateAfter, .dateMillis,
    .dateOfMillis, .timeDiff, .timeAdd, .timeSet, .timeGet, .timeOfText, .timeText]

/-- The functions that need no host. -/
def standard : List Builtin :=
  [plus, minus] ++ numbers.map number ++ [Order.less, .atMost, .greater, .atLeast].map order ++
    [equality false, equality true] ++ [Logic.and, .or, .not].map logic ++ texts.map text ++
    calendars.map calendar ++ [Aggregate.least, .greatest, .sum, .mean, .concat].map aggregate ++
    [isMissing, binomial, choose, eval, columnNamed, macroNamed, now]

/-- The functions that a host brings along. -/
def ofHost : List Builtin := [random, parameter]

/-- The types accepted at each place; the last entry holds for all places behind it. -/
def params : Builtin → List Param
  | plus | minus | number _ | binomial | random => [.number]
  | aggregate .concat => [.text]
  | aggregate _ => [.number]
  | logic _ => [.condition]
  | text .text | order _ | equality _ | isMissing | now => [.any]
  | text .cut => [.text, .number, .number]
  | text .char | text .first | text .last => [.text, .number]
  | text _ | eval | columnNamed | macroNamed | parameter => [.text]
  | calendar .dateDiff => [.instant, .instant, .text]
  | calendar .dateAdd | calendar .dateSet => [.instant, .number, .text]
  | calendar .dateGet | calendar .dateText => [.instant, .text]
  | calendar .dateOfText | calendar .timeOfText => [.text]
  | calendar .dateBefore | calendar .dateAfter | calendar .dateMillis => [.instant]
  | calendar .dateOfMillis => [.number]
  | calendar .timeDiff => [.timeOfDay, .timeOfDay, .text]
  | calendar .timeAdd | calendar .timeSet => [.timeOfDay, .number, .text]
  | calendar .timeGet | calendar .timeText => [.timeOfDay, .text]
  | choose => [.condition, .any]

end Builtin

/-- The first type that is not accepted at its place; places are counted from `position`. -/
def badParam? (position : Nat) : List Param → List ValueType → Option TypeCause
  | _, [] => none
  | [], _ => none
  | [p], t :: ts => if p.accepts t then badParam? (position + 1) [p] ts else some (.argument position p t)
  | p :: ps, t :: ts => if p.accepts t then badParam? (position + 1) ps ts else some (.argument position p t)

end Rowwise
