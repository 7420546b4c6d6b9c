import Rowwise.Eval.Evaluate

/-!
# Rowwise.Eval.Build — nodes for calls of functions

A call is checked against the counts and types of arguments that its function accepts.  Constants that can be judged
before any row is read are judged here: patterns, units, zones, locales, fields, missing operands.
-/

namespace Rowwise

/-! ### Checks of constants -/

/-- A check of a constant argument, given by its place. -/
inductive ConstantCheck where
  | unit (place : Nat)
  | unitOfDay (place : Nat) (days : Bool)
  | zone (place : Nat)
  | locale (place : Nat)
  | datePattern (place : Nat)
  /-- The field at one place of the unit at another. -/
  | field (place unitPlace : Nat) (ofDay : Bool)
  | regex (place : Nat) (whole : Bool)
deriving DecidableEq, Repr

namespace ConstantCheck

/-- The result of a reading, which is not kept. -/
def judged {α : Type} (x : Except ValueCause α) : Except ValueCause Unit := x.map fun _ => ()

/-- The constant text at a place, if it is not missing. -/
def textOf (constants : List (Option Value)) (place : Nat) : Option String :=
  (constants[place]?.bind id).bind Value.text?

/-- Judges the text at a place, if it is constant and not missing. -/
def onText {α : Type} (constants : List (Option Value)) (place : Nat) (read : String → Except ValueCause α) :
    Except ValueCause Unit :=
  match textOf constants place with
  | some s => judged (read s)
  | none => .ok ()

/-- Judges a constant field of a constant unit. -/
def checkField (constants : List (Option Value)) (place unitPlace : Nat) (ofDay : Bool) : Except ValueCause Unit := do
  match (constants[place]?.bind id).bind Value.number?, textOf constants unitPlace with
  | some x, some s =>
    if Double.isMissing x then return ()
    let unit ← if ofDay then readUnitOfDay false s else readUnit s
    let (lo, hi) := unit.range
    judged (onCalendar (fieldValue unit lo hi x))
  | _, _ => return ()

/-- Judges the constants among the arguments. -/
def run (constants : List (Option Value)) : ConstantCheck → Except ValueCause Unit
  | unit place => onText constants place readUnit
  | unitOfDay place days => onText constants place (readUnitOfDay days)
  | zone place => onText constants place readZone
  | locale place => onText constants place readLocale
  | datePattern place => onText constants place (readItems .posix)
  | field place unitPlace ofDay => checkField constants place unitPlace ofDay
  | regex place whole =>
    if place < constants.length then onText constants place (readPattern whole) else .error .lostArgument

end ConstantCheck

/-- The checks for functions of texts. -/
def TextFunction.checks : TextFunction → List ConstantCheck
  | replaceAll | partMatch => [.regex 1 false]
  | wholeMatch => [.regex 1 true]
  | _ => []

/-- The checks for functions of instants and times of day, in their order. -/
def CalendarFunction.checks : CalendarFunction → List ConstantCheck
  | dateDiff | dateAdd => [.unit 2, .zone 3]
  | dateSet => [.unit 2, .zone 3, .field 1 2 false]
  | dateGet => [.unit 1, .zone 2]
  | dateOfText | dateText => [.datePattern 1, .locale 2, .zone 3]
  | timeDiff | timeAdd => [.unitOfDay 2 true]
  | timeSet => [.unitOfDay 2 false, .field 1 2 true]
  | timeGet => [.unitOfDay 1 false]
  | timeOfText | timeText => [.datePattern 1, .locale 2]
  | _ => []

namespace Node

/-- Fails with the first check that the constants among the arguments do not pass. -/
def checkConstants (function : String) (args : List Node) (checks : List ConstantCheck) : Run Unit :=
  Run.valueOf function (checks.forM fun check => check.run (args.map constant?))

/-- Fails with the first argument of a type that is not accepted. -/
def checkParams (function : String) (args : List Node) (params : List Param) : Run Unit :=
  match badParam? 1 params (args.map type) with
  | some cause => Run.fail (.type function cause)
  | none => return ()

/-! ### Conversions and operators -/

/-- The node converted to a type on behalf of a function. -/
def converted (c : Context) (function : String) (n : Node) (target : ValueType) : Run Node :=
  if n.type.castable target then
    if n.type = target then return n else (convert function target n).fold c
  else Run.fail (.type function (.unconvertible n.type target))

/-- The common type of two branches: numbers join, all else meets in texts. -/
def branchType (a b : ValueType) : ValueType :=
  if a = b then a else if a.isNumeric && b.isNumeric then a.join b else .text

/-- A choice between two nodes. -/
def buildChoose (c : Context) (condition yes no : Node) : Run Node := do
  let type := branchType yes.type no.type
  let yes ← converted c Builtin.choose.name yes type
  let no ← converted c Builtin.choose.name no type
  match condition.constant? with
  | some v =>
    match v.truth? with
    | some true => return yes
    | some false => return no
    | none => return .const (.missing type)
  | none => return .choose type condition yes no

/-- A comparison.  Types without an order are refused at once if both sides are constant, else in each row; a constant
missing value is refused on the left and compares false on the right. -/
def buildOrder (o : Order) (a b : Node) : Run Node := do
  let name := o.signature.name
  if !comparable a.type b.type then
    let cause := .incomparable a.type b.type
    if a.isConstant && b.isConstant then Run.fail (.type name cause) else return .refuse name cause
  else if (a.constant?.map Value.isMissing).getD false then Run.fail (.value name .missingLeft)
  else if (b.constant?.map Value.isMissing).getD false then return .const (.ofBool false)
  else return .strict (.order o) .boolean [a, b]

/-- The type of a power: whole only if both sides are and the exponent is constant and not negative. -/
def powerType (base exponent : Node) : ValueType :=
  match exponent.constant?.bind Value.number? with
  | some e => if base.type.join exponent.type = .integer ∧ 0 ≤ e then .integer else .double
  | none => .double

/-- A function of numbers. -/
def number (f : NumberFunction) (args : List Node) : Node :=
  .strict (.number f) (f.result (args.map type)) args

/-! ### Types and texts found in constants -/

/-- The type that an argument of `function` names, if there is one; it must be constant. -/
def targetType (function : String) : Option Node → Run (Option ValueType)
  | none => return none
  | some n =>
    match n.constant? with
    | none => Run.fail (.type function .typeNotConstant)
    | some v =>
      match v.text? with
      | none => Run.fail (.value function .typeMissing)
      | some s =>
        match ValueType.named? s.toList with
        | none => Run.fail (.value function (.unknownType s))
        | some t => if t ∈ ValueType.targets then return some t else Run.fail (.value function (.noTarget t))

/-- The node converted, if a type is given. -/
def convertedIf (c : Context) (function : String) (n : Node) : Option ValueType → Run Node
  | some t => converted c function n t
  | none => return n

/-- What a text within an expression must not contain. -/
def selfCall : String := "eval("

/-- The node of a text given to `eval`; `read` reads texts within the expression. -/
def readText (read : String → Run Node) (s : String) : Run Node :=
  let name := Builtin.eval.name
  if Text.occursIn selfCall.toList s.toList then Run.fail (Fault.within name (.value name .evalInside))
  else Run.nested name (read s)

/-- An evaluation of a text. -/
def buildEval (c : Context) (read : String → Run Node) (text : Node) (typeNode : Option Node) : Run Node := do
  let name := Builtin.eval.name
  let target ← targetType name typeNode
  match text.constant? with
  | some v =>
    match v.text? with
    | none => return .const (.missing (target.getD .text))
    | some s =>
      let n ← readText read s
      convertedIf c name (n.marked nested) target
  | none =>
    match target with
    | some t => return .evalText t text
    | none => Run.fail (.type name .evalWithoutType)

/-- The column of that name, if there is one. -/
def columnOf? (name : String) : Run (Option Node) := do
  return ((← Run.world).column? name).map fun (source, type) => .column source name type

/-- A column found by its name. -/
def buildColumn (c : Context) (nameNode : Node) (typeNode : Option Node) : Run Node := do
  let name := Builtin.columnNamed.name
  let target ← targetType name typeNode
  match nameNode.constant? with
  | some v =>
    match v.text? with
    | none => Run.fail (.value name .attributeMissing)
    | some s =>
      match ← columnOf? s with
      | some n => convertedIf c name n target
      | none => Run.fail (.unknownName s)
  | none =>
    match target with
    | some t => return .columnNamed t nameNode
    | none => Run.fail (.type name .attributeWithoutType)

/-- A macro found by its name. -/
def buildMacro (nameNode : Node) (default : Option Node) : Run Node := do
  match nameNode.constant? with
  | some v =>
    match v.text? with
    | none => Run.fail (.value Builtin.macroNamed.name .macroMissing)
    | some s =>
      match ← Run.scope? s, default with
      | some (some text), _ => return .const (.text (some text))
      | _, some n => return n
      | some none, none => return .const (.text none)
      | none, none => Run.fail (.unknownName s)
  | none =>
    match default with
    | some n => return .macroOr nameNode n
    | none => return .macroNamed nameNode

/-- A new stream of random numbers from a seed. -/
def newStream (seed : Nat) : Run Nat := do
  Run.note .drawn
  let stream := (← Run.world).streams.size
  Run.alter fun w => { w with streams := w.streams.push (seed, 0) }
  return stream

/-- Random numbers: a stream of its own for a seed that is constant, else the first number of each seed. -/
def buildRandom (host : Host) (seed : Option Node) : Run Node := do
  let fixed := match seed with
    | none => some host.seed
    | some n => n.constant?.map fun (v : Value) => Random.seedOf v.toNumber host.seed
  match fixed, seed with
  | none, some n => return .seeded n
  | fixed, _ => return .random (← newStream (fixed.getD host.seed))

/-! ### Calls -/

/-- The node of a call of a standard function, before folding; `read` reads texts within the expression. -/
def buildStandard (c : Context) (read : String → Run Node) (b : Builtin) (args : List Node) : Run Node := do
  match b, args with
  | .plus, [_, _] =>
    if args.any fun n => n.type = .text then return .strict .join .text args
    checkParams b.name args b.params
    return number .add args
  | b, args =>
    checkParams b.name args b.params
    match b, args with
    | .plus, [n] => return n
    | .minus, [_] => return number .negate args
    | .minus, _ => return number .subtract args
    | .number .power, [x, y] => return .strict (.number .power) (powerType x y) args
    | .number f, _ :: _ => return number f args
    | .order o, [x, y] => buildOrder o x y
    | .equality negated, _ => return .strict (.equality negated) .boolean args
    | .logic l, _ => return .strict (.logic l) .boolean args
    | .isMissing, _ => return .strict .isMissing .boolean args
    | .text f, _ =>
      checkConstants b.name args f.checks
      return .strict (.text f) f.result args
    | .calendar f, _ =>
      checkConstants b.name args f.checks
      return .strict (.calendar f) f.result args
    | .aggregate .concat, _ => return .aggregate .concat .text args
    | .aggregate .mean, _ => return .aggregate .mean .double args
    | .aggregate f, _ => return .aggregate f ((args.map type).foldl ValueType.join .integer) args
    | .binomial, [n, k] => return .binomial n k
    | .choose, [condition, yes, no] => buildChoose c condition yes no
    | .eval, text :: rest => buildEval c read text rest.head?
    | .columnNamed, name :: rest => buildColumn c name rest.head?
    | .macroNamed, name :: rest => buildMacro name rest.head?
    | .now, _ => return .now
    | .random, _ => buildRandom (c.host.getD {}) args.head?
    | .parameter, [operator, name] => return .parameter operator name
    | b, _ => Run.fail (.internal (.lostArgument b.name))

/-- The node that a function of the host builds for a call. -/
def buildHost (c : Context) (f : HostFunction) (args : List Node) : Run Node := do
  let n := host f args
  Run.note (.built f.name n.isFoldable)
  n.fold c

/-- The node of a call. -/
def build (c : Context) (read : String → Run Node) (f : Callable) (args : List Node) : Run Node := do
  let s := f.signature
  if !s.arity.accepts args.length then Run.fail (.arity s.name s.arity args.length)
  match f with
  | .builtin b => do
    let n ← buildStandard c read b args
    n.fold c
  | .host f => buildHost c f args

end Node

end Rowwise
