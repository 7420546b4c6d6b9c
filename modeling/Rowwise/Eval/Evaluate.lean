import Rowwise.Eval.Node
import Rowwise.Eval.Random

/-!
# Rowwise.Eval.Evaluate — the value of a node in a row

Arguments are evaluated from left to right, and the first halt ends the evaluation.  Of the two branches of a choice only
one is evaluated.  The evaluation of texts is a parameter: it needs a way from texts to nodes.
-/

namespace Rowwise

/-! ### Functions of any number of arguments -/

namespace Aggregate

/-- The number that is kept of all, unless one is missing. -/
def pick (better : Float → Float → Bool) (xs : List Float) : Float :=
  if xs.any Double.isMissing then Double.nan
  else
    match xs with
    | [] => Double.nan
    | x :: xs => xs.foldl (fun kept y => if better y kept then y else kept) x

/-- The sum from left to right, starting at negative zero. -/
def total (xs : List Float) : Float := xs.foldl (· + ·) (-0.0)

/-- Texts one after the other: missing ones count as empty, but the result is missing if all are; no texts give an empty
one. -/
def joinTexts (args : List Value) : Option String :=
  if args.isEmpty then some ""
  else
    match args.filterMap Value.text? with
    | [] => none
    | ss => some (String.join ss)

/-- The value as one of the type `type`. -/
def run (f : Aggregate) (type : ValueType) (args : List Value) : Value :=
  let xs := args.map Value.toNumber
  match f with
  | least => .number type (pick (fun y kept => y < kept) xs)
  | greatest => .number type (pick (fun y kept => kept < y) xs)
  | sum => .number type (total xs)
  | mean => .number type (total xs / Double.ofNat xs.length)
  | concat => .text (joinTexts args)

/-- The name of the function. -/
def name (f : Aggregate) : String := f.signature.name

end Aggregate

/-- The name of the function in faults. -/
def StrictFunction.name : StrictFunction → String
  | number f => f.signature.name
  | join => NumberFunction.add.signature.name
  | order o => o.signature.name
  | equality negated => (Builtin.equality negated).name
  | logic l => l.signature.name
  | isMissing => Builtin.isMissing.name
  | text f => f.signature.name
  | calendar f => f.signature.name

/-! ### Binomial coefficients -/

/-- The number of factors between two questions to the host. -/
def pollInterval : Nat := 4096

/-- Multiplies `result` by the factors from the `i`th on, until it is infinite; the host may cancel on the way. -/
def binomialFrom (c : Context) (n : Int) (i : Nat) (result : Float) : (factors : Nat) → Run Float
  | 0 => return result
  | factors + 1 => do
    if i % pollInterval = 0 then c.poll
    let result := result * Double.ofInt (n - i) / Double.ofInt (i + 1)
    if Double.isInfinite result then return result
    else binomialFrom c n (i + 1) result factors

/-- The binomial coefficient of two numbers. -/
def binomialOf (c : Context) (n k : Float) : Run Float := do
  if Double.isMissing n || Double.isMissing k then return Double.nan
  let n ← Run.valueOf Builtin.binomial.name (wholeNumber "n" n)
  let k ← Run.valueOf Builtin.binomial.name (wholeNumber "k" k)
  if n < 0 ∨ k < 0 then Run.fail (.value Builtin.binomial.name (.negativeCounts n k))
  else if n < k then return 0
  else return Double.nearest (← binomialFrom c n 0 1 (min k (n - k)).toNat)

/-! ### Types of values -/

/-- A value as one of a type with the same storage. -/
def Value.retag (type : ValueType) (v : Value) : Value := if type.isNumeric then .number type v.toNumber else v

/-- The value as one of the type, if it has the storage of the type. -/
def Value.conform (type : ValueType) (v : Value) : Except Defect Value :=
  if v.type.storage = type.storage then .ok (v.retag type) else .error (.yielded type v.type)

/-! ### Evaluation -/

/-- The text of a macro; one that is not set is missing, unless there is a default. -/
def macroText (name : String) : Run (Option String) := do
  match ← Run.scope? name with
  | some text => return text
  | none => Run.fail (.unknownName name)

/-- The value of a column in the current row, converted to a type. -/
def columnValue (c : Context) (target : ValueType) (name : String) : Run Value := do
  match (← Run.world).column? name with
  | none => Run.fail (.unknownName name)
  | some (source, type) =>
    let v ← Run.readColumn source name type.storage
    Run.typed Builtin.columnNamed.name (v.cast c.options.zone target)

/-- The current row. -/
def currentRow : Run Nat := do return (← Run.world).row

/-- The current time. -/
def currentTime : Run Instant := do
  Run.note .timed
  return (← Run.world).clock

/-- The next number of a random stream. -/
def nextRandom (stream : Nat) : Run Value := do
  Run.note .drawn
  let (seed, drawn) := (← Run.world).streams.getD stream (0, 0)
  Run.alter fun w => { w with streams := w.streams.setIfInBounds stream (seed, drawn + 1) }
  return .double (Random.numberAt seed drawn)

/-- The text of a parameter of the host's job. -/
def parameterText (c : Context) (operator parameter : Option String) : Run Value := do
  match operator, parameter with
  | some operator, some parameter =>
    match c.host.bind fun h => h.parameter? operator parameter with
    | some text => return .text (some text)
    | none => Run.fail (.value Builtin.parameter.name (.unknownParameter parameter operator))
  | _, _ => return .text none

namespace Node

/-- A value of this storage; a node of another type is a defect. -/
def request (storage : Storage) (type : ValueType) (value : Run Value) : Run Value :=
  if type.storage = storage then value else Run.fail (.internal (.requested storage type))

mutual

/-- The value of a node in the current row; `eval` gives the value of a text as one of a type. -/
def value (c : Context) (eval : ValueType → String → Run Value) : Node → Run Value
  | const v => return v
  | varying v => do
    Run.note .supplied
    return v
  | column source name type => do return (← Run.readColumn source name type.storage).retag type
  | strict f type args => do
    let vs ← values c eval args
    Run.note (.applied f vs)
    Run.valueOf f.name (f.run c.options.zone type vs)
  | aggregate f type args => do return f.run type (← polledValues c eval args)
  | binomial n k => do
    let n ← n.value c eval
    let k ← k.value c eval
    return .integer (← binomialOf c n.toNumber k.toNumber)
  | choose type condition yes no => do
    match (← condition.value c eval).truth? with
    | some true => yes.value c eval
    | some false => no.value c eval
    | none => return .missing type
  | convert function target n => do
    Run.typed function ((← n.value c eval).cast c.options.zone target)
  | nested n => Run.nested Builtin.eval.name (Run.inText (n.value c eval))
  | spliced n => Run.inText (n.value c eval)
  | evalText target text => do
    match (← text.value c eval).text? with
    | none => return .missing target
    | some s => eval target s
  | columnNamed target name => do
    match (← name.value c eval).text? with
    | none => return .missing target
    | some s => columnValue c target s
  | macroNamed name => do
    match (← name.value c eval).text? with
    | none => return .text none
    | some s => return .text (← macroText s)
  | macroOr name default => do
    match (← name.value c eval).text? with
    | none => return .text none
    | some s =>
      match ← Run.scope? s with
      | some (some text) => return .text (some text)
      | _ => default.value c eval
  | refuse function cause => Run.fail (.type function cause)
  | now => do return .instant (some (← currentTime))
  | random stream => nextRandom stream
  | seeded seed => do
    let x := (← seed.value c eval).toNumber
    return .double (Random.numberAt (Random.seedOf x ((c.host.map Host.seed).getD 0)) 0)
  | parameter operator name => do
    let operator ← operator.value c eval
    let name ← name.value c eval
    parameterText c operator.text? name.text?
  | host f args => do
    Run.note (.ran f.name)
    match f.action with
    | .probe => do
      Run.note (.probe f.name)
      return .double (← firstValue c eval f.name .number args).toNumber
    | .yields type _ v => Run.sound (v.conform type)
    | .relay type => do return (← firstValue c eval f.name type.storage args).retag type
    | .fails _ => Run.fail (.value f.name .refused)
    | .row _ => do return .number f.action.type (Double.ofNat (← currentRow))

/-- The values of nodes from left to right. -/
def values (c : Context) (eval : ValueType → String → Run Value) : List Node → Run (List Value)
  | [] => return []
  | n :: ns => do
    let v ← n.value c eval
    return v :: (← values c eval ns)

/-- The values of nodes from left to right; the host may cancel before each. -/
def polledValues (c : Context) (eval : ValueType → String → Run Value) : List Node → Run (List Value)
  | [] => return []
  | n :: ns => do
    c.poll
    let v ← n.value c eval
    return v :: (← polledValues c eval ns)

/-- The value of the first of some nodes, as one of a storage. -/
def firstValue (c : Context) (eval : ValueType → String → Run Value) (function : String) (storage : Storage) :
    List Node → Run Value
  | [] => Run.fail (.internal (.lostArgument function))
  | n :: _ => request storage n.type (n.value c eval)

end

/-- The node, folded to a constant if it can be. -/
def fold (c : Context) (n : Node) : Run Node :=
  if n.isFoldable then do return .const (← n.value c fun _ _ => throw .exhausted) else return n

end Node

end Rowwise
