import Rowwise.Eval.Build
import Rowwise.Expr.Parse

/-!
# Rowwise.Eval.Compile — from trees to nodes

Names are resolved, calls are built, and texts within the expression are read as expressions themselves.  The number of
texts that may be nested is a budget that each text passes on reduced by one, so that texts that name each other in a
circle end in a fault.
-/

namespace Rowwise

namespace Context

/-- The node of a name: a column, a variable or a constant. -/
def nameNode (c : Context) (name : String) : Run Node := do
  match ← Node.columnOf? name with
  | some n => return n
  | none =>
    match c.variableNamed? name, c.constantNamed? name with
    | some v, _ => return if v.isConstant then .const v.value else .varying v.value
    | none, some k => return .const k.value
    | none, none => Run.fail (.unknownName name)

/-- The node of a call of the function of that name. -/
def callWith (c : Context) (read : String → Run Node) (name : String) (args : List Node) : Run Node :=
  match c.function? name with
  | some f => Node.build c read f args
  | none => Run.fail (.unknownFunction name)

/-- How a macro is written in an expression. -/
def macroLabel (name : String) : String := "#\x7b" ++ name ++ "\x7d"

/-- The node of a macro whose text is read as an expression. -/
def macroNode (read : String → Run Node) (name : String) : Run Node := do
  match ← Run.scope? name with
  | some (some text) => do
    let n ← Run.nested (macroLabel name) (read text)
    return n.marked .spliced
  | some none => Run.fail (.value (macroLabel name) .macroUnset)
  | none => Run.fail (.unknownName name)

mutual

/-- The node of a tree; `read` reads texts within the expression. -/
def compile (c : Context) (read : String → Run Node) : Expr → Run Node
  | .integer x => return .const (.integer x)
  | .double x => return .const (.double x)
  | .text s => return .const (.text (some s))
  | .name s => c.nameNode s
  | .column s => do
    match ← Node.columnOf? s with
    | some n => return n
    | none => Run.fail (.unknownName s)
  | .scope s => do
    match ← Run.scope? s with
    | some text => return .const (.text text)
    | none => Run.fail (.unknownName s)
  | .macroRef s => macroNode read s
  | .unary op e => do
    let n ← c.compile read e
    c.callWith read op.symbol [n]
  | .binary op l r => do
    let a ← c.compile read l
    let b ← c.compile read r
    c.callWith read op.symbol [a, b]
  | .call f es => do
    let args ← c.compileAll read es
    c.callWith read f args

/-- The nodes of trees, from left to right. -/
def compileAll (c : Context) (read : String → Run Node) : List Expr → Run (List Node)
  | [] => return []
  | e :: es => do
    let n ← c.compile read e
    return n :: (← c.compileAll read es)

end

/-- Reads a text that no expression contains. -/
def readWith (c : Context) (read : String → Run Node) (s : String) : Run Node := do
  let e ← Run.ofExcept (Expr.parse c.options.nestingLimit s)
  c.compile read e

/-- Reads a text within an expression, within which `budget` texts may be nested, counting itself. -/
def readNested (c : Context) : (budget : Nat) → String → Run Node
  | 0, _ => do
    c.poll
    Run.fail (.value Builtin.eval.name (.nestedTooDeep c.options.textLimit))
  | budget + 1, s => do
    c.poll
    Run.inText (c.readWith (c.readNested budget) s)

/-- Reads a text within an expression that is itself in none. -/
def readInner (c : Context) (s : String) : Run Node := c.readNested c.options.textLimit s

/-! ### Evaluation of texts -/

/-- The number of texts that may be evaluated within each other.  Only texts that reach themselves through macros come
near it. -/
def evalLimit : Nat := 1000

/-- The value of a node in the current row, with at most `fuel` texts evaluated within each other. -/
def evaluateWithin (c : Context) : (fuel : Nat) → Node → Run Value
  | 0, n => n.value c fun _ _ => throw .exhausted
  | fuel + 1, n => n.value c fun target s => do
    let inner ← Node.readText c.readInner s
    let v ← Run.nested Builtin.eval.name (Run.inText (c.evaluateWithin fuel inner))
    Run.typed Builtin.eval.name (v.cast c.options.zone target)

/-- The value of a node in the current row. -/
def evaluate (c : Context) (n : Node) : Run Value := c.evaluateWithin evalLimit n

end Context

end Rowwise
