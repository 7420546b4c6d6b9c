import Rowwise.Calendar.ZoneTable
import Rowwise.Context.World
import Rowwise.Function.Catalog

/-!
# Rowwise.Context.Context — what expressions may refer to

A context has options, functions, variables and constants, and perhaps a host.  Names of the host take the place of
standard ones, and later ones that of earlier ones.  Columns and macros, which change, are in the world.
-/

namespace Rowwise

/-- Limits and the zone that holds where none is named. -/
structure Options where
  nestingLimit : Nat := 500
  /-- The number of texts that may be nested within texts. -/
  textLimit : Nat := 8
  zone : Zone := .utc

/-- A value with a name; it may be one that each row could change. -/
structure Variable where
  name : String
  value : Value
  isConstant : Bool := true

/-- A constant. -/
structure Constant where
  name : String
  value : Value
  doc : Option String := none
  /-- Listings leave it out. -/
  hidden : Bool := false

/-- What a function of the host does. -/
inductive HostAction where
  /-- Notes that it runs, then takes the number that the first argument is. -/
  | probe
  /-- Yields a value. -/
  | yields (type : ValueType) (isConstant : Bool) (value : Value)
  /-- Takes the value of the first argument as one of this type. -/
  | relay (type : ValueType)
  /-- Always fails. -/
  | fails (isConstant : Bool)
  /-- The number of the row. -/
  | row (type : ValueType)
deriving DecidableEq, Repr

/-- A function of the host. -/
structure HostFunction where
  name : String
  arity : Arity
  action : HostAction
deriving DecidableEq, Repr

/-- The job around expressions. -/
structure Host where
  /-- Parameters: operator, name, text. -/
  parameters : List (String × String × String) := []
  /-- The seed of random numbers where none is given. -/
  seed : Nat := 2001
  /-- Whether the job is cancelled, by how often the host has been asked. -/
  cancels : Nat → Bool := fun _ => false

/-- The text of a parameter of an operator. -/
def Host.parameter? (h : Host) (operator parameter : String) : Option String :=
  (h.parameters.find? fun p => p.1 = operator && p.2.1 = parameter).map fun p => p.2.2

/-- What expressions may refer to, apart from columns and macros. -/
structure Context where
  options : Options := {}
  functions : List HostFunction := []
  bindings : List Variable := []
  constants : List Constant := []
  host : Option Host := none

/-! ### Constants -/

/-- The standard constants. -/
def Constant.standard : List Constant :=
  [{ name := "true", value := .ofBool true },
   { name := "false", value := .ofBool false },
   { name := "TRUE", value := .ofBool true, hidden := true },
   { name := "FALSE", value := .ofBool false, hidden := true },
   { name := "E", value := .double 2.718281828459045, doc := some "Euler's number" },
   { name := "PI", value := .double 3.141592653589793,
     doc := some "The ratio of a circle's circumference to its diameter" },
   { name := "INFINITY", value := .double (Double.infinity false) },
   { name := "NaN", value := .double Double.nan, doc := some "Not a number; the missing numeric value" },
   { name := "NAN", value := .double Double.nan, hidden := true },
   { name := "MISSING_NUMERIC", value := .missing .double },
   { name := "MISSING_NOMINAL", value := .missing .text },
   { name := "MISSING_DATE", value := .missing .instant },
   { name := "MISSING_TIME", value := .missing .timeOfDay }] ++
  (DateUnit.all.map fun u =>
    { name := "DATE_UNIT_" ++ String.ofList (Text.upperAscii u.name.toList), value := .text (some u.name) }) ++
  (ValueType.targets.map fun t =>
    { name := "TYPE_" ++ String.ofList (Text.upperAscii t.name.toList), value := .text (some t.name) })

/-! ### Functions -/

/-- A function that expressions may call. -/
inductive Callable where
  | builtin (b : Builtin)
  | host (f : HostFunction)
deriving DecidableEq, Repr

/-- The signature of a function. -/
def Callable.signature : Callable → Signature
  | builtin b => b.signature
  | host f => ⟨f.name, "custom", f.name, f.arity⟩

/-- The name of a function. -/
def Callable.name (c : Callable) : String := c.signature.name

namespace Context

/-- All functions; of those with one name the last counts. -/
def callables (c : Context) : List Callable :=
  Builtin.standard.map .builtin ++ (if c.host.isSome then Builtin.ofHost.map .builtin else []) ++
    c.functions.map .host

/-- The last member of a list with that name. -/
def lastNamed? {α : Type} (nameOf : α → String) (name : String) (xs : List α) : Option α :=
  xs.reverse.find? fun x => nameOf x = name

/-- The function of that name. -/
def function? (c : Context) (name : String) : Option Callable := lastNamed? Callable.name name c.callables

/-- The variable of that name. -/
def variableNamed? (c : Context) (name : String) : Option Variable := lastNamed? Variable.name name c.bindings

/-- The constant of that name. -/
def constantNamed? (c : Context) (name : String) : Option Constant :=
  lastNamed? Constant.name name (Constant.standard ++ c.constants)

/-- The members of a list by ascending names, the last one of each name. -/
def byName {α : Type} (nameOf : α → String) (xs : List α) : List α :=
  (TextSet.ofList (xs.map nameOf)).toList.filterMap fun name => lastNamed? nameOf name xs

/-- The signatures of all functions by ascending names. -/
def signatures (c : Context) : List Signature := (byName Callable.name c.callables).map Callable.signature

/-- The entries of all names: columns, macros, variables, constants. -/
def entries (c : Context) (w : World) : List Entry :=
  w.sources.flatMap Source.entries ++ w.macros.flatMap MacroStore.entries ++
    ((byName Variable.name c.bindings).map fun v => ⟨v.name, .whole, "variables", v.value.type, none⟩) ++
    (((byName Constant.name (Constant.standard ++ c.constants)).filter fun k => !k.hidden).map fun k =>
      ⟨k.name, .whole, "constants", k.value.type, none⟩)

/-- Asks the host whether the job is cancelled, and ends the run if it is. -/
def poll (c : Context) : Run Unit := do
  match c.host with
  | none => return ()
  | some host =>
    let w ← Run.world
    let count := w.polls + 1
    let cancelled := w.cancelled || host.cancels count
    Run.alter (fun w => { w with polls := count, events := .poll cancelled :: w.events }) fun _ => .cons rfl
    if cancelled then Run.fail .aborted

end Context

/-! ### Columns -/

/-- The first source that has a column of that name, by its position from `i` on, and the column's type. -/
def sourceOf? (name : String) : (i : Nat) → List Source → Option (Nat × ValueType)
  | _, [] => none
  | i, s :: ss =>
    match s.type? name with
    | some t => some (i, t)
    | none => sourceOf? name (i + 1) ss

namespace World

/-- The source and the type of the column of that name. -/
def column? (w : World) (name : String) : Option (Nat × ValueType) := sourceOf? name 0 w.sources

/-- The text of a macro; the outcome tells a name that is not known from one that is not set. -/
def scope? (w : World) (name : String) : Option (Option String) := scopeText false name w.macros

/-- The number of times that functions of the host have noted. -/
def probes (w : World) : Nat := w.events.countP fun
  | .probe _ => true
  | _ => false

end World

/-- The text of a macro, as the world has it. -/
def Run.scope? (name : String) : Run (Option (Option String)) := do return (← world).scope? name

end Rowwise
