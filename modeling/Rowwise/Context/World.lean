import Rowwise.Context.MacroStore
import Rowwise.Context.Source
import Rowwise.Function.Strict

/-!
# Rowwise.Context.World — what changes while expressions are read and evaluated

The world holds the current row, the columns with their readers, the macros, the random streams, and what the host has
been asked.  A run changes the world also when it fails.  `Halt.exhausted` is the outcome of an evaluation that would
nest texts within texts without end.
-/

namespace Rowwise

/-- Things that happen in a run, most of which a host can see. -/
inductive Event where
  /-- The host was asked whether the job is cancelled. -/
  | poll (cancelled : Bool)
  /-- A column was read as values of a storage. -/
  | read (source : Nat) (name : String) (storage : Storage) (row : Nat)
  /-- The value of a variable that each row could change was supplied. -/
  | supplied
  /-- A function of values was applied to arguments. -/
  | applied (f : StrictFunction) (args : List Value)
  /-- A function of the host built the node of a call, which is constant or not. -/
  | built (function : String) (isConstant : Bool)
  /-- A function of the host begins to run. -/
  | ran (function : String)
  /-- A function of the host notes that it runs. -/
  | probe (function : String)
  /-- A stream of random numbers was begun or drawn from. -/
  | drawn
  /-- The time was looked at. -/
  | timed
  /-- A text within the expression begins to be read or evaluated. -/
  | opened
  /-- It ends, with or without a value. -/
  | closed
deriving DecidableEq, Repr

/-- What changes. -/
structure World where
  row : Nat := 0
  sources : List Source := []
  macros : List MacroStore := []
  /-- The seed of each stream of random numbers, and how many have been drawn. -/
  streams : Array (Nat × Nat) := #[]
  /-- The host has cancelled the job. -/
  cancelled : Bool := false
  /-- How often the host has been asked since the count was taken. -/
  polls : Nat := 0
  clock : Instant := .first
  /-- What has happened, the latest first. -/
  events : List Event := []

/-- Why a run ends without a value. -/
inductive Halt where
  | fault (f : Fault)
  | exhausted
deriving DecidableEq, Repr

/-- The halt inside a nested expression of `function`. -/
def Halt.within (function : String) : Halt → Halt
  | fault f => fault (f.within function)
  | exhausted => exhausted

/-! ### Histories -/

namespace World

/-- All that had happened in the first world has happened in the second. -/
def Grows (w w' : World) : Prop := w.events <:+ w'.events

theorem Grows.refl (w : World) : w.Grows w := List.suffix_rfl

theorem Grows.of_eq {w w' : World} (h : w'.events = w.events) : w.Grows w' := ⟨[], h.symm⟩

theorem Grows.cons {w w' : World} {e : Event} (h : w'.events = e :: w.events) : w.Grows w' := ⟨[e], h.symm⟩

theorem Grows.trans {u v w : World} (h : u.Grows v) (h' : v.Grows w) : u.Grows w := List.IsSuffix.trans h h'

end World

/-! ### Runs -/

/-- A computation in the world that may halt.  It takes back nothing of what has happened. -/
structure Run (α : Type) where
  step : World → Except Halt α × World
  step_grows (w : World) : w.Grows (step w).2

namespace Run

variable {α β : Type}

/-- The outcome and the world after a run. -/
def exec (x : Run α) (w : World) : Except Halt α × World := x.step w

theorem grows (x : Run α) (w : World) : w.Grows (x.exec w).2 := x.step_grows w

/-- Goes on with what `f` makes of the value. -/
def andThen (x : Run α) (f : α → Run β) : Run β where
  step w :=
    match x.exec w with
    | (.ok a, w') => (f a).exec w'
    | (.error h, w') => (.error h, w')
  step_grows w := by
    have hx := x.grows w
    split <;> rename_i heq <;> rw [heq] at hx
    · exact hx.trans ((f _).grows _)
    · exact hx

/-- Goes on with what `f` makes of the halt. -/
def orElse (x : Run α) (f : Halt → Run α) : Run α where
  step w :=
    match x.exec w with
    | (.ok a, w') => (.ok a, w')
    | (.error h, w') => (f h).exec w'
  step_grows w := by
    have hx := x.grows w
    split <;> rename_i heq <;> rw [heq] at hx
    · exact hx
    · exact hx.trans ((f _).grows _)

instance : Monad Run where
  pure a := ⟨fun w => (.ok a, w), World.Grows.refl⟩
  bind := andThen

instance : MonadExceptOf Halt Run where
  throw h := ⟨fun w => (.error h, w), World.Grows.refl⟩
  tryCatch := orElse

/-- The world as it is. -/
def world : Run World := ⟨fun w => (.ok w, w), World.Grows.refl⟩

/-- Changes the world. -/
def alter (g : World → World) (grows : ∀ w : World, w.Grows (g w) := by exact fun _ => .of_eq rfl) : Run Unit :=
  ⟨fun w => (.ok (), g w), grows⟩

/-- Fails. -/
def fail (f : Fault) : Run α := throw (.fault f)

/-- The value, or the failure. -/
def ofExcept (x : Except Fault α) : Run α :=
  match x with
  | .ok a => pure a
  | .error f => fail f

/-- The value, or a failure of a function by a cause. -/
def valueOf (function : String) (x : Except ValueCause α) : Run α := ofExcept (x.mapError (.ofCause function))

/-- The value, or a failure of a function by a cause. -/
def typed (function : String) (x : Except TypeCause α) : Run α := ofExcept (x.mapError (.type function))

/-- The value, or a failure by a defect. -/
def sound (x : Except Defect α) : Run α := ofExcept (x.mapError .internal)

/-- Runs, with faults as those of a nested expression. -/
def nested (function : String) (x : Run α) : Run α := tryCatch x fun h => throw (h.within function)

/-- Notes an event. -/
def note (e : Event) : Run Unit := alter (fun w => { w with events := e :: w.events }) fun _ => .cons rfl

/-- Runs what belongs to a text within the expression. -/
def inText (x : Run α) : Run α := do
  note .opened
  let a ← tryCatch x fun h => do
    note .closed
    throw h
  note .closed
  return a

/-- Reads a column of a source in the current row. -/
def readColumn (source : Nat) (name : String) (storage : Storage) : Run Value := do
  let w ← world
  note (.read source name storage w.row)
  match w.sources[source]? with
  | none => sound (.error (.noColumn name))
  | some s =>
    let (value, s) := s.read name storage w.row
    alter fun w => { w with sources := w.sources.set source s }
    sound value

end Run

end Rowwise
