import Rowwise.Eval.Compile
import Rowwise.Proofs.Evaluation.Contract

/-!
# Rowwise.Proofs.Evaluation.Course — what happens in the course of an evaluation

The events of a world do not tell which node they belong to.  A recorded run (`Recorded`) is a run together with its
course: the events that it adds to the world, in order, and among them the runs of subnodes, each with its place, its own
course and its outcome.  Nodes are evaluated by recorded runs as they are by runs, clause by clause, except that the
evaluation of a subnode is marked as such (`Node.recorded`).  Without the record this is the evaluation itself
(`Context.run_recorded`).
-/

namespace Rowwise

/-! ### Courses -/

/-- What happens in the course of a run. -/
inductive Happening where
  | event (e : Event)
  /-- The node at a place runs. -/
  | run (place : Nat) (node : Node) (course : List Happening) (outcome : Except Halt Value)

mutual

/-- The events of a happening, in order. -/
def Happening.events : Happening → List Event
  | .event e => [e]
  | .run _ _ course _ => allEvents course

/-- The events of a course, in order. -/
def allEvents : List Happening → List Event
  | [] => []
  | h :: hs => h.events ++ allEvents hs

end

@[simp] theorem allEvents_append (hs ks : List Happening) : allEvents (hs ++ ks) = allEvents hs ++ allEvents ks := by
  induction hs with
  | nil => rfl
  | cons h hs ih => simp [allEvents, ih]

@[simp] theorem allEvents_event (es : List Event) : allEvents (es.map .event) = es := by
  induction es with
  | nil => rfl
  | cons e es ih => simp [allEvents, Happening.events, ih]

/-- What has happened from the first world to the second, in order. -/
def World.since (w w' : World) : List Event := (w'.events.take (w'.events.length - w.events.length)).reverse

theorem World.Grows.events_eq {w w' : World} (h : w.Grows w') : w'.events = (w.since w').reverse ++ w.events := by
  obtain ⟨es, hes⟩ := h
  simp [since, ← hes]

/-! ### Recorded runs -/

/-- A run with its course, which accounts for all events that the run adds. -/
structure Recorded (α : Type) where
  run : Run α
  course : World → List Happening
  events_eq (w : World) : (run.exec w).2.events = (allEvents (course w)).reverse ++ w.events

namespace Recorded

open Run

variable {α β : Type}

/-- The course of a run and of what it is followed by. -/
def andThen (x : Recorded α) (f : α → Recorded β) : Recorded β where
  run := x.run >>= fun a => (f a).run
  course w :=
    match x.run.exec w with
    | (.ok a, w') => x.course w ++ (f a).course w'
    | (.error _, _) => x.course w
  events_eq w := by
    have hx := x.events_eq w
    rw [exec_bind]
    rcases hr : x.run.exec w with ⟨h | a, w'⟩
    · rw [hr] at hx
      exact hx
    · rw [hr] at hx
      have hf := (f a).events_eq w'
      rw [hx] at hf
      simpa using hf

instance : Monad Recorded where
  pure a := ⟨pure a, fun _ => [], fun _ => rfl⟩
  bind := andThen

/-- A run in which no subnode runs. -/
def lift (x : Run α) : Recorded α where
  run := x
  course w := (w.since (x.exec w).2).map .event
  events_eq w := by
    rw [allEvents_event]
    exact (x.grows w).events_eq

/-- The run of a subnode at its place. -/
def part (place : Nat) (node : Node) (x : Recorded Value) : Recorded Value where
  run := x.run
  course w := [.run place node (x.course w) (x.run.exec w).1]
  events_eq w := by
    rw [x.events_eq]
    simp [allEvents, Happening.events]

/-- The run, with faults as those of a nested expression. -/
def nested (function : String) (x : Recorded α) : Recorded α where
  run := Run.nested function x.run
  course := x.course
  events_eq w := by
    rw [exec_nested]
    exact x.events_eq w

/-- The run of what belongs to a text within the expression. -/
def inText (x : Recorded α) : Recorded α where
  run := Run.inText x.run
  course w := .event .opened :: (x.course w.opening ++ [.event .closed])
  events_eq w := by
    rw [exec_inText]
    simp [World.closing, World.opening, x.events_eq, allEvents, Happening.events]

/-! The record takes nothing away from a run and adds nothing to it. -/

@[simp] theorem run_bind (x : Recorded α) (f : α → Recorded β) : (x >>= f).run = x.run >>= fun a => (f a).run := rfl

@[simp] theorem run_lift (x : Run α) : (lift x).run = x := rfl

@[simp] theorem run_part (place : Nat) (node : Node) (x : Recorded Value) : (part place node x).run = x.run := rfl

@[simp] theorem run_nested (function : String) (x : Recorded α) : (nested function x).run = Run.nested function x.run := rfl

@[simp] theorem run_inText (x : Recorded α) : (inText x).run = Run.inText x.run := rfl

theorem bind_eq {x : Recorded α} {f : α → Recorded β} {y : Run α} {g : α → Run β} (hx : x.run = y)
    (hf : ∀ a, (f a).run = g a) : (x >>= f).run = y >>= g := by
  rw [run_bind, hx, funext hf]

/-! The course of a run from that of its parts. -/

@[simp] theorem course_pure (a : α) (w : World) : (pure a : Recorded α).course w = [] := rfl

theorem course_bind (x : Recorded α) (f : α → Recorded β) (w : World) : (x >>= f).course w =
    match x.run.exec w with
    | (.ok a, w') => x.course w ++ (f a).course w'
    | (.error _, _) => x.course w :=
  rfl

theorem course_lift (x : Run α) (w : World) : (lift x).course w = (w.since (x.exec w).2).map .event := rfl

theorem course_part (place : Nat) (node : Node) (x : Recorded Value) (w : World) :
    (part place node x).course w = [.run place node (x.course w) (x.run.exec w).1] :=
  rfl

theorem course_nested (function : String) (x : Recorded α) (w : World) : (nested function x).course w = x.course w := rfl

theorem course_inText (x : Recorded α) (w : World) :
    (inText x).course w = .event .opened :: (x.course w.opening ++ [.event .closed]) :=
  rfl

end Recorded

/-! ### Recorded evaluation -/

namespace Node

open Recorded

mutual

/-- The evaluation of a node with its course: the subnodes are counted from zero in the order of the constructor's fields;
`text` evaluates a text of the row. -/
def recorded (c : Context) (text : ValueType → String → Recorded Value) : Node → Recorded Value
  | const v => return v
  | varying v => lift do
    Run.note .supplied
    return v
  | column source name type => lift do return (← Run.readColumn source name type.storage).retag type
  | strict f type args => do
    let vs ← recordedAll c text (pure ()) 0 args
    lift do
      Run.note (.applied f vs)
      Run.valueOf f.name (f.run c.options.zone type vs)
  | aggregate f type args => do return f.run type (← recordedAll c text (lift c.poll) 0 args)
  | binomial n k => do
    let x ← part 0 n (n.recorded c text)
    let y ← part 1 k (k.recorded c text)
    lift do return .integer (← binomialOf c x.toNumber y.toNumber)
  | choose type condition yes no => do
    match (← part 0 condition (condition.recorded c text)).truth? with
    | some true => part 1 yes (yes.recorded c text)
    | some false => part 2 no (no.recorded c text)
    | none => return .missing type
  | convert function target n => do
    let v ← part 0 n (n.recorded c text)
    lift (Run.typed function (v.cast c.options.zone target))
  | nested n => Recorded.nested Builtin.eval.name (inText (part 0 n (n.recorded c text)))
  | spliced n => inText (part 0 n (n.recorded c text))
  | evalText target n => do
    match (← part 0 n (n.recorded c text)).text? with
    | none => return .missing target
    | some s => text target s
  | columnNamed target name => do
    match (← part 0 name (name.recorded c text)).text? with
    | none => return .missing target
    | some s => lift (columnValue c target s)
  | macroNamed name => do
    match (← part 0 name (name.recorded c text)).text? with
    | none => return .text none
    | some s => lift do return .text (← macroText s)
  | macroOr name default => do
    match (← part 0 name (name.recorded c text)).text? with
    | none => return .text none
    | some s =>
      match ← lift (Run.scope? s) with
      | some (some value) => return .text (some value)
      | _ => part 1 default (default.recorded c text)
  | refuse function cause => lift (Run.fail (.type function cause))
  | now => lift do return .instant (some (← currentTime))
  | random stream => lift (nextRandom stream)
  | seeded seed => do
    let x := (← part 0 seed (seed.recorded c text)).toNumber
    return .double (Random.numberAt (Random.seedOf x ((c.host.map Host.seed).getD 0)) 0)
  | parameter operator name => do
    let operator ← part 0 operator (operator.recorded c text)
    let name ← part 1 name (name.recorded c text)
    lift (parameterText c operator.text? name.text?)
  | host f args => do
    lift (Run.note (.ran f.name))
    match f.action with
    | .probe => do
      lift (Run.note (.probe f.name))
      return .double (← recordedFirst c text f.name .number args).toNumber
    | .yields type _ v => lift (Run.sound (v.conform type))
    | .relay type => do return (← recordedFirst c text f.name type.storage args).retag type
    | .fails _ => lift (Run.fail (.value f.name .refused))
    | .row _ => lift do return .number f.action.type (Double.ofNat (← currentRow))

/-- The evaluation of nodes from left to right, the first of which stands at a place; `before` runs before each. -/
def recordedAll (c : Context) (text : ValueType → String → Recorded Value) (before : Recorded Unit) (place : Nat) :
    List Node → Recorded (List Value)
  | [] => return []
  | n :: ns => do
    before
    let v ← part place n (n.recorded c text)
    return v :: (← recordedAll c text before (place + 1) ns)

/-- The evaluation of the first of some nodes, as one of a storage. -/
def recordedFirst (c : Context) (text : ValueType → String → Recorded Value) (function : String) (storage : Storage) :
    List Node → Recorded Value
  | [] => lift (Run.fail (.internal (.lostArgument function)))
  | n :: _ =>
    if n.type.storage = storage then part 0 n (n.recorded c text)
    else lift (Run.fail (.internal (.requested storage n.type)))

end

/-! ### Evaluation without the record -/

variable {c : Context} {text : ValueType → String → Recorded Value}

mutual

/-- The evaluation of a node is the run of its recorded evaluation. -/
theorem run_recorded : ∀ n : Node, (n.recorded c text).run = n.value c fun target s => (text target s).run
  | const _ | varying _ | column _ _ _ | refuse _ _ | now | random _ => by
    rw [recorded, value]
    rfl
  | strict f type args => by
    rw [recorded, value]
    exact bind_eq (run_recordedAll args) fun _ => rfl
  | aggregate f type args => by
    rw [recorded, value]
    exact bind_eq (run_recordedPolled args) fun _ => rfl
  | binomial n k => by
    rw [recorded, value]
    exact bind_eq (run_recorded n) fun _ => bind_eq (run_recorded k) fun _ => rfl
  | choose type condition yes no => by
    rw [recorded, value]
    refine bind_eq (run_recorded condition) fun v => ?_
    rcases v.truth? with _ | _ | _
    · rfl
    · exact run_recorded no
    · exact run_recorded yes
  | convert function target n => by
    rw [recorded, value]
    exact bind_eq (run_recorded n) fun _ => rfl
  | .nested n => by
    rw [recorded, value, run_nested, run_inText, run_part, run_recorded n]
  | spliced n => by
    rw [recorded, value, run_inText, run_part, run_recorded n]
  | evalText target n => by
    rw [recorded, value]
    refine bind_eq (run_recorded n) fun v => ?_
    cases v.text? <;> rfl
  | columnNamed target name => by
    rw [recorded, value]
    refine bind_eq (run_recorded name) fun v => ?_
    cases v.text? <;> rfl
  | macroNamed name => by
    rw [recorded, value]
    refine bind_eq (run_recorded name) fun v => ?_
    cases v.text? <;> rfl
  | macroOr name default => by
    rw [recorded, value]
    refine bind_eq (run_recorded name) fun v => ?_
    cases v.text? with
    | none => rfl
    | some s =>
      refine bind_eq rfl fun found => ?_
      rcases found with _ | _ | _
      · exact run_recorded default
      · exact run_recorded default
      · rfl
  | seeded seed => by
    rw [recorded, value]
    exact bind_eq (run_recorded seed) fun _ => rfl
  | parameter operator name => by
    rw [recorded, value]
    exact bind_eq (run_recorded operator) fun _ => bind_eq (run_recorded name) fun _ => rfl
  | host f args => by
    rw [recorded, value]
    refine bind_eq rfl fun _ => ?_
    cases f.action with
    | probe => exact bind_eq rfl fun _ => bind_eq (run_recordedFirst _ _ args) fun _ => rfl
    | relay type => exact bind_eq (run_recordedFirst _ _ args) fun _ => rfl
    | yields | fails | row => rfl

theorem run_recordedAll : ∀ {place : Nat} (ns : List Node),
    (recordedAll c text (pure ()) place ns).run = values c (fun target s => (text target s).run) ns
  | _, [] => by
    rw [recordedAll, values]
    rfl
  | _, n :: ns => by
    rw [recordedAll, values]
    exact bind_eq (run_recorded n) fun _ => bind_eq (run_recordedAll ns) fun _ => rfl

theorem run_recordedPolled : ∀ {place : Nat} (ns : List Node),
    (recordedAll c text (lift c.poll) place ns).run = polledValues c (fun target s => (text target s).run) ns
  | _, [] => by
    rw [recordedAll, polledValues]
    rfl
  | _, n :: ns => by
    rw [recordedAll, polledValues]
    exact bind_eq rfl fun _ => bind_eq (run_recorded n) fun _ => bind_eq (run_recordedPolled ns) fun _ => rfl

theorem run_recordedFirst (function : String) (storage : Storage) : ∀ ns : List Node,
    (recordedFirst c text function storage ns).run =
      firstValue c (fun target s => (text target s).run) function storage ns
  | [] => by
    rw [recordedFirst, firstValue]
    rfl
  | n :: _ => by
    rw [recordedFirst, firstValue, request]
    split
    · exact run_recorded n
    · rfl

end

end Node

/-! ### Texts of a row -/

namespace Context

open Recorded

variable {c : Context}

/-- The evaluation of a node in the current row with its course, with at most `fuel` texts evaluated within each other.  A
text of the row is read first, and its node then runs in the second place of the node that has it evaluated. -/
def recorded (c : Context) : (fuel : Nat) → Node → Recorded Value
  | 0, n => n.recorded c fun _ _ => lift (throw .exhausted)
  | fuel + 1, n => n.recorded c fun target s => do
    let inner ← lift (Node.readText c.readInner s)
    let v ← nested Builtin.eval.name (inText (part 1 inner (c.recorded fuel inner)))
    lift (Run.typed Builtin.eval.name (v.cast c.options.zone target))

theorem run_recorded (fuel : Nat) (n : Node) : (c.recorded fuel n).run = c.evaluateWithin fuel n := by
  induction fuel generalizing n with
  | zero =>
    rw [recorded, evaluateWithin, Node.run_recorded]
    rfl
  | succ fuel ih =>
    rw [recorded, evaluateWithin, Node.run_recorded]
    simp only [run_bind, run_nested, run_inText, run_part, run_lift, ih]

end Context

end Rowwise
