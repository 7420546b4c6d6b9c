import Rowwise.Proofs.Evaluation.Carrying

/-!
# Rowwise.Proofs.Evaluation.Reading — what reading looks at and what it leaves alone

A text is read before any row is.  Reading asks the host, runs what can be folded and begins random streams, and does nothing
else to a world (`World.ReadInto`).  Of columns it looks at their names and types alone, so other sources that have columns of
the same names and types make no difference (`Run.SeesTypes`).
-/

namespace Rowwise

/-! ### What reading leaves alone -/

/-- True for the events of values that another row or another moment could change. -/
def Event.isPassing : Event → Bool
  | supplied | read _ _ _ _ | timed => true
  | _ => false

/-- The second world comes out of the first by asking the host, by running what depends on constants alone and by beginning
random streams, from which nothing is drawn. -/
structure World.ReadInto (w w' : World) : Prop where
  sources : w'.sources = w.sources
  macros : w'.macros = w.macros
  row : w'.row = w.row
  clock : w'.clock = w.clock
  cancelled : w'.cancelled = w.cancelled
  streams : ∃ seeds : List Nat, w'.streams.toList = w.streams.toList ++ seeds.map fun seed => (seed, 0)
  events : ∃ es, w'.events = es ++ w.events ∧ ∀ e ∈ es, e.isPassing = false

namespace World.ReadInto

variable {u w w' : World}

theorem refl (w : World) : w.ReadInto w := ⟨rfl, rfl, rfl, rfl, rfl, ⟨[], by simp⟩, [], rfl, nofun⟩

theorem trans (h : u.ReadInto w) (h' : w.ReadInto w') : u.ReadInto w' where
  sources := h'.sources.trans h.sources
  macros := h'.macros.trans h.macros
  row := h'.row.trans h.row
  clock := h'.clock.trans h.clock
  cancelled := h'.cancelled.trans h.cancelled
  streams := by
    obtain ⟨seeds, hseeds⟩ := h.streams
    obtain ⟨seeds', hseeds'⟩ := h'.streams
    exact ⟨seeds ++ seeds', by rw [hseeds', hseeds, List.append_assoc, List.map_append]⟩
  events := by
    obtain ⟨es, hes, hnone⟩ := h.events
    obtain ⟨fs, hfs, hnone'⟩ := h'.events
    refine ⟨fs ++ es, by rw [hfs, hes, List.append_assoc], fun e he => ?_⟩
    exact (List.mem_append.1 he).elim (hnone' e) (hnone e)

theorem of_event {e : Event} (he : e.isPassing = false) (w : World) :
    w.ReadInto { w with events := e :: w.events } :=
  ⟨rfl, rfl, rfl, rfl, rfl, ⟨[], by simp⟩, [e], rfl, by simpa using he⟩

end World.ReadInto

/-- Runs that do to a world what reading does. -/
def Contract.reading : Contract where
  holds _ := True
  moves := World.ReadInto
  allows _ := True
  moves_refl := .refl
  moves_trans := .trans

theorem Contract.lets_reading {e : Event} (he : e.isPassing = false) :
    Contract.reading.Lets fun w => { w with events := e :: w.events } :=
  fun w _ => ⟨trivial, .of_event he w⟩

theorem Contract.lets_poll_reading : Contract.reading.LetsPoll := fun _ cancelled _ _ =>
  ⟨trivial, rfl, rfl, rfl, rfl, rfl, ⟨[], by simp⟩, [.poll cancelled], rfl, by simp [Event.isPassing]⟩

theorem Contract.lets_stream_reading (seed : Nat) :
    Contract.reading.Lets fun w => { w with streams := w.streams.push (seed, 0) } := fun w _ =>
  ⟨trivial, rfl, rfl, rfl, rfl, rfl, ⟨[seed], by simp⟩, [], rfl, nofun⟩

/-! ### What reading looks at -/

/-- The world with other sources. -/
def World.withSources (w : World) (ss : List Source) : World := { w with sources := ss }

/-- The sources have columns of the same names, at the same places and with the same types, as those of the world. -/
def World.SameTypes (w : World) (ss : List Source) : Prop := ∀ name, sourceOf? name 0 ss = w.column? name

theorem World.SameTypes.of_readInto {w w' : World} {ss : List Source} (h : w.SameTypes ss) (hw : w.ReadInto w') :
    w'.SameTypes ss := by
  intro name
  rw [h name, World.column?, World.column?, hw.sources]

namespace Run

/-- The run does what reading does, and other sources with the same types make no difference to it. -/
structure SeesTypes {α : Type} (x : Run α) (Q : α → Prop) : Prop where
  meets : Meets .reading x Q
  same {w : World} {ss : List Source} : w.SameTypes ss →
    x.exec (w.withSources ss) = ((x.exec w).1, (x.exec w).2.withSources ss)

namespace SeesTypes

variable {α β : Type} {x : Run α} {f : α → Run β} {P Q : α → Prop} {R : β → Prop} {c : Context}

theorem pure {a : α} (h : Q a) : SeesTypes (Pure.pure a) Q := ⟨.pure h, fun _ => rfl⟩

theorem throw {h : Halt} : SeesTypes (throw h : Run α) Q := ⟨.throw trivial, fun _ => rfl⟩

theorem fail {f : Fault} : SeesTypes (Run.fail f : Run α) Q := throw

theorem bind (hx : SeesTypes x P) (hf : ∀ a, P a → SeesTypes (f a) R) : SeesTypes (x >>= f) R := by
  refine ⟨hx.meets.bind fun a ha => (hf a ha).meets, fun {w ss} hss => ?_⟩
  obtain ⟨-, hread, hresult⟩ := hx.meets w trivial
  rw [exec_bind, exec_bind, hx.same hss]
  rcases hr : exec x w with ⟨halt | a, v⟩
  · rfl
  · rw [hr] at hread hresult
    exact (hf a hresult).same (hss.of_readInto hread)

theorem mono (hx : SeesTypes x P) (h : ∀ a, P a → Q a) : SeesTypes x Q := ⟨hx.meets.mono h, hx.same⟩

theorem nested (hx : SeesTypes x Q) (function : String) : SeesTypes (Run.nested function x) Q := by
  refine ⟨hx.meets.nested_of_within fun _ _ => trivial, fun {w ss} hss => ?_⟩
  rw [exec_nested, exec_nested, hx.same hss]

theorem inText (hx : SeesTypes x Q) : SeesTypes (Run.inText x) Q := by
  refine ⟨hx.meets.inText (Contract.lets_reading rfl) (Contract.lets_reading rfl), fun {w ss} hss => ?_⟩
  have hopening : exec x (w.opening.withSources ss) = ((exec x w.opening).1, (exec x w.opening).2.withSources ss) :=
    hx.same hss
  rw [exec_inText, exec_inText, show (w.withSources ss).opening = w.opening.withSources ss from rfl, hopening]
  rfl

/-- What does not look at the sources cannot tell them apart. -/
theorem look {f : World → Run α} (hview : ∀ w ss, w.SameTypes ss → f (w.withSources ss) = f w)
    (hf : ∀ w, SeesTypes (f w) Q) : SeesTypes (world >>= f) Q := by
  refine ⟨.bind (.world (Q := fun _ => True) fun _ _ => trivial) fun w _ => (hf w).meets, fun {w ss} hss => ?_⟩
  rw [exec_bind, exec_bind, exec_world, exec_world]
  show exec (f (w.withSources ss)) (w.withSources ss) = _
  rw [hview w ss hss]
  exact (hf w).same hss

theorem note {e : Event} (he : e.isPassing = false) : SeesTypes (Run.note e) fun _ => True :=
  ⟨.note (Contract.lets_reading he) trivial, fun _ => rfl⟩

theorem poll : SeesTypes c.poll fun _ => True := by
  refine ⟨.poll_of_lets Contract.lets_poll_reading trivial trivial, fun {w ss} _ => ?_⟩
  cases hc : c.host with
  | none =>
    have hnone : c.poll = Pure.pure () := by rw [Context.poll, hc]
    rw [hnone]
    rfl
  | some host =>
    rw [exec_poll hc, exec_poll hc]
    rfl

theorem scope? (name : String) : SeesTypes (Run.scope? name) fun _ => True :=
  look (fun _ _ _ => rfl) fun _ => pure trivial

theorem newStream (seed : Nat) : SeesTypes (Node.newStream seed) fun _ => True :=
  (note (e := .drawn) rfl).bind fun _ _ => look (fun _ _ _ => rfl) fun _ =>
    bind (P := fun _ => True) ⟨.alter (Contract.lets_stream_reading seed) trivial, fun _ => rfl⟩ fun _ _ => pure trivial

theorem columnOf? (name : String) : SeesTypes (Node.columnOf? name) fun _ => True := by
  refine look (fun w ss hss => ?_) fun _ => pure trivial
  rw [show (w.withSources ss).column? name = w.column? name from hss name]

/-! ### Reading -/

/-- Nothing that takes its value from a row or a moment is evaluated. -/
theorem evaluates : c.Evaluates (fun _ => False) fun _ {_} x _ => SeesTypes x fun _ => True where
  pure _ := pure trivial
  fail _ := fail
  bind hx hf := hx.bind fun a _ => hf a
  poll := poll
  step {_ e} he := note (by cases e <;> first | rfl | cases he)
  supplied h := h.elim
  random h := h.elim
  time h := h.elim
  row h _ := h.elim
  scope? name _ _ := scope? name
  column h := h.elim
  columnValue _ h := h.elim
  inText := inText
  evalText hx := hx.inText.nested _
  mono hx _ := hx

theorem carries (c : Context) : c.Carries (fun _ => False) fun x _ Q => SeesTypes x Q where
  pure := pure
  fail _ := fail
  bind := bind
  mono := mono
  within function hx := hx.nested function
  scope? := scope?
  newStream := newStream
  evaluates := evaluates
  columnOf? := columnOf?
  built _ _ := note rfl
  exhausted := throw

end SeesTypes

end Run

namespace Context

variable (c : Context) (s : String) (w : World)

/-- Reading a text looks at the types of columns alone. -/
theorem parse_sees_types : Run.SeesTypes (c.parse s) fun _ => True := (Run.SeesTypes.carries c).parse_related s

/-- Reading a text does what reading does, whatever comes of it. -/
theorem parse_readInto : w.ReadInto ((c.parse s).exec w).2 := ((c.parse_sees_types s).meets w trivial).2.1

end Context

end Rowwise
