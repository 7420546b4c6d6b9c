import Mathlib.Data.List.Basic
import Mathlib.Tactic.IntervalCases
import Rowwise.Eval.Evaluate

/-!
# Rowwise.Proofs.Evaluation.Functions — what functions yield for arguments that they accept

A standard function that is given as many arguments as its arity accepts, of types that its places accept, finds every
argument that it reads: it yields a value of its result type, or fails by a cause other than a lost argument
(`StrictFunction.Fits`).
-/

namespace Rowwise

/-! ### Results without lost arguments -/

/-- The result has the property, or no argument is lost. -/
def Proper {α : Type} (Q : α → Prop) : Except ValueCause α → Prop
  | .ok a => Q a
  | .error cause => cause ≠ .lostArgument

section Proper

variable {α β : Type} {P : α → Prop} {x : Except ValueCause α}

theorem Proper.bind {R : β → Prop} {f : α → Except ValueCause β} (hx : Proper P x) (hf : ∀ a, P a → Proper R (f a)) :
    Proper R (x >>= f) := by
  cases x with
  | ok a => exact hf a hx
  | error cause => exact hx

theorem Proper.map {f : α → β} {R : β → Prop} (hx : Proper P x) (hf : ∀ a, P a → R (f a)) :
    Proper R (x.map f) := by
  cases x with
  | ok a => exact hf a hx
  | error cause => exact hx

end Proper

/-! ### Accepted types -/

theorem badParam?_cons {i : Nat} {p q : Param} {ps : List Param} {t : ValueType} {ts : List ValueType} :
    badParam? i (p :: q :: ps) (t :: ts) = none ↔ p.accepts t = true ∧ badParam? (i + 1) (q :: ps) ts = none := by
  simp only [badParam?]
  split <;> simp_all

theorem badParam?_last {i : Nat} {p : Param} {ts : List ValueType} :
    badParam? i [p] ts = none ↔ ∀ t ∈ ts, p.accepts t = true := by
  induction ts generalizing i with
  | nil => simp [badParam?]
  | cons t ts ih =>
    simp only [badParam?, List.forall_mem_cons]
    split
    · rename_i h
      rw [ih]
      simp [h]
    · rename_i h
      simp [h]

theorem accepts_head {i : Nat} {p : Param} {ps : List Param} {t : ValueType} {ts : List ValueType}
    (h : badParam? i (p :: ps) (t :: ts) = none) : p.accepts t = true := by
  cases ps with
  | nil => exact badParam?_last.1 h t List.mem_cons_self
  | cons q ps => exact (badParam?_cons.1 h).1

theorem length_of_between {l m n : Nat} (h : (Arity.between l m).accepts n = true) : l ≤ n ∧ n ≤ m := by
  obtain ⟨hl, hm⟩ := Bool.and_eq_true_iff.1 h
  exact ⟨of_decide_eq_true hl, of_decide_eq_true hm⟩

theorem length_of_exact {m n : Nat} (h : (Arity.exact m).accepts n = true) : n = m := by
  obtain ⟨hl, hm⟩ := length_of_between (l := m) (m := m) h
  exact Nat.le_antisymm hm hl

/-! ### Values of a type -/

namespace Value

theorem eq_text {v : Value} (h : v.type = .text) : ∃ s, v = .text s := by
  cases v <;> first | exact ⟨_, rfl⟩ | cases h

theorem eq_of_text? {v : Value} {s : String} (h : v.text? = some s) : v = .text (some s) := by
  cases v <;> first | exact congrArg text h | cases h

theorem eq_instant {v : Value} (h : v.type = .instant) : ∃ t, v = .instant t := by
  cases v <;> first | exact ⟨_, rfl⟩ | cases h

theorem eq_timeOfDay {v : Value} (h : v.type = .timeOfDay) : ∃ t, v = .timeOfDay t := by
  cases v <;> first | exact ⟨_, rfl⟩ | cases h

theorem type_number {t : ValueType} (h : t.isNumeric = true) (x : Float) : (number t x).type = t := by
  cases t <;> first | rfl | exact absurd h (by decide)

theorem type_retag {t : ValueType} {v : Value} (h : v.type.storage = t.storage) : (v.retag t).type = t := by
  unfold retag
  split
  · rename_i hnum
    exact type_number hnum _
  · rename_i hnum
    cases hv : v.type <;> cases t <;> simp_all [ValueType.isNumeric, ValueType.storage]

theorem type_cast {zone : Zone} {v w : Value} {target : ValueType} (h : v.cast zone target = .ok w) :
    w.type = target := by
  unfold cast at h
  split at h
  · cases h
    split
    · assumption
    · exact type_convert zone v target
  · cases h

end Value

section Accepted

variable {i : Nat} {p : Param} {ps : List Param} {v : Value} {args : List Value}

/-- A place for texts, with places behind it. -/
theorem text_accepted (h : badParam? i (.text :: p :: ps) ((v :: args).map Value.type) = none) :
    (∃ s, v = .text s) ∧ badParam? (i + 1) (p :: ps) (args.map Value.type) = none :=
  (badParam?_cons.1 h).imp_left fun ht => Value.eq_text (of_decide_eq_true ht)

theorem instant_accepted (h : badParam? i (.instant :: p :: ps) ((v :: args).map Value.type) = none) :
    (∃ t, v = .instant t) ∧ badParam? (i + 1) (p :: ps) (args.map Value.type) = none :=
  (badParam?_cons.1 h).imp_left fun ht => Value.eq_instant (of_decide_eq_true ht)

theorem timeOfDay_accepted (h : badParam? i (.timeOfDay :: p :: ps) ((v :: args).map Value.type) = none) :
    (∃ t, v = .timeOfDay t) ∧ badParam? (i + 1) (p :: ps) (args.map Value.type) = none :=
  (badParam?_cons.1 h).imp_left fun ht => Value.eq_timeOfDay (of_decide_eq_true ht)

/-- The last place, if it is for texts, is for all arguments that remain. -/
theorem texts_accepted (h : badParam? i [.text] (args.map Value.type) = none) (hv : v ∈ args) : ∃ s, v = .text s :=
  Value.eq_text (of_decide_eq_true (badParam?_last.1 h _ (List.mem_map_of_mem hv)))

end Accepted

/-! ### Readings of texts and numbers -/

theorem wholeNumber_proper (what : String) (x : Float) : Proper (fun _ => True) (wholeNumber what x) := by
  unfold wholeNumber
  split
  · exact ValueCause.noConfusion
  · split
    · trivial
    · exact ValueCause.noConfusion

theorem characterCount_proper (what : String) (x : Float) : Proper (fun _ => True) (characterCount what x) := by
  unfold characterCount
  split
  · exact ValueCause.noConfusion
  · split
    · trivial
    · exact ValueCause.noConfusion

theorem readPattern_proper (whole : Bool) (s : String) : Proper (fun _ => True) (readPattern whole s) := by
  unfold readPattern
  split
  · trivial
  · exact ValueCause.noConfusion
  · exact ValueCause.noConfusion

theorem readUnit_proper (s : String) : Proper (fun _ => True) (readUnit s) := by
  unfold readUnit
  split
  · trivial
  · exact ValueCause.noConfusion

theorem readUnitOfDay_proper (days : Bool) (s : String) : Proper (fun _ => True) (readUnitOfDay days s) := by
  refine (readUnit_proper s).bind fun u _ => ?_
  split
  · trivial
  · exact ValueCause.noConfusion

theorem readZone_proper (s : String) : Proper (fun _ => True) (readZone s) := by
  unfold readZone
  split
  · trivial
  · exact ValueCause.noConfusion

theorem readLocale_proper (s : String) : Proper (fun _ => True) (readLocale s) := by
  unfold readLocale
  split
  · trivial
  · exact ValueCause.noConfusion

theorem readItems_proper (l : Locale) (s : String) : Proper (fun _ => True) (readItems l s) := by
  unfold readItems
  split
  · trivial
  · exact ValueCause.noConfusion

theorem onCalendar_proper {α : Type} (x : Except CalendarCause α) : Proper (fun _ => True) (onCalendar x) := by
  cases x with
  | ok a => trivial
  | error cause => exact ValueCause.noConfusion

theorem zoneAt_proper (zone : Zone) (args : List Value) (i : Nat) : Proper (fun _ => True) (zoneAt zone args i) := by
  unfold zoneAt
  split
  · trivial
  · exact (readZone_proper _).bind fun _ _ => trivial
  · trivial

theorem localeAt_proper (args : List Value) (i : Nat) : Proper (fun _ => True) (localeAt args i) := by
  unfold localeAt
  split
  · exact (readLocale_proper _).bind fun _ _ => trivial
  · trivial

/-! ### Functions of numbers -/

namespace NumberFunction

/-- True if the function reads just this number of arguments. -/
def takes : NumberFunction → Nat → Bool
  | round, 1 | round, 2 | bitOr, 2 | bitAnd, 2 | bitXor, 2 | bitNot, 1 => true
  | f, 1 => f.unary?.isSome
  | f, 2 => f.binary?.isSome
  | _, _ => false

theorem onBits_proper (f : BitVec 64 → BitVec 64 → BitVec 64) (x y : Float) :
    Proper (fun _ => True) (onBits f x y) := by
  unfold onBits
  split
  · trivial
  · exact (wholeNumber_proper _ x).bind fun _ _ => (wholeNumber_proper _ y).bind fun _ _ => trivial

theorem run_proper {f : NumberFunction} {xs : List Float} (h : f.takes xs.length = true) :
    Proper (fun _ => True) (f.run xs) := by
  match xs, h with
  | [], h => cases f <;> exact absurd h Bool.false_ne_true
  | [x], h =>
    cases f with
    | bitNot =>
      show Proper _ (if _ then _ else _)
      split
      · trivial
      · exact (wholeNumber_proper _ x).bind fun _ _ => trivial
    | _ => first | exact trivial | exact absurd h Bool.false_ne_true
  | [x, y], h =>
    cases f with
    | round =>
      show Proper _ (if _ then _ else _)
      split
      · trivial
      · exact (wholeNumber_proper _ y).bind fun _ _ => trivial
    | bitOr | bitAnd | bitXor => exact onBits_proper _ x y
    | _ => first | exact trivial | exact absurd h Bool.false_ne_true
  | _ :: _ :: _ :: _, h => cases f <;> exact absurd h Bool.false_ne_true

/-- The named functions read every count of arguments that their arity accepts. -/
theorem takes_of_accepts {f : NumberFunction} (hf : f ∈ Builtin.numbers) {n : Nat}
    (h : f.signature.arity.accepts n = true) : f.takes n = true := by
  cases f with
  | negate | add | subtract => simp [Builtin.numbers] at hf
  | round =>
    obtain ⟨hl, hu⟩ := length_of_between h
    interval_cases n <;> rfl
  | _ =>
    have hn := length_of_exact h
    subst hn
    rfl

theorem foldl_join_numeric (ts : List ValueType) {t : ValueType} (h : t.isNumeric = true) :
    (ts.foldl ValueType.join t).isNumeric = true := by
  induction ts generalizing t with
  | nil => exact h
  | cons u ts ih =>
    apply ih
    unfold ValueType.join
    split <;> rfl

/-- Results for arguments that are numbers are numbers. -/
theorem result_numeric (f : NumberFunction) {types : List ValueType} (h : ∀ t ∈ types, t.isNumeric = true) :
    (f.result types).isNumeric = true := by
  have hhead : (types.headD .double).isNumeric = true := by
    cases types with
    | nil => rfl
    | cons t ts => exact h t List.mem_cons_self
  cases f with
  | add | subtract | multiply | remainder => exact foldl_join_numeric types rfl
  | negate | absolute => exact hhead
  | round =>
    unfold result
    simp only
    split <;> rfl
  | _ => rfl

end NumberFunction

/-! ### Functions of texts -/

namespace TextFunction

/-- The result has the type of the function's results. -/
abbrev Typed (f : TextFunction) (r : Except ValueCause Value) : Prop := Proper (fun v => v.type = f.result) r

theorem cutAt_typed (s : String) (start size : Float) : cut.Typed (cutAt s start size) := by
  refine (characterCount_proper _ start).bind fun a _ => (characterCount_proper _ size).bind fun b _ => ?_
  show Proper _ (if _ then _ else _)
  split
  · exact ValueCause.noConfusion
  · exact rfl

theorem charAt_typed (s : String) (index : Float) : char.Typed (charAt s index) := by
  refine (characterCount_proper _ index).bind fun i _ => ?_
  split
  · exact rfl
  · exact ValueCause.noConfusion

/-- A missing value among the arguments gives a missing result. -/
theorem typed_of_present {f : TextFunction} {args : List Value}
    (h : args.any Value.isMissing = false → f.Typed (f.runPresent args)) :
    f.Typed (if args.any Value.isMissing then .ok (.missing f.result) else f.runPresent args) := by
  split
  · exact Value.type_missing _
  · rename_i hany
    exact h (Bool.eq_false_iff.2 hany)

/-- A function of texts reads every argument that it accepts. -/
theorem run_typed {f : TextFunction} {args : List Value} (harity : f.signature.arity.accepts args.length = true)
    (hparams : badParam? 1 (Builtin.text f).params (args.map Value.type) = none) : f.Typed (f.run args) := by
  cases f with
  | text =>
    obtain ⟨v, rfl⟩ := List.length_eq_one_iff.1 (length_of_exact harity)
    exact rfl
  | parse | lower | upper | trim | length | escapeMarkup =>
    obtain ⟨v, rfl⟩ := List.length_eq_one_iff.1 (length_of_exact harity)
    obtain ⟨s, rfl⟩ := texts_accepted hparams (v := v) (by simp)
    cases s <;> exact rfl
  | index | compare | contains | equals | starts | ends =>
    obtain ⟨v, w, rfl⟩ := List.length_eq_two.1 (length_of_exact harity)
    obtain ⟨s, rfl⟩ := texts_accepted hparams (v := v) (by simp)
    obtain ⟨t, rfl⟩ := texts_accepted hparams (v := w) (by simp)
    cases s <;> cases t <;> exact rfl
  | wholeMatch | partMatch =>
    obtain ⟨v, w, rfl⟩ := List.length_eq_two.1 (length_of_exact harity)
    obtain ⟨s, rfl⟩ := texts_accepted hparams (v := v) (by simp)
    obtain ⟨t, rfl⟩ := texts_accepted hparams (v := w) (by simp)
    cases s <;> cases t <;> first | exact rfl | exact (readPattern_proper _ _).bind fun _ _ => rfl
  | replace =>
    obtain ⟨u, v, w, rfl⟩ := List.length_eq_three.1 (length_of_exact harity)
    obtain ⟨r, rfl⟩ := texts_accepted hparams (v := u) (by simp)
    obtain ⟨s, rfl⟩ := texts_accepted hparams (v := v) (by simp)
    obtain ⟨t, rfl⟩ := texts_accepted hparams (v := w) (by simp)
    refine typed_of_present fun hany => ?_
    cases r <;> cases s <;> cases t <;> simp [Value.isMissing] at hany
    show Proper _ (if _ then _ else _)
    split
    · exact ValueCause.noConfusion
    · exact rfl
  | replaceAll =>
    obtain ⟨u, v, w, rfl⟩ := List.length_eq_three.1 (length_of_exact harity)
    obtain ⟨r, rfl⟩ := texts_accepted hparams (v := u) (by simp)
    obtain ⟨s, rfl⟩ := texts_accepted hparams (v := v) (by simp)
    obtain ⟨t, rfl⟩ := texts_accepted hparams (v := w) (by simp)
    cases r <;> cases s <;> cases t <;> first | exact rfl | exact (readPattern_proper _ _).bind fun _ _ => rfl
  | cut =>
    obtain ⟨u, v, w, rfl⟩ := List.length_eq_three.1 (length_of_exact harity)
    obtain ⟨⟨s, rfl⟩, -⟩ := text_accepted hparams
    refine typed_of_present fun hany => ?_
    cases s with
    | none => simp [Value.isMissing] at hany
    | some s => exact cutAt_typed s v.toNumber w.toNumber
  | char =>
    obtain ⟨u, v, rfl⟩ := List.length_eq_two.1 (length_of_exact harity)
    obtain ⟨⟨s, rfl⟩, -⟩ := text_accepted hparams
    refine typed_of_present fun hany => ?_
    cases s with
    | none => simp [Value.isMissing] at hany
    | some s => exact charAt_typed s v.toNumber
  | first | last =>
    obtain ⟨u, v, rfl⟩ := List.length_eq_two.1 (length_of_exact harity)
    obtain ⟨⟨s, rfl⟩, -⟩ := text_accepted hparams
    refine typed_of_present fun hany => ?_
    cases s with
    | none => simp [Value.isMissing] at hany
    | some s => exact (characterCount_proper _ _).bind fun _ _ => rfl

end TextFunction

/-! ### Functions of instants and times of day -/

namespace CalendarFunction

/-- The result has the type of the function's results. -/
abbrev Typed (f : CalendarFunction) (r : Except ValueCause Value) : Prop := Proper (fun v => v.type = f.result) r

theorem writeBy_proper (l : Locale) (m : Moment) (pattern : String) :
    Proper (fun _ => True) (writeBy l m pattern) := by
  refine (readItems_proper l pattern).bind fun items _ => ?_
  split
  · trivial
  · exact ValueCause.noConfusion

theorem writeTime_proper (locale : Option Locale) (t : TimeOfDay) (pattern : String) :
    Proper (fun _ => True) (writeTime locale t pattern) := by
  refine (writeBy_proper _ _ _).bind fun plain _ => ?_
  cases locale with
  | none => trivial
  | some l => exact writeBy_proper l _ pattern

theorem orUnreadable_proper {α : Type} (s : String) (pattern : Option String) (r : Option α) :
    Proper (fun _ => True) (orUnreadable s pattern r) := by
  cases r with
  | none => exact ValueCause.noConfusion
  | some a => trivial

theorem readInstant_proper (zone : Zone) (s : String) (pattern : Option String) :
    Proper (fun _ => True) (readInstant zone s pattern) := by
  cases pattern with
  | none => exact orUnreadable_proper _ _ _
  | some p => exact (readItems_proper _ p).bind fun _ _ => orUnreadable_proper _ _ _

theorem readTime_proper (s : String) (pattern : Option String) : Proper (fun _ => True) (readTime s pattern) := by
  cases pattern with
  | none => exact orUnreadable_proper _ _ _
  | some p => exact (readItems_proper _ p).bind fun _ _ => orUnreadable_proper _ _ _

theorem instantOfNumber_typed (x : Float) : dateOfMillis.Typed (instantOfNumber x) := by
  unfold instantOfNumber
  split
  · exact rfl
  · split
    · exact rfl
    · exact ValueCause.noConfusion

/-- With a zone that may be missing, a function goes on in the zone or yields a missing value. -/
theorem typed_of_zone {f : CalendarFunction} {zone : Zone} {args : List Value} {i : Nat}
    {g : Zone → Except ValueCause Value} (hg : ∀ z, f.Typed (g z)) :
    f.Typed (do
      match ← zoneAt zone args i with
      | some z => g z
      | none => return .missing f.result) := by
  refine (zoneAt_proper zone args i).bind fun z _ => ?_
  cases z with
  | none => exact Value.type_missing _
  | some z => exact hg z

section Present

variable (zone : Zone) (rest : List Value)

theorem dateDiff_typed (a b : Option Instant) (s : Option String) :
    dateDiff.Typed (dateDiff.run zone (.instant a :: .instant b :: .text s :: rest)) := by
  rcases a with _ | a
  · exact rfl
  rcases b with _ | b
  · exact rfl
  rcases s with _ | s
  · exact rfl
  refine (readUnit_proper s).bind fun unit _ => typed_of_zone fun z => ?_
  exact (onCalendar_proper _).bind fun _ _ => rfl

theorem dateAdd_typed (a : Option Instant) (amount : Value) (s : Option String) :
    dateAdd.Typed (dateAdd.run zone (.instant a :: amount :: .text s :: rest)) := by
  rcases a with _ | a
  · exact rfl
  rcases s with _ | s
  · exact rfl
  refine (readUnit_proper s).bind fun unit _ => typed_of_zone fun z => ?_
  exact (onCalendar_proper _).bind fun _ _ => rfl

theorem dateSet_typed (a : Option Instant) (field : Value) (s : Option String) :
    dateSet.Typed (dateSet.run zone (.instant a :: field :: .text s :: rest)) := by
  rcases a with _ | a
  · exact rfl
  rcases s with _ | s
  · exact rfl
  show Proper _ (if _ then _ else _)
  split
  · exact rfl
  · refine (readUnit_proper s).bind fun unit _ => typed_of_zone fun z => ?_
    exact (onCalendar_proper _).bind fun _ _ => rfl

theorem dateGet_typed (a : Option Instant) (s : Option String) :
    dateGet.Typed (dateGet.run zone (.instant a :: .text s :: rest)) := by
  rcases a with _ | a
  · exact rfl
  rcases s with _ | s
  · exact rfl
  exact (readUnit_proper s).bind fun unit _ => typed_of_zone fun z => rfl

theorem dateOfText_typed (s : Option String) : dateOfText.Typed (dateOfText.run zone (.text s :: rest)) := by
  rcases s with _ | s
  · exact rfl
  refine (localeAt_proper _ 2).bind fun _ _ => (zoneAt_proper zone _ 3).bind fun z _ => ?_
  exact (readInstant_proper _ s _).bind fun _ _ => rfl

theorem dateText_typed (a : Option Instant) : dateText.Typed (dateText.run zone (.instant a :: rest)) := by
  rcases a with _ | a
  · exact rfl
  refine (localeAt_proper _ 2).bind fun l _ => (zoneAt_proper zone _ 3).bind fun z _ => ?_
  cases textAt (.instant (some a) :: rest) 1 with
  | none => exact rfl
  | some pattern => exact (writeBy_proper _ _ pattern).bind fun _ _ => rfl

theorem timeDiff_typed (a b : Option TimeOfDay) (s : Option String) :
    timeDiff.Typed (timeDiff.run zone [.timeOfDay a, .timeOfDay b, .text s]) := by
  rcases a with _ | a
  · exact rfl
  rcases b with _ | b
  · exact rfl
  rcases s with _ | s
  · exact rfl
  exact (readUnitOfDay_proper true s).bind fun _ _ => rfl

theorem timeAdd_typed (a : Option TimeOfDay) (amount : Value) (s : Option String) :
    timeAdd.Typed (timeAdd.run zone [.timeOfDay a, amount, .text s]) := by
  rcases a with _ | a
  · exact rfl
  rcases s with _ | s
  · exact rfl
  exact (readUnitOfDay_proper true s).bind fun _ _ => rfl

theorem timeSet_typed (a : Option TimeOfDay) (field : Value) (s : Option String) :
    timeSet.Typed (timeSet.run zone [.timeOfDay a, field, .text s]) := by
  rcases a with _ | a
  · exact rfl
  rcases s with _ | s
  · exact rfl
  show Proper _ (if _ then _ else _)
  split
  · exact rfl
  · refine (readUnitOfDay_proper false s).bind fun unit _ => ?_
    exact (onCalendar_proper _).bind fun _ _ => rfl

theorem timeGet_typed (a : Option TimeOfDay) (s : Option String) :
    timeGet.Typed (timeGet.run zone [.timeOfDay a, .text s]) := by
  rcases a with _ | a
  · exact rfl
  rcases s with _ | s
  · exact rfl
  exact (readUnitOfDay_proper false s).bind fun _ _ => rfl

theorem timeOfText_typed (s : Option String) : timeOfText.Typed (timeOfText.run zone (.text s :: rest)) := by
  rcases s with _ | s
  · exact rfl
  refine (localeAt_proper _ 2).bind fun _ _ => ?_
  exact (readTime_proper s _).bind fun _ _ => rfl

theorem timeText_typed (a : Option TimeOfDay) : timeText.Typed (timeText.run zone (.timeOfDay a :: rest)) := by
  rcases a with _ | a
  · exact rfl
  refine (localeAt_proper _ 2).bind fun l _ => ?_
  cases textAt (.timeOfDay (some a) :: rest) 1 with
  | none => exact rfl
  | some pattern => exact (writeTime_proper _ _ pattern).bind fun _ _ => rfl

end Present

/-- A function of instants and times of day reads every argument that it accepts. -/
theorem run_typed (zone : Zone) {f : CalendarFunction} {args : List Value}
    (harity : f.signature.arity.accepts args.length = true)
    (hparams : badParam? 1 (Builtin.calendar f).params (args.map Value.type) = none) :
    f.Typed (f.run zone args) := by
  cases f with
  | dateDiff =>
    match args, harity with
    | a :: b :: c :: rest, _ =>
      obtain ⟨⟨a, rfl⟩, hrest⟩ := instant_accepted hparams
      obtain ⟨⟨b, rfl⟩, hlast⟩ := instant_accepted hrest
      obtain ⟨s, rfl⟩ := texts_accepted hlast List.mem_cons_self
      exact dateDiff_typed zone rest a b s
  | dateAdd =>
    match args, harity with
    | a :: amount :: c :: rest, _ =>
      obtain ⟨⟨a, rfl⟩, hrest⟩ := instant_accepted hparams
      obtain ⟨s, rfl⟩ := texts_accepted (badParam?_cons.1 hrest).2 List.mem_cons_self
      exact dateAdd_typed zone rest a amount s
  | dateSet =>
    match args, harity with
    | a :: field :: c :: rest, _ =>
      obtain ⟨⟨a, rfl⟩, hrest⟩ := instant_accepted hparams
      obtain ⟨s, rfl⟩ := texts_accepted (badParam?_cons.1 hrest).2 List.mem_cons_self
      exact dateSet_typed zone rest a field s
  | dateGet =>
    match args, harity with
    | a :: c :: rest, _ =>
      obtain ⟨⟨a, rfl⟩, hrest⟩ := instant_accepted hparams
      obtain ⟨s, rfl⟩ := texts_accepted hrest List.mem_cons_self
      exact dateGet_typed zone rest a s
  | dateOfText =>
    match args, harity with
    | a :: rest, _ =>
      obtain ⟨s, rfl⟩ := texts_accepted hparams List.mem_cons_self
      exact dateOfText_typed zone rest s
  | dateText =>
    match args, harity with
    | a :: rest, _ =>
      obtain ⟨a, rfl⟩ := Value.eq_instant (of_decide_eq_true (accepts_head hparams))
      exact dateText_typed zone rest a
  | dateBefore | dateAfter =>
    obtain ⟨a, b, rfl⟩ := List.length_eq_two.1 (length_of_exact harity)
    have hall := badParam?_last.1 hparams
    obtain ⟨a, rfl⟩ := Value.eq_instant (of_decide_eq_true (hall _ List.mem_cons_self))
    obtain ⟨b, rfl⟩ := Value.eq_instant (of_decide_eq_true (hall _ (List.mem_cons_of_mem _ List.mem_cons_self)))
    cases a <;> cases b <;> exact rfl
  | dateMillis =>
    obtain ⟨a, rfl⟩ := List.length_eq_one_iff.1 (length_of_exact harity)
    obtain ⟨a, rfl⟩ := Value.eq_instant (of_decide_eq_true (accepts_head hparams))
    cases a <;> exact rfl
  | dateOfMillis =>
    obtain ⟨x, rfl⟩ := List.length_eq_one_iff.1 (length_of_exact harity)
    exact instantOfNumber_typed x.toNumber
  | timeDiff =>
    obtain ⟨a, b, c, rfl⟩ := List.length_eq_three.1 (length_of_exact harity)
    obtain ⟨⟨a, rfl⟩, hrest⟩ := timeOfDay_accepted hparams
    obtain ⟨⟨b, rfl⟩, hlast⟩ := timeOfDay_accepted hrest
    obtain ⟨s, rfl⟩ := texts_accepted hlast List.mem_cons_self
    exact timeDiff_typed zone a b s
  | timeAdd =>
    obtain ⟨a, amount, c, rfl⟩ := List.length_eq_three.1 (length_of_exact harity)
    obtain ⟨⟨a, rfl⟩, hrest⟩ := timeOfDay_accepted hparams
    obtain ⟨s, rfl⟩ := texts_accepted (badParam?_cons.1 hrest).2 List.mem_cons_self
    exact timeAdd_typed zone a amount s
  | timeSet =>
    obtain ⟨a, field, c, rfl⟩ := List.length_eq_three.1 (length_of_exact harity)
    obtain ⟨⟨a, rfl⟩, hrest⟩ := timeOfDay_accepted hparams
    obtain ⟨s, rfl⟩ := texts_accepted (badParam?_cons.1 hrest).2 List.mem_cons_self
    exact timeSet_typed zone a field s
  | timeGet =>
    obtain ⟨a, c, rfl⟩ := List.length_eq_two.1 (length_of_exact harity)
    obtain ⟨⟨a, rfl⟩, hrest⟩ := timeOfDay_accepted hparams
    obtain ⟨s, rfl⟩ := texts_accepted hrest List.mem_cons_self
    exact timeGet_typed zone a s
  | timeOfText =>
    match args, harity with
    | a :: rest, _ =>
      obtain ⟨s, rfl⟩ := texts_accepted hparams List.mem_cons_self
      exact timeOfText_typed zone rest s
  | timeText =>
    match args, harity with
    | a :: rest, _ =>
      obtain ⟨a, rfl⟩ := Value.eq_timeOfDay (of_decide_eq_true (accepts_head hparams))
      exact timeText_typed zone rest a

end CalendarFunction

/-! ### All functions of values -/

theorem logic_proper {l : Logic} {args : List Value} (h : l.signature.arity.accepts args.length = true) :
    Proper (fun _ => True) (l.run args) := by
  cases l with
  | not =>
    obtain ⟨a, rfl⟩ := List.length_eq_one_iff.1 (length_of_exact h)
    trivial
  | and | or =>
    obtain ⟨a, b, rfl⟩ := List.length_eq_two.1 (length_of_exact h)
    trivial

namespace StrictFunction

/-- For arguments of these types the function yields values of the type `type`, and no argument is lost. -/
def Fits (f : StrictFunction) (type : ValueType) (types : List ValueType) : Prop :=
  ∀ zone (args : List Value), args.map Value.type = types → Proper (fun v => v.type = type) (f.run zone type args)

variable {types : List ValueType} {type : ValueType}

theorem fits_number {f : NumberFunction} (h : f.takes types.length = true) (ht : type.isNumeric = true) :
    (number f).Fits type types := by
  rintro zone args rfl
  have htakes : f.takes (args.map Value.toNumber).length = true := by simpa using h
  exact (NumberFunction.run_proper htakes).bind fun x _ => Value.type_number ht x

theorem fits_join {a b : ValueType} : join.Fits .text [a, b] := by
  intro zone args hargs
  obtain ⟨v, w, rfl⟩ := List.length_eq_two.1 (by simpa using congrArg List.length hargs)
  exact rfl

theorem fits_order {o : Order} {a b : ValueType} : (order o).Fits .boolean [a, b] := by
  intro zone args hargs
  obtain ⟨v, w, rfl⟩ := List.length_eq_two.1 (by simpa using congrArg List.length hargs)
  exact rfl

theorem fits_equality {negated : Bool} (h : types.length = 2) : (equality negated).Fits .boolean types := by
  rintro zone args rfl
  obtain ⟨v, w, rfl⟩ := List.length_eq_two.1 (by simpa using h)
  exact rfl

theorem fits_logic {l : Logic} (h : l.signature.arity.accepts types.length = true) : (logic l).Fits .boolean types := by
  rintro zone args rfl
  exact (logic_proper (by simpa using h)).bind fun _ _ => rfl

theorem fits_isMissing (h : types.length = 1) : isMissing.Fits .boolean types := by
  rintro zone args rfl
  obtain ⟨v, rfl⟩ := List.length_eq_one_iff.1 (by simpa using h)
  exact rfl

theorem fits_text {f : TextFunction} (h : f.signature.arity.accepts types.length = true)
    (hparams : badParam? 1 (Builtin.text f).params types = none) : (text f).Fits f.result types := by
  rintro zone args rfl
  exact TextFunction.run_typed (by simpa using h) hparams

theorem fits_calendar {f : CalendarFunction} (h : f.signature.arity.accepts types.length = true)
    (hparams : badParam? 1 (Builtin.calendar f).params types = none) : (calendar f).Fits f.result types := by
  rintro zone args rfl
  exact CalendarFunction.run_typed zone (by simpa using h) hparams

end StrictFunction

namespace Aggregate

/-- The function yields values of the type `type`. -/
def Fits (f : Aggregate) (type : ValueType) : Prop := ∀ args, (f.run type args).type = type

theorem fits_concat : concat.Fits .text := fun _ => rfl

theorem fits_number {f : Aggregate} (hf : f ≠ concat) {type : ValueType} (ht : type.isNumeric = true) :
    f.Fits type := by
  intro args
  cases f with
  | concat => exact absurd rfl hf
  | _ => exact Value.type_number ht _

end Aggregate

end Rowwise
