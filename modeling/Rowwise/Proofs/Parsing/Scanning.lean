import Rowwise.Expr.Nesting
import Rowwise.Proofs.Parsing.Words

/-!
# Rowwise.Proofs.Parsing.Scanning — the scan of nesting along the words of the grammar

`Walk` says that an accepted scan goes from one place of a text to another, and by how many operators and how deep
parentheses its bound grows on the way.  There is one lemma for each kind of word.  A sign after a word is an operator
only if the word does not look like the start of an exponent (`State.Calm`), and a word that starts after a gap, an
operator or an opening mark is read as the word that it is (`State.Fresh`).
-/

namespace Rowwise.Nesting

open Grammar (body digits? exponent? float? name? name?_spelled continuesName startsName)
open Rowwise.Parser (isGap)

/-! ### Budgets -/

/-- The budget with `k` more operators and parentheses of depth `d`. -/
def Budget.grown (b : Budget) (k d : Nat) : Budget := { b with operators := b.operators + k, inner := max b.inner d }

@[simp] theorem Budget.grown_zero (b : Budget) : b.grown 0 0 = b := by simp [grown]

theorem Budget.grown_grown (b : Budget) (k d k' d' : Nat) :
    (b.grown k d).grown k' d' = b.grown (k + k') (max d d') := by
  simp only [grown, Budget.mk.injEq, and_true]
  omega

theorem Budget.le_total_grown (b : Budget) (k d : Nat) :
    b.total ≤ (b.grown k d).total ∧ k + max d 1 ≤ (b.grown k d).total := by
  simp only [grown, total, argument]
  omega

theorem Budget.total_grown (k d : Nat) : (grown {} k d).total = k + max d 1 := by
  simp only [grown, total, argument]
  omega

/-! ### States -/

/-- The state after a character that neither counts nor opens anything. -/
def State.past (s : State) (c : Char) : State := { s with before := s.last, last := c }

/-- The state after several of them. -/
def State.pastAll (s : State) (cs : List Char) : State := cs.foldl State.past s

namespace State

@[simp] theorem current_past (s : State) (c : Char) : (s.past c).current = s.current := rfl
@[simp] theorem around_past (s : State) (c : Char) : (s.past c).around = s.around := rfl
@[simp] theorem last_past (s : State) (c : Char) : (s.past c).last = c := rfl
@[simp] theorem before_past (s : State) (c : Char) : (s.past c).before = s.last := rfl

@[simp] theorem pastAll_nil (s : State) : s.pastAll [] = s := rfl
@[simp] theorem pastAll_cons (s : State) (c : Char) (cs : List Char) : s.pastAll (c :: cs) = (s.past c).pastAll cs := rfl

@[simp] theorem current_pastAll (s : State) (cs : List Char) : (s.pastAll cs).current = s.current := by
  induction cs generalizing s with
  | nil => rfl
  | cons c cs ih => simp [ih]

@[simp] theorem around_pastAll (s : State) (cs : List Char) : (s.pastAll cs).around = s.around := by
  induction cs generalizing s with
  | nil => rfl
  | cons c cs ih => simp [ih]

/-- A sign that follows is an operator. -/
def Calm (s : State) : Prop := endsExponent s.before s.last = false

/-- True for the characters of numbers and names. -/
def isWordy (c : Char) : Bool := c.isAlphanum || c = '_' || c = '.'

/-- No number or name has just been read. -/
def Fresh (s : State) : Prop := isWordy s.last = false

theorem calm_of_last {s : State} (h : s.last ≠ 'e' ∧ s.last ≠ 'E') : s.Calm := by
  simp [Calm, endsExponent, h.1, h.2]

theorem Fresh.calm {s : State} (h : s.Fresh) : s.Calm := by
  apply calm_of_last
  constructor <;> intro hlast <;> rw [Fresh, hlast] at h <;> revert h <;> decide

end State

/-! ### Characters -/

/-- The characters that the scan does not just pass. -/
def special : List Char :=
  ['"', '[', '(', ',', ')', '#', '|', '&', '=', '!', '<', '>', '+', '-', '*', '/', '%', '^']

theorem not_special_of {p : Char → Bool} (hp : special.any p = false) {c : Char} (h : p c = true) : c ∉ special := by
  intro hc
  rw [List.any_eq_true.2 ⟨c, hc, h⟩] at hp
  cases hp

theorem wordy_not_special {c : Char} (h : State.isWordy c = true) : c ∉ special := not_special_of (by decide) h

theorem gap_not_special {c : Char} (h : isGap c = true) : c ∉ special := not_special_of (by decide) h

theorem gap_not_wordy {c : Char} (h : isGap c = true) : State.isWordy c = false := by
  simp only [isGap, Bool.or_eq_true, decide_eq_true_eq] at h
  rcases h with ((rfl | rfl) | rfl) | rfl <;> decide

theorem digit_wordy {c : Char} (h : c.isDigit = true) : State.isWordy c = true := by
  simp [State.isWordy, Char.isAlphanum, h]

theorem name_wordy {c : Char} (h : continuesName c = true) : State.isWordy c = true := by
  simp only [continuesName, Bool.or_eq_true] at h
  simp only [State.isWordy, Bool.or_eq_true]
  exact Or.inl h

variable {limit : Nat}

theorem code?_plain {c : Char} (h : c ∉ special) (s : State) (next : Option Char) :
    s.code? limit c next = some (s.past c, .code) := by
  simp only [special, List.mem_cons, List.not_mem_nil, or_false, not_or] at h
  have hop : startsOperator c = false := by simp [startsOperator, h]
  unfold State.code?
  split <;> simp_all [State.past]

/-- An operator counts, unless it is the sign of an exponent or opens a reference. -/
theorem code?_operator {c : Char} (hop : startsOperator c = true) {s : State} {next : Option Char} (hs : s.Calm)
    (hopen : c = '%' → next ≠ some '\x7b') {r : State × Mode} (h : s.code? limit c next = some r) :
    r = ({ s.past c with current := s.current.withOperator }, if isPair c next then .operator else .code) ∧
      s.current.withOperator.argument ≤ limit := by
  have hmem : c ∈ ['|', '&', '=', '!', '<', '>', '+', '-', '*', '/', '%', '^'] := by simpa [startsOperator] using hop
  have hhash : c ≠ '#' := by
    rintro rfl
    simp at hmem
  have href : ((c = '%' || c = '#') && next = some '\x7b') = false := by
    by_cases hp : c = '%'
    · simp [hopen hp]
    · simp [hp, hhash]
  have hsign : ((c = '+' || c = '-') && endsExponent s.before s.last) = false := by
    rw [hs, Bool.and_false]
  have hquote : c ≠ '"' ∧ c ≠ '[' ∧ c ≠ '(' ∧ c ≠ ',' ∧ c ≠ ')' := by
    refine ⟨?_, ?_, ?_, ?_, ?_⟩ <;> rintro rfl <;> simp at hmem
  unfold State.code? at h
  split at h
  case h_6 =>
    simp only [href, hsign, hop, Bool.false_eq_true, if_false, if_true] at h
    split at h
    · cases h
    · refine ⟨(Option.some.inj h).symm, ?_⟩
      rename_i hle
      exact Nat.le_of_not_lt hle
  all_goals simp_all

/-! ### Accepted scans -/

/-- The scan goes on to the end of the text. -/
def Accepts (limit : Nat) (m : Mode) (s : State) (cs : List Char) : Prop :=
  ∃ offset, scan limit offset m s cs = none

theorem Accepts.code {s : State} {c : Char} {cs : List Char} (h : Accepts limit .code s (c :: cs)) :
    ∃ s' m, s.code? limit c cs.head? = some (s', m) ∧ Accepts limit m s' cs := by
  obtain ⟨offset, h⟩ := h
  simp only [scan] at h
  cases hc : s.code? limit c cs.head? with
  | none => simp [hc] at h
  | some r => exact ⟨r.1, r.2, rfl, offset + 1, by simpa [hc] using h⟩

theorem Accepts.operator {s : State} {c : Char} {cs : List Char} (h : Accepts limit .operator s (c :: cs)) :
    Accepts limit .code (s.past c) cs := by
  obtain ⟨offset, h⟩ := h
  exact ⟨offset + 1, by simpa [scan, State.past] using h⟩

theorem Accepts.close {s : State} {close : Char} (hclose : close ≠ '\\') {cs : List Char}
    (h : Accepts limit (.quoted close) s (close :: cs)) : Accepts limit .code (s.past close) cs := by
  obtain ⟨offset, h⟩ := h
  exact ⟨offset + 1, by simpa [scan, hclose, State.past] using h⟩

theorem Accepts.inside {s : State} {close c : Char} (hc : c ≠ '\\' ∧ c ≠ close) {cs : List Char}
    (h : Accepts limit (.quoted close) s (c :: cs)) : Accepts limit (.quoted close) s cs := by
  obtain ⟨offset, h⟩ := h
  exact ⟨offset + 1, by simpa [scan, hc] using h⟩

theorem Accepts.escape {s : State} {close c : Char} {cs : List Char}
    (h : Accepts limit (.quoted close) s ('\\' :: c :: cs)) : Accepts limit (.quoted close) s cs := by
  obtain ⟨offset, h⟩ := h
  exact ⟨offset + 2, by simpa [scan] using h⟩

/-- A text or bracketed name ends for the scan where it ends for the grammar. -/
theorem Accepts.body {s : State} {close : Char} (hclose : close ≠ '\\') {cs rest : List Char}
    (h : Accepts limit (.quoted close) s cs) (hrest : (body close cs).2 = close :: rest) :
    Accepts limit .code (s.past close) rest := by
  fun_induction Grammar.body close cs with
  | case1 c cs ih => exact ih h.escape hrest
  | case2 c cs hesc hstop =>
    cases hrest
    exact h.close hclose
  | case3 c cs hesc hgo ih =>
    rw [not_or] at hgo
    exact ih (h.inside ⟨hgo.2, hgo.1⟩) hrest
  | case4 => cases hrest

/-! ### Walks -/

/-- An accepted scan whose bound is within the limit. -/
structure Ready (limit : Nat) (s : State) (cs : List Char) : Prop where
  accepted : Accepts limit .code s cs
  bounded : s.current.argument ≤ limit

/-- The scan goes from one place to another, past `k` operators and parentheses of depth `d`. -/
structure Walk (limit : Nat) (s : State) (cs : List Char) (k d : Nat) (s' : State) (cs' : List Char) : Prop where
  ready : Ready limit s' cs'
  around : s'.around = s.around
  current : s'.current = s.current.grown k d
  shorter : cs'.length ≤ cs.length

variable {s s' s'' : State} {cs cs' cs'' : List Char} {k k' d d' : Nat}

theorem Walk.refl (h : Ready limit s cs) : Walk limit s cs 0 0 s cs := ⟨h, rfl, by simp, Nat.le_refl _⟩

theorem Walk.trans (h : Walk limit s cs k d s' cs') (h' : Walk limit s' cs' k' d' s'' cs'') :
    Walk limit s cs (k + k') (max d d') s'' cs'' :=
  ⟨h'.ready, h'.around.trans h.around, by rw [h'.current, h.current, Budget.grown_grown],
    Nat.le_trans h'.shorter h.shorter⟩

/-- A walk past characters that count nothing. -/
theorem Walk.idle (h : Walk limit s cs k d s' cs') (h' : Walk limit s' cs' 0 0 s'' cs'') :
    Walk limit s cs k d s'' cs'' := by
  have hw := h.trans h'
  rwa [Nat.add_zero, Nat.max_zero] at hw

theorem Ready.plain {c : Char} (hc : c ∉ special) (h : Ready limit s (c :: cs)) : Ready limit (s.past c) cs := by
  obtain ⟨s', m, hcode, hacc⟩ := h.accepted.code
  rw [code?_plain hc] at hcode
  obtain ⟨rfl, rfl⟩ := Prod.mk.inj (Option.some.inj hcode)
  exact ⟨hacc, h.bounded⟩

theorem walk_plain (ws : List Char) (hws : ∀ c ∈ ws, c ∉ special) (h : Ready limit s (ws ++ cs)) :
    Walk limit s (ws ++ cs) 0 0 (s.pastAll ws) cs := by
  induction ws generalizing s with
  | nil => exact Walk.refl h
  | cons c ws ih =>
    have hw := ih (fun x hx => hws x (List.mem_cons_of_mem _ hx)) (h.plain (hws c List.mem_cons_self))
    exact ⟨hw.ready, by simp, by simp, by simp; omega⟩

/-- A gap counts nothing and hides nothing. -/
theorem walk_gap (h : Ready limit s cs) : ∃ s', Walk limit s cs 0 0 s' (cs.dropWhile isGap) ∧
    (s.Calm → s'.Calm) ∧ (s.Fresh → s'.Fresh) := by
  induction cs generalizing s with
  | nil => exact ⟨s, Walk.refl h, id, id⟩
  | cons c cs ih =>
    by_cases hc : isGap c
    · obtain ⟨s', hw, hcalm, hfresh⟩ := ih (h.plain (gap_not_special hc))
      have hpast : (s.past c).Fresh := gap_not_wordy hc
      refine ⟨s', ⟨?_, hw.around, hw.current, ?_⟩, fun _ => hcalm hpast.calm, fun _ => hfresh hpast⟩
      · simpa [List.dropWhile_cons, hc] using hw.ready
      · simpa [List.dropWhile_cons, hc] using Nat.le_succ_of_le hw.shorter
    · rw [List.dropWhile_cons_of_neg hc]
      exact ⟨s, Walk.refl h, id, id⟩

/-! ### Operators -/

theorem Budget.grown_one (b : Budget) : b.withOperator = b.grown 1 0 := by simp [withOperator, grown]

theorem walk_operator {c : Char} (hop : startsOperator c = true) (hopen : c = '%' → cs.head? ≠ some '\x7b')
    (hone : isPair c cs.head? = false) (hs : s.Calm) (h : Ready limit s (c :: cs)) :
    ∃ s', Walk limit s (c :: cs) 1 0 s' cs ∧ s'.last = c := by
  obtain ⟨s', m, hcode, hacc⟩ := h.accepted.code
  obtain ⟨hr, hle⟩ := code?_operator hop hs hopen hcode
  rw [hone] at hr
  obtain ⟨rfl, rfl⟩ := Prod.mk.inj hr
  exact ⟨_, ⟨⟨hacc, hle⟩, rfl, s.current.grown_one, by simp⟩, rfl⟩

theorem walk_pair {c d : Char} (hop : startsOperator c = true) (hopen : c ≠ '%') (hpair : isPair c (some d) = true)
    (hs : s.Calm) (h : Ready limit s (c :: d :: cs)) :
    ∃ s', Walk limit s (c :: d :: cs) 1 0 s' cs ∧ s'.last = d := by
  obtain ⟨s', m, hcode, hacc⟩ := h.accepted.code
  obtain ⟨hr, hle⟩ := code?_operator hop hs (fun hc => absurd hc hopen) hcode
  rw [List.head?_cons, hpair] at hr
  obtain ⟨rfl, rfl⟩ := Prod.mk.inj hr
  exact ⟨_, ⟨⟨hacc.operator, hle⟩, rfl, s.current.grown_one, by simp; omega⟩, rfl⟩

theorem walk_binary {op : BinaryOp} {rest : List Char} (hop : Grammar.OperatorAt cs op rest) (hs : s.Calm)
    (h : Ready limit s cs) : ∃ s', Walk limit s cs 1 0 s' rest ∧ s'.Fresh := by
  obtain ⟨rfl, hremainder, horder⟩ := hop
  cases op with
  | or | and | equal | unequal | atMost | atLeast =>
    obtain ⟨s', hw, hlast⟩ := walk_pair (by decide) (by decide) (by decide) hs h
    exact ⟨s', hw, by rw [State.Fresh, hlast]; decide⟩
  | less =>
    obtain ⟨s', hw, hlast⟩ := walk_operator (c := '<') (by decide) (fun hc => absurd hc (by decide))
      (by simpa [isPair] using horder) hs h
    exact ⟨s', hw, by rw [State.Fresh, hlast]; decide⟩
  | greater =>
    obtain ⟨s', hw, hlast⟩ := walk_operator (c := '>') (by decide) (fun hc => absurd hc (by decide))
      (by simpa [isPair] using horder) hs h
    exact ⟨s', hw, by rw [State.Fresh, hlast]; decide⟩
  | remainder =>
    obtain ⟨s', hw, hlast⟩ := walk_operator (by decide) (fun _ => hremainder rfl) rfl hs h
    exact ⟨s', hw, by rw [State.Fresh, hlast]; decide⟩
  | add | subtract | multiply | divide | power =>
    obtain ⟨s', hw, hlast⟩ := walk_operator (by decide) (fun hc => absurd hc (by decide)) rfl hs h
    exact ⟨s', hw, by rw [State.Fresh, hlast]; decide⟩

theorem walk_unary {op : UnaryOp} {rest : List Char} (hop : Grammar.SignAt cs op rest) (hs : s.Calm)
    (h : Ready limit s cs) : ∃ s', Walk limit s cs 1 0 s' rest ∧ s'.Fresh := by
  obtain ⟨rfl, hnot⟩ := hop
  cases op with
  | not =>
    obtain ⟨s', hw, hlast⟩ := walk_operator (c := '!') (by decide) (fun hc => absurd hc (by decide))
      (by simpa [isPair] using hnot) hs h
    exact ⟨s', hw, by rw [State.Fresh, hlast]; decide⟩
  | negate | plus =>
    obtain ⟨s', hw, hlast⟩ := walk_operator (by decide) (fun hc => absurd hc (by decide)) rfl hs h
    exact ⟨s', hw, by rw [State.Fresh, hlast]; decide⟩

/-! ### Numbers -/

/-- A digit or a point has just been read. -/
def State.Numeric (s : State) : Prop := s.last.isDigit = true ∨ s.last = '.'

theorem State.Numeric.calm (h : s.Numeric) : s.Calm := by
  apply State.calm_of_last
  constructor <;> intro hlast <;> rw [Numeric, hlast] at h <;> revert h <;> decide

theorem walk_takeDigits (hs : s.Numeric) (h : Ready limit s cs) :
    ∃ s', Walk limit s cs 0 0 s' (cs.dropWhile Char.isDigit) ∧ s'.Numeric := by
  induction cs generalizing s with
  | nil => exact ⟨s, Walk.refl h, hs⟩
  | cons c cs ih =>
    by_cases hc : c.isDigit
    · obtain ⟨s', hw, hnum⟩ := ih (Or.inl hc) (h.plain (wordy_not_special (digit_wordy hc)))
      refine ⟨s', ⟨?_, hw.around, hw.current, ?_⟩, hnum⟩
      · simpa [List.dropWhile_cons, hc] using hw.ready
      · simpa [List.dropWhile_cons, hc] using Nat.le_succ_of_le hw.shorter
    · rw [List.dropWhile_cons_of_neg hc]
      exact ⟨s, Walk.refl h, hs⟩

theorem walk_digits {ds rest : List Char} (hds : digits? cs = some (ds, rest)) (h : Ready limit s cs) :
    ∃ s', Walk limit s cs 0 0 s' rest ∧ s'.Numeric := by
  unfold digits? at hds
  split at hds
  · cases hds
  · obtain ⟨rfl, rfl⟩ := Prod.mk.inj (Option.some.inj hds)
    rename_i hne
    cases cs with
    | nil => exact absurd rfl hne
    | cons c cs =>
      by_cases hc : c.isDigit
      · obtain ⟨s', hw, hnum⟩ := walk_takeDigits (Or.inl hc) (h.plain (wordy_not_special (digit_wordy hc)))
        rw [List.dropWhile_cons_of_pos hc]
        exact ⟨s', ⟨hw.ready, hw.around, hw.current, Nat.le_succ_of_le hw.shorter⟩, hnum⟩
      · exact absurd (List.takeWhile_cons_of_neg hc) hne

/-- The sign of an exponent after a digit or a point is no operator. -/
theorem walk_exponentSign {e c : Char} (hs : s.Numeric) (he : e = 'e' ∨ e = 'E') (hc : c = '+' ∨ c = '-')
    (h : Ready limit s (e :: c :: cs)) : Walk limit s (e :: c :: cs) 0 0 ((s.past e).past c) cs := by
  have hready : Ready limit (s.past e) (c :: cs) := by
    apply h.plain
    rcases he with rfl | rfl <;> decide
  obtain ⟨s', m, hcode, hacc⟩ := hready.accepted.code
  have hexp : endsExponent s.last e = true := by
    simp only [endsExponent, Bool.and_eq_true, Bool.or_eq_true, decide_eq_true_eq]
    exact ⟨he, hs⟩
  have hstep : (s.past e).code? limit c cs.head? = some ((s.past e).past c, .code) := by
    rcases hc with rfl | rfl <;> simp [State.code?, hexp, State.past]
  rw [hstep] at hcode
  obtain ⟨rfl, rfl⟩ := Prod.mk.inj (Option.some.inj hcode)
  exact ⟨⟨hacc, h.bounded⟩, rfl, by simp, by simp; omega⟩

theorem walk_exponent {taken rest : List Char} (hs : s.Numeric) (hexp : exponent? cs = some (taken, rest))
    (h : Ready limit s cs) : ∃ s', Walk limit s cs 0 0 s' rest ∧ s'.Numeric := by
  have hdigits : ∀ {s₁ : State} {cs₁ : List Char} (f : List Char × List Char → List Char × List Char),
      (∀ x, (f x).2 = x.2) → Walk limit s cs 0 0 s₁ cs₁ → (digits? cs₁).map f = some (taken, rest) →
      ∃ s', Walk limit s cs 0 0 s' rest ∧ s'.Numeric := by
    intro s₁ cs₁ f hf hw hmap
    obtain ⟨⟨ds, r⟩, hds, heq⟩ := Option.map_eq_some_iff.1 hmap
    have hr : r = rest := (hf (ds, r)).symm.trans (congrArg Prod.snd heq)
    obtain ⟨s', hw', hnum⟩ := walk_digits hds hw.ready
    exact ⟨s', hw.idle (hr ▸ hw'), hnum⟩
  revert hexp
  fun_cases exponent? cs with
  | case1 e he cs => exact hdigits _ (fun _ => rfl) (walk_exponentSign hs he (Or.inl rfl) h)
  | case2 e he cs => exact hdigits _ (fun _ => rfl) (walk_exponentSign hs he (Or.inr rfl) h)
  | case3 e he cs =>
    have hw := walk_plain [e] (List.forall_mem_singleton.2 (by rcases he with rfl | rfl <;> decide)) h
    exact hdigits _ (fun _ => rfl) hw
  | case4 => simp
  | case5 => simp

theorem walk_withExponent (taken : List Char) (hs : s.Numeric) (h : Ready limit s cs) :
    ∃ s', Walk limit s cs 0 0 s' (Grammar.withExponent taken cs).2 ∧ s'.Numeric := by
  unfold Grammar.withExponent
  split
  · rename_i e rest hexp
    exact walk_exponent hs hexp h
  · exact ⟨s, Walk.refl h, hs⟩

theorem walk_float {taken rest : List Char} (hfloat : float? cs = some (taken, rest)) (h : Ready limit s cs) :
    ∃ s', Walk limit s cs 0 0 s' rest ∧ s'.Numeric := by
  have hpoint : ∀ {s₁ : State} {ds : List Char}, Ready limit s₁ ('.' :: ds) →
      Walk limit s₁ ('.' :: ds) 0 0 (s₁.past '.') ds := fun h₁ => walk_plain ['.'] (List.forall_mem_singleton.2 (by decide)) h₁
  revert hfloat
  fun_cases float? cs with
  | case1 _ ds cs hds =>
    intro hfloat
    obtain ⟨s₁, hw₁, -⟩ := walk_digits hds h
    obtain ⟨s₂, hw₂, hnum₂⟩ := walk_takeDigits (Or.inr rfl) (hpoint hw₁.ready).ready
    obtain ⟨s₃, hw₃, hnum₃⟩ := walk_withExponent (ds ++ '.' :: cs.takeWhile Char.isDigit) hnum₂ hw₂.ready
    rw [Option.some.inj hfloat] at hw₃
    exact ⟨s₃, ((hw₁.idle (hpoint hw₁.ready)).idle hw₂).idle hw₃, hnum₃⟩
  | case2 _ ds cs hne hds =>
    intro hfloat
    obtain ⟨⟨e, r⟩, hexp, heq⟩ := Option.map_eq_some_iff.1 hfloat
    obtain ⟨s₁, hw₁, hnum₁⟩ := walk_digits hds h
    obtain ⟨s₂, hw₂, hnum₂⟩ := walk_exponent hnum₁ hexp hw₁.ready
    cases heq
    exact ⟨s₂, hw₁.idle hw₂, hnum₂⟩
  | case3 cs hds =>
    intro hfloat
    obtain ⟨⟨ds, r⟩, hds, heq⟩ := Option.map_eq_some_iff.1 hfloat
    obtain ⟨s₁, hw₁, hnum₁⟩ := walk_digits hds (hpoint h).ready
    obtain ⟨s₂, hw₂, hnum₂⟩ := walk_withExponent ('.' :: ds) hnum₁ hw₁.ready
    rw [show Grammar.withExponent ('.' :: ds) r = (taken, rest) from heq] at hw₂
    exact ⟨s₂, ((hpoint h).idle hw₁).idle hw₂, hnum₂⟩
  | case4 => simp

/-! ### Names and references -/

/-- True if a sign behind the characters would look like the sign of an exponent. -/
def looksExponential : List Char → Bool
  | [before, last] => endsExponent before last
  | _ :: cs => looksExponential cs
  | [] => false

/-- True if the characters end in an odd number of backslashes, so that the next one would look escaped. -/
def endsEscaped : List Char → Bool
  | '\\' :: _ :: cs => endsEscaped cs
  | ['\\'] => true
  | _ :: cs => endsEscaped cs
  | [] => false

theorem calm_pastAll {c : Char} (h : looksExponential (s.last :: c :: cs) = false) : (s.pastAll (c :: cs)).Calm := by
  induction cs generalizing s c with
  | nil => exact h
  | cons d cs ih => exact ih (s := s.past c) h

theorem Fresh.looksExponential {c : Char} (hs : s.Fresh) (h : looksExponential (c :: cs) = false) :
    looksExponential (s.last :: c :: cs) = false := by
  cases cs with
  | cons d cs => exact h
  | nil =>
    have hword : s.last.isDigit = false ∧ s.last ≠ '.' := by
      have hfresh := hs
      simp only [State.Fresh, State.isWordy, Char.isAlphanum, Bool.or_eq_false_iff] at hfresh
      exact ⟨hfresh.1.1.2, of_decide_eq_false hfresh.2⟩
    simp [Nesting.looksExponential, endsExponent, hword]

theorem walk_name {taken rest : List Char} (hname : name? cs = some (taken, rest)) (hs : s.Fresh)
    (h : Ready limit s cs) :
    ∃ s', Walk limit s cs 0 0 s' rest ∧ (looksExponential taken = false → s'.Calm) := by
  obtain ⟨rfl, hspelled⟩ := name?_spelled hname
  have hwords := Grammar.Name.continues hspelled
  obtain @⟨c, ds, -, -⟩ := hspelled
  exact ⟨_, walk_plain _ (fun d hd => wordy_not_special (name_wordy (hwords d hd))) h,
    fun hexp => calm_pastAll (Fresh.looksExponential hs hexp)⟩

theorem Accepts.reference {name rest : List Char} (hclose : '\x7d' ∉ name) (hesc : endsEscaped name = false)
    (h : Accepts limit (.quoted '\x7d') s (name ++ '\x7d' :: rest)) : Accepts limit .code (s.past '\x7d') rest := by
  fun_induction endsEscaped name with
  | case1 d cs ih =>
    have hcs : '\x7d' ∉ cs := fun hm => hclose (List.mem_cons_of_mem _ (List.mem_cons_of_mem _ hm))
    exact ih hcs hesc h.escape
  | case2 => cases hesc
  | case3 d cs hne₁ hne₂ ih =>
    have hd : d ≠ '\\' := by
      rintro rfl
      cases cs with
      | nil => exact hne₂ rfl rfl
      | cons e cs => exact hne₁ e cs rfl rfl
    have hd' : d ≠ '\x7d' := fun hd => hclose (hd ▸ List.mem_cons_self)
    exact ih (fun hm => hclose (List.mem_cons_of_mem _ hm)) hesc (h.inside ⟨hd, hd'⟩)
  | case4 => exact h.close (by decide)

theorem walk_quoted {opening close : Char} (ho : opening = '"' ∧ close = '"' ∨ opening = '[' ∧ close = ']')
    {rest : List Char} (hbody : (body close cs).2 = close :: rest) (h : Ready limit s (opening :: cs)) :
    Walk limit s (opening :: cs) 0 0 ((s.past opening).past close) rest := by
  obtain ⟨s', m, hcode, hacc⟩ := h.accepted.code
  have hstep : s.code? limit opening cs.head? = some (s.past opening, .quoted close) := by
    rcases ho with ⟨rfl, rfl⟩ | ⟨rfl, rfl⟩ <;> rfl
  have hclose : close ≠ '\\' := by
    rcases ho with ⟨-, rfl⟩ | ⟨-, rfl⟩ <;> decide
  rw [hstep] at hcode
  obtain ⟨rfl, rfl⟩ := Prod.mk.inj (Option.some.inj hcode)
  refine ⟨⟨hacc.body hclose hbody, h.bounded⟩, rfl, by simp, ?_⟩
  have hlen := Grammar.length_body close cs
  rw [hbody] at hlen
  simp only [List.length_cons] at hlen ⊢
  omega

theorem walk_reference {mark : Char} (hmark : mark = '%' ∨ mark = '#') {name rest : List Char}
    (hclose : '\x7d' ∉ name) (hesc : endsEscaped name = false)
    (h : Ready limit s (mark :: '\x7b' :: (name ++ '\x7d' :: rest))) :
    Walk limit s (mark :: '\x7b' :: (name ++ '\x7d' :: rest)) 0 0 ((s.past mark).past '\x7d') rest := by
  obtain ⟨s', m, hcode, hacc⟩ := h.accepted.code
  have hstep : s.code? limit mark (some '\x7b') = some (s.past mark, .quoted '\x7d') := by
    rcases hmark with rfl | rfl <;> rfl
  rw [List.head?_cons, hstep] at hcode
  obtain ⟨rfl, rfl⟩ := Prod.mk.inj (Option.some.inj hcode)
  have hopened := hacc.inside (by decide)
  exact ⟨⟨hopened.reference hclose hesc, h.bounded⟩, rfl, by simp, by simp; omega⟩

/-! ### Parentheses and commas -/

/-- The state inside parentheses that open. -/
def State.inside (s : State) : State := { s.past '(' with current := {}, around := s.current :: s.around }

/-- The state behind a comma. -/
def State.behindComma (s : State) : State := { s.past ',' with current := s.current.nextArgument }

/-- The state behind a parenthesis that closes. -/
def State.outside (s : State) (outer : Budget) (around : List Budget) : State :=
  { s.past ')' with current := outer.withInner (1 + s.current.total), around := around }

theorem State.fresh_start : ({} : State).Fresh := by
  show State.isWordy ' ' = false
  decide

theorem State.fresh_inside (s : State) : s.inside.Fresh := by
  show State.isWordy '(' = false
  decide

theorem State.fresh_behindComma (s : State) : s.behindComma.Fresh := by
  show State.isWordy ',' = false
  decide

theorem Ready.inside (h : Ready limit s ('(' :: cs)) : s.around.length + 1 ≤ limit ∧ Ready limit s.inside cs := by
  obtain ⟨s', m, hcode, hacc⟩ := h.accepted.code
  have hstep : s.code? limit '(' cs.head? = if s.around.length + 1 > limit then none else some (s.inside, .code) := rfl
  rw [hstep] at hcode
  split at hcode
  · cases hcode
  · rename_i hle
    obtain ⟨rfl, rfl⟩ := Prod.mk.inj (Option.some.inj hcode)
    have hlimit : ({} : Budget).argument ≤ limit := by
      simp only [Budget.argument]
      omega
    exact ⟨Nat.le_of_not_lt hle, hacc, hlimit⟩

theorem Ready.behindComma (hlimit : 1 ≤ limit) (h : Ready limit s (',' :: cs)) : Ready limit s.behindComma cs := by
  obtain ⟨s', m, hcode, hacc⟩ := h.accepted.code
  have hstep : s.code? limit ',' cs.head? = some (s.behindComma, .code) := rfl
  rw [hstep] at hcode
  obtain ⟨rfl, rfl⟩ := Prod.mk.inj (Option.some.inj hcode)
  exact ⟨hacc, hlimit⟩

theorem Ready.outside {outer : Budget} {around : List Budget} (ha : s.around = outer :: around)
    (h : Ready limit s (')' :: cs)) : Ready limit (s.outside outer around) cs := by
  obtain ⟨s', m, hcode, hacc⟩ := h.accepted.code
  have hstep : s.code? limit ')' cs.head? =
      if (s.outside outer around).current.argument > limit then none else some (s.outside outer around, .code) := by
    simp only [State.code?, ha]
    rfl
  rw [hstep] at hcode
  split at hcode
  · cases hcode
  · rename_i hle
    obtain ⟨rfl, rfl⟩ := Prod.mk.inj (Option.some.inj hcode)
    exact ⟨hacc, Nat.le_of_not_lt hle⟩

/-- A pair of parentheses is as deep as what is inside, and one more. -/
theorem walk_parentheses {rest : List Char} (hinside : Ready limit s' cs') (ha : s'.around = s.inside.around)
    (hlen : cs'.length ≤ cs.length) (hclose : cs'.dropWhile isGap = ')' :: rest) :
    ∃ s'', Walk limit s ('(' :: cs) 0 (1 + s'.current.total) s'' rest ∧ s''.Calm := by
  obtain ⟨s₁, hw, -, -⟩ := walk_gap hinside
  rw [hclose] at hw
  have ha₁ : s₁.around = s.current :: s.around := hw.around.trans ha
  have hcurrent : s₁.current = s'.current := by simpa using hw.current
  refine ⟨s₁.outside s.current s.around, ⟨hw.ready.outside ha₁, rfl, ?_, ?_⟩, State.calm_of_last (by simp [State.outside])⟩
  · simp [State.outside, hcurrent, Budget.withInner, Budget.grown]
  · have hshort := hw.shorter
    simp only [List.length_cons] at hshort ⊢
    omega

end Rowwise.Nesting

namespace Rowwise

/-! ### Trees that the scan sees as the grammar does -/

namespace Expr

mutual

/-- True if no reference of a tree ends in an odd number of backslashes and no name looks like the start of an
exponent. -/
def isLegible : Expr → Bool
  | name s => !Nesting.looksExponential s.toList
  | scope s => !Nesting.endsEscaped s.toList
  | macroRef s => !Nesting.endsEscaped s.toList
  | unary _ e => e.isLegible
  | binary _ l r => l.isLegible && r.isLegible
  | call _ es => areLegible es
  | _ => true

/-- The same for each tree of a list. -/
def areLegible : List Expr → Bool
  | [] => true
  | e :: es => e.isLegible && areLegible es

end

end Expr

namespace Nesting

variable {limit : Nat} {s : State} {cs : List Char}

/-- The scan goes past a word of a legible tree without counting anything. -/
theorem walk_word {e : Expr} {rest : List Char} (hword : Grammar.Word cs e rest) (he : e.isLegible = true)
    (hs : s.Fresh) (h : Ready limit s cs) : ∃ s', Walk limit s cs 0 0 s' rest ∧ s'.Calm := by
  cases hword with
  | double hfloat =>
    obtain ⟨s', hw, hnum⟩ := walk_float hfloat h
    exact ⟨s', hw, hnum.calm⟩
  | integer hdigits =>
    obtain ⟨s', hw, hnum⟩ := walk_digits hdigits h
    exact ⟨s', hw, hnum.calm⟩
  | text hbody _ => exact ⟨_, walk_quoted (Or.inl ⟨rfl, rfl⟩) (congrArg Prod.snd hbody) h, State.calm_of_last (by simp)⟩
  | column hbody _ _ => exact ⟨_, walk_quoted (Or.inr ⟨rfl, rfl⟩) (congrArg Prod.snd hbody) h, State.calm_of_last (by simp)⟩
  | @scope name _ hclose _ =>
    have hesc : endsEscaped name = false := by simpa [Expr.isLegible] using he
    exact ⟨_, walk_reference (Or.inl rfl) hclose hesc h, State.calm_of_last (by simp)⟩
  | @macroRef name _ hclose _ =>
    have hesc : endsEscaped name = false := by simpa [Expr.isLegible] using he
    exact ⟨_, walk_reference (Or.inr rfl) hclose hesc h, State.calm_of_last (by simp)⟩
  | name hname =>
    obtain ⟨s', hw, hcalm⟩ := walk_name hname hs h
    exact ⟨s', hw, hcalm (by simpa [Expr.isLegible] using he)⟩

end Nesting

end Rowwise
