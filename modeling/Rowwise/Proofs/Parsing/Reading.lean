import Mathlib.Data.List.TakeWhile
import Rowwise.Expr.Grammar

/-!
# Rowwise.Proofs.Parsing.Reading — what a successful reading says

Each combinator has a lemma that takes a success apart, and one that says when two parsers do the same at a place, record
and all.  `Word` lists the words of the grammar that hold no expressions: it says of each how its characters start and
end.
-/

namespace Rowwise

namespace Parser

variable {α β : Type} {p q : Parser α} {f g : α → Parser β} {c c' c'' : Cursor} {a a' a'' : Attempts} {x : α} {y : β}

/-! ### Taking a success apart -/

@[simp] theorem pure_apply (x : α) (c : Cursor) (a : Attempts) : (pure x : Parser α) c a = (some (x, c), a) := rfl

theorem bind_apply (p : Parser α) (f : α → Parser β) (c : Cursor) (a : Attempts) : (p >>= f) c a = match p c a with
    | (none, a) => (none, a)
    | (some (x, c), a) => f x c a :=
  rfl

theorem bind_eq_some : (p >>= f) c a = (some (y, c''), a'') ↔
    ∃ x c' a', p c a = (some (x, c'), a') ∧ f x c' a' = (some (y, c''), a'') := by
  rw [bind_apply]
  rcases p c a with ⟨_ | ⟨x, c'⟩, a'⟩
  · simp
  · constructor
    · intro h
      exact ⟨x, c', a', rfl, h⟩
    · rintro ⟨_, _, _, hp, hf⟩
      cases hp
      exact hf

theorem bind_eq_none : (p >>= f) c a = (none, a'') ↔
    p c a = (none, a'') ∨ ∃ x c' a', p c a = (some (x, c'), a') ∧ f x c' a' = (none, a'') := by
  rw [bind_apply]
  rcases p c a with ⟨_ | ⟨x, c'⟩, a'⟩
  · simp
  · constructor
    · intro h
      exact Or.inr ⟨x, c', a', rfl, h⟩
    · rintro (h | ⟨_, _, _, hp, hf⟩)
      · cases h
      · cases hp
        exact hf

theorem orElse_eq_none : orElse p q c a = (none, a') ↔ ∃ b, p c a = (none, b) ∧ q c b = (none, a') := by
  unfold orElse
  rcases p c a with ⟨_ | ⟨x, c'⟩, b⟩
  · simp
  · simp

theorem rule_eq_some {r : Rule} : rule r p c a = (some (x, c'), a') ↔ p c a = (some (x, c'), a') := by
  unfold rule
  rcases p c a with ⟨_ | ⟨x, c'⟩, a'⟩
  · simp
  · simp

theorem rule_eq_none {r : Rule} (h : rule r p c a = (none, a')) : ∃ b, p c a = (none, b) := by
  unfold rule at h
  rcases hp : p c a with ⟨_ | ⟨x, c'⟩, b⟩
  · exact ⟨b, rfl⟩
  · simp [hp] at h

theorem orElse_eq_some : orElse p q c a = (some (x, c'), a') ↔
    p c a = (some (x, c'), a') ∨ ∃ b, p c a = (none, b) ∧ q c b = (some (x, c'), a') := by
  unfold orElse
  rcases p c a with ⟨_ | ⟨x, c'⟩, a'⟩
  · simp
  · simp

theorem take_eq_some {split? : List Char → Option (List Char × List Char)} {taken : List Char} :
    take split? c a = (some (taken, c'), a') ↔
      ∃ rest, split? c.rest = some (taken, rest) ∧ c' = ⟨c.offset + taken.length, rest⟩ ∧ a' = a := by
  unfold take
  rcases split? c.rest with _ | ⟨t, r⟩
  · simp
  · simp only [Prod.mk.injEq, Option.some.injEq]
    constructor
    · rintro ⟨⟨rfl, rfl⟩, rfl⟩
      exact ⟨r, ⟨rfl, rfl⟩, rfl, rfl⟩
    · rintro ⟨rest, ⟨rfl, rfl⟩, rfl, rfl⟩
      exact ⟨⟨rfl, rfl⟩, rfl⟩

theorem take_eq_none {split? : List Char → Option (List Char × List Char)} :
    take split? c a = (none, a') ↔ split? c.rest = none ∧ a' = a := by
  unfold take
  rcases split? c.rest with _ | ⟨t, r⟩
  · simp [eq_comm]
  · simp

theorem rest_of_take {split? : List Char → Option (List Char × List Char)} {taken : List Char}
    (h : take split? c a = (some (taken, c'), a')) : split? c.rest = some (taken, c'.rest) := by
  obtain ⟨rest, hsplit, rfl, -⟩ := take_eq_some.1 h
  exact hsplit

theorem rest_of_exactly {s : String} {taken : List Char} (h : exactly s c a = (some (taken, c'), a')) :
    c.rest = s.toList ++ c'.rest := by
  have hsplit := rest_of_take h
  rw [Option.map_eq_some_iff] at hsplit
  obtain ⟨rest, hdrop, heq⟩ := hsplit
  rw [Text.dropPrefix?_eq_some_iff] at hdrop
  rw [hdrop, (Prod.mk.inj heq).2]

theorem rest_of_gap {u : Unit} (h : gap c a = (some (u, c'), a')) : c'.rest = c.rest.dropWhile isGap := by
  cases h
  rfl

theorem rest_of_symbol {s : String} {u : Unit} (h : symbol s c a = (some (u, c'), a')) :
    c.rest.dropWhile isGap = s.toList ++ c'.rest := by
  obtain ⟨v, c₁, a₁, hgap, h⟩ := bind_eq_some.1 h
  obtain ⟨t, c₂, a₂, hexactly, h⟩ := bind_eq_some.1 h
  cases h
  rw [← rest_of_gap hgap, rest_of_exactly hexactly]

/-! ### Parsers that do the same -/

theorem bind_congr (hp : p c a = q c a)
    (hf : ∀ x c' a', p c a = (some (x, c'), a') → f x c' a' = g x c' a') : (p >>= f) c a = (q >>= g) c a := by
  rw [bind_apply, bind_apply, ← hp]
  rcases h : p c a with ⟨_ | ⟨x, c'⟩, a'⟩
  · rfl
  · exact hf x c' a' h

/-- Where it is known what the first parser reads, only what follows it is compared. -/
theorem bind_congr_of_eq_some {x : α} (hp : p c a = q c a) (h : q c a = (some (x, c'), a')) (hf : f x c' a' = g x c' a') :
    (p >>= f) c a = (q >>= g) c a := by
  refine bind_congr hp fun y c₁ a₁ hy => ?_
  rw [hp, h] at hy
  cases hy
  exact hf

theorem rule_congr {r : Rule} (hp : p c a = q c a) : rule r p c a = rule r q c a := by
  simp only [rule, hp]

theorem orElse_congr {p' q' : Parser α} (hp : p c a = p' c a) (hq : ∀ b, p c a = (none, b) → q c b = q' c b) :
    orElse p q c a = orElse p' q' c a := by
  unfold orElse
  rw [← hp]
  rcases h : p c a with ⟨_ | ⟨x, c'⟩, a'⟩
  · exact hq a' h
  · rfl

/-! ### Repetition -/

variable {xs : List α}

theorem upTo_succeeds (n : Nat) (p : Parser α) (c : Cursor) (a : Attempts) :
    ∃ xs c' a', upTo n p c a = (some (xs, c'), a') := by
  cases n with
  | zero => exact ⟨[], c, a, rfl⟩
  | succ n =>
    rcases hp : p c a with ⟨_ | ⟨x, c₁⟩, a₁⟩
    · exact ⟨[], c, a₁, by simp [upTo, hp]⟩
    · rcases hq : upTo n p c₁ a₁ with ⟨_ | ⟨xs, c₂⟩, a₂⟩
      · exact ⟨[x], c₁, a₂, by simp [upTo, hp, hq]⟩
      · exact ⟨x :: xs, c₂, a₂, by simp [upTo, hp, hq]⟩

theorem upTo_zero (p : Parser α) (c : Cursor) (a : Attempts) : upTo 0 p c a = (some ([], c), a) := rfl

theorem upTo_succ {n : Nat} (h : upTo (n + 1) p c a = (some (xs, c'), a')) :
    (xs = [] ∧ c' = c ∧ p c a = (none, a')) ∨
      ∃ x c₁ a₁ ys, p c a = (some (x, c₁), a₁) ∧ upTo n p c₁ a₁ = (some (ys, c'), a') ∧ xs = x :: ys := by
  rcases hp : p c a with ⟨_ | ⟨x, c₁⟩, a₁⟩
  · simp only [upTo, hp, Prod.mk.injEq, Option.some.injEq] at h
    obtain ⟨⟨rfl, rfl⟩, rfl⟩ := h
    exact Or.inl ⟨rfl, rfl, rfl⟩
  · obtain ⟨ys, c₂, a₂, hq⟩ := upTo_succeeds n p c₁ a₁
    simp only [upTo, hp, hq, Prod.mk.injEq, Option.some.injEq] at h
    obtain ⟨⟨rfl, rfl⟩, rfl⟩ := h
    exact Or.inr ⟨x, c₁, a₁, ys, rfl, hq, rfl⟩

theorem upTo_congr {n : Nat} (hp : p c a = q c a)
    (hn : ∀ x c₁ a₁, p c a = (some (x, c₁), a₁) → upTo n p c₁ a₁ = upTo n q c₁ a₁) :
    upTo (n + 1) p c a = upTo (n + 1) q c a := by
  unfold upTo
  rw [← hp]
  rcases h : p c a with ⟨_ | ⟨x, c₁⟩, a₁⟩
  · rfl
  · simp only [hn x c₁ a₁ h]

theorem upTo_congr_of_eq_some {n : Nat} {x : α} (hp : p c a = q c a) (h : q c a = (some (x, c'), a'))
    (hn : upTo n p c' a' = upTo n q c' a') : upTo (n + 1) p c a = upTo (n + 1) q c a := by
  refine upTo_congr hp fun y c₁ a₁ hy => ?_
  rw [hp, h] at hy
  cases hy
  exact hn

/-- Where nothing is read, nothing is repeated. -/
theorem upTo_congr_of_eq_none {n : Nat} (hp : p c a = q c a) (h : q c a = (none, a')) :
    upTo (n + 1) p c a = upTo (n + 1) q c a := by
  refine upTo_congr hp fun y c₁ a₁ hy => ?_
  rw [hp, h] at hy
  cases hy

end Parser

namespace Grammar

open Rowwise.Parser

/-! ### Lists of what was read -/

theorem mapM_id_nil {α : Type} {ys : List α} (h : ([] : List (Decoded α)).mapM id = .ok ys) : ys = [] := by
  cases h
  rfl

theorem mapM_id_cons {α : Type} {x : Decoded α} {xs : List (Decoded α)} {ys : List α} :
    (x :: xs).mapM id = .ok ys ↔ ∃ y zs, x = .ok y ∧ xs.mapM id = .ok zs ∧ ys = y :: zs := by
  rw [List.mapM_cons]
  cases x with
  | error bad => simp [bind, Except.bind]
  | ok y =>
    cases hxs : xs.mapM id with
    | error bad => simp [bind, Except.bind]
    | ok zs => simp [bind, Except.bind, pure, Except.pure, eq_comm]

/-! ### Words -/

/-- The words that hold no expressions, with the text before and after them. -/
inductive Word : List Char → Expr → List Char → Prop where
  | double {cs taken rest} : float? cs = some (taken, rest) → Word cs (.double (numberOf taken)) rest
  | integer {cs taken rest} : digits? cs = some (taken, rest) → Word cs (.integer (numberOf taken)) rest
  | text {cs raw ds rest} : body '"' cs = (raw, '"' :: rest) → Escape.decode raw = .ok ds →
      Word ('"' :: cs) (.text (String.ofList ds)) rest
  | column {cs raw ds rest} : body ']' cs = (raw, ']' :: rest) → raw ≠ [] → Escape.decode raw = .ok ds →
      Word ('[' :: cs) (.column (String.ofList ds)) rest
  | scope {name rest} : '\x7d' ∉ name → name ≠ [] →
      Word ('%' :: '\x7b' :: (name ++ '\x7d' :: rest)) (.scope (String.ofList name)) rest
  | macroRef {name rest} : '\x7d' ∉ name → name ≠ [] →
      Word ('#' :: '\x7b' :: (name ++ '\x7d' :: rest)) (.macroRef (String.ofList name)) rest
  | name {cs taken rest} : name? cs = some (taken, rest) → Word cs (.name (String.ofList taken)) rest

theorem length_body (close : Char) (cs : List Char) : (body close cs).2.length ≤ cs.length := by
  fun_induction body close cs with
  | case1 c cs ih =>
    simp only [List.length_cons]
    omega
  | case2 => exact Nat.le_refl _
  | case3 c cs hesc hgo ih =>
    simp only [List.length_cons]
    omega
  | case4 => exact Nat.le_refl _

/-- The parsers of these words, in their order. -/
def words : List (Parser (Decoded Expr)) :=
  [word .float float? fun cs => .double (numberOf cs),
   word .integer digits? fun cs => .integer (numberOf cs),
   quoted .text .textBody "\"" "\"" (fun cs => some (body '"' cs)) .text,
   quoted .column .columnName "[" "]" (fun cs => nonempty (body ']' cs)) .column,
   reference .scope "%\x7b" .scope,
   reference .macroRef "#\x7b" .macroRef,
   word .identifier name? fun cs => .name (String.ofList cs)]

theorem primary_eq (inner : Parser (Decoded Expr)) :
    primary inner = orElse (grouped inner) (orElse (call inner) (firstOf words)) := rfl

variable {c c' : Cursor} {a a' : Attempts} {e : Expr}

theorem nonempty_eq_some {taken taken' : List Char × List Char} :
    nonempty taken = some taken' ↔ taken'.1 ≠ [] ∧ taken = taken' := by
  unfold nonempty
  constructor
  · intro h
    split at h
    · cases h
    · rename_i hne
      cases h
      exact ⟨by simpa using hne, rfl⟩
  · rintro ⟨hne, rfl⟩
    rw [if_neg (by simpa using hne)]

theorem split_of_word {r : Rule} {split? : List Char → Option (List Char × List Char)} {f : List Char → Expr}
    (h : word r split? f c a = (some (.ok e, c'), a')) : ∃ taken, split? c.rest = some (taken, c'.rest) ∧ e = f taken := by
  obtain ⟨taken, c₁, a₁, htake, h⟩ := bind_eq_some.1 h
  cases h
  exact ⟨taken, rest_of_take (rule_eq_some.1 htake), rfl⟩

theorem rest_of_quoted {r inside : Rule} {opening closing : String} {f : String → Expr}
    {split? : List Char → Option (List Char × List Char)}
    (h : quoted r inside opening closing split? f c a = (some (.ok e, c'), a')) :
    ∃ cs raw ds, c.rest = opening.toList ++ cs ∧ split? cs = some (raw, closing.toList ++ c'.rest) ∧
      Escape.decode raw = .ok ds ∧ e = f (String.ofList ds) := by
  obtain ⟨t₁, c₁, a₁, hopen, h⟩ := bind_eq_some.1 (rule_eq_some.1 h)
  obtain ⟨offset, c₂, a₂, hplace, h⟩ := bind_eq_some.1 h
  cases hplace
  obtain ⟨raw, c₃, a₃, htake, h⟩ := bind_eq_some.1 h
  obtain ⟨t₂, c₄, a₄, hclose, h⟩ := bind_eq_some.1 h
  simp only [pure_apply, Prod.mk.injEq, Option.some.injEq] at h
  obtain ⟨⟨hdecoded, rfl⟩, -⟩ := h
  refine ⟨c₁.rest, raw, ?_⟩
  rw [← rest_of_exactly hclose]
  unfold decoded at hdecoded
  split at hdecoded
  · rename_i ds hds
    exact ⟨ds, rest_of_exactly hopen, rest_of_take (rule_eq_some.1 htake), hds, by
      simpa [Except.map, eq_comm] using hdecoded⟩
  · cases hdecoded

theorem rest_of_reference {r : Rule} {mark : String} {f : String → Expr}
    (h : reference r mark f c a = (some (.ok e, c'), a')) :
    ∃ name, c.rest = mark.toList ++ (name ++ '\x7d' :: c'.rest) ∧ '\x7d' ∉ name ∧ name ≠ [] ∧
      e = f (String.ofList name) := by
  obtain ⟨t₁, c₁, a₁, hopen, h⟩ := bind_eq_some.1 (rule_eq_some.1 h)
  obtain ⟨name, c₂, a₂, htake, h⟩ := bind_eq_some.1 h
  obtain ⟨t₂, c₃, a₃, hclose, h⟩ := bind_eq_some.1 h
  cases h
  have hbraced := rest_of_take (rule_eq_some.1 htake)
  obtain ⟨hne, hbraced⟩ := nonempty_eq_some.1 hbraced
  obtain ⟨rfl, hrest⟩ := Prod.mk.inj hbraced
  have hsplit := @List.takeWhile_append_dropWhile _ (fun d => decide (d ≠ '\x7d')) c₁.rest
  rw [hrest.trans (rest_of_exactly hclose)] at hsplit
  refine ⟨_, ?_, ?_, hne, rfl⟩
  · exact (rest_of_exactly hopen).trans (congrArg (mark.toList ++ ·) hsplit.symm)
  · intro hmem
    simpa using List.mem_takeWhile_imp hmem

theorem word_of_words (h : firstOf words c a = (some (.ok e, c'), a')) : Word c.rest e c'.rest := by
  simp only [words, firstOf] at h
  rcases orElse_eq_some.1 h with h | ⟨_, -, h⟩
  · obtain ⟨taken, hsplit, rfl⟩ := split_of_word h
    exact .double hsplit
  rcases orElse_eq_some.1 h with h | ⟨_, -, h⟩
  · obtain ⟨taken, hsplit, rfl⟩ := split_of_word h
    exact .integer hsplit
  rcases orElse_eq_some.1 h with h | ⟨_, -, h⟩
  · obtain ⟨cs, raw, ds, hrest, hsplit, hdecode, rfl⟩ := rest_of_quoted h
    rw [hrest]
    exact .text (Option.some.inj hsplit) hdecode
  rcases orElse_eq_some.1 h with h | ⟨_, -, h⟩
  · obtain ⟨cs, raw, ds, hrest, hsplit, hdecode, rfl⟩ := rest_of_quoted h
    rw [hrest]
    obtain ⟨hne, hbody⟩ := nonempty_eq_some.1 hsplit
    exact .column hbody hne hdecode
  rcases orElse_eq_some.1 h with h | ⟨_, -, h⟩
  · obtain ⟨name, hrest, hclose, hne, rfl⟩ := rest_of_reference h
    rw [hrest]
    exact .scope hclose hne
  rcases orElse_eq_some.1 h with h | ⟨_, -, h⟩
  · obtain ⟨name, hrest, hclose, hne, rfl⟩ := rest_of_reference h
    rw [hrest]
    exact .macroRef hclose hne
  rcases orElse_eq_some.1 h with h | ⟨_, -, h⟩
  · obtain ⟨taken, hsplit, rfl⟩ := split_of_word h
    exact .name hsplit
  · cases h

/-! ### Operators -/

variable {op : BinaryOp}

/-- An operator stands in the text for the grammar, which tries the longer of two operators first. -/
structure OperatorAt (cs : List Char) (op : BinaryOp) (rest : List Char) : Prop where
  symbol : cs = op.symbol.toList ++ rest
  remainder : op = .remainder → rest.head? ≠ some '\x7b'
  order : op = .less ∨ op = .greater → rest.head? ≠ some '='

/-- The operators of two characters. -/
def longer : List BinaryOp := [.or, .and, .equal, .unequal, .atMost, .atLeast]

/-- The operators of one. -/
def shorter : List BinaryOp := [.less, .greater, .add, .subtract, .multiply, .divide, .remainder, .power]

theorem firstOf_append {α : Type} (ps qs : List (Parser α)) (c : Cursor) (a : Attempts) :
    firstOf (ps ++ qs) c a = orElse (firstOf ps) (firstOf qs) c a := by
  induction ps generalizing a with
  | nil => rfl
  | cons p ps ih =>
    show orElse p (firstOf (ps ++ qs)) c a = orElse (orElse p (firstOf ps)) (firstOf qs) c a
    unfold orElse
    rcases p c a with ⟨_ | ⟨x, c'⟩, b⟩
    · exact ih b
    · rfl

theorem thisOperator_some {o : BinaryOp} (h : thisOperator o c a = (some (op, c'), a')) :
    op = o ∧ c.rest = op.symbol.toList ++ c'.rest ∧ (op = .remainder → c'.rest.head? ≠ some '\x7b') := by
  obtain ⟨taken, c₁, a₁, htake, h⟩ := bind_eq_some.1 h
  cases h
  have htake := rule_eq_some.1 htake
  by_cases ho : op = .remainder
  · subst ho
    have hsplit := rest_of_take htake
    revert hsplit
    fun_cases percent? c.rest with
    | case1 => simp
    | case2 cs hbrace =>
      intro hsplit
      obtain ⟨-, hrest⟩ := Prod.mk.inj (Option.some.inj hsplit)
      refine ⟨rfl, by simp [BinaryOp.symbol, ← hrest], fun _ hhead => ?_⟩
      rw [← hrest] at hhead
      obtain ⟨ds, hds⟩ := List.head?_eq_some_iff.1 hhead
      exact hbrace ds hds
    | case3 => simp
  · rw [if_neg ho] at htake
    exact ⟨rfl, rest_of_exactly htake, fun hrem => absurd hrem ho⟩

theorem thisOperator_none {o : BinaryOp} (ho : o ≠ .remainder) (h : thisOperator o c a = (none, a'))
    (rest : List Char) : c.rest ≠ o.symbol.toList ++ rest := by
  intro hrest
  rcases bind_eq_none.1 h with h | ⟨t, c₁, b, -, h⟩
  · obtain ⟨b, hb⟩ := rule_eq_none h
    rw [if_neg ho] at hb
    have hdrop := (take_eq_none.1 hb).1
    rw [Text.dropPrefix?_eq_some_iff.2 hrest] at hdrop
    cases hdrop
  · cases h

theorem firstOf_thisOperator_some {ops : List BinaryOp} (h : firstOf (ops.map thisOperator) c a = (some (op, c'), a')) :
    op ∈ ops ∧ c.rest = op.symbol.toList ++ c'.rest ∧ (op = .remainder → c'.rest.head? ≠ some '\x7b') := by
  induction ops generalizing a with
  | nil => cases h
  | cons o ops ih =>
    rcases orElse_eq_some.1 h with h | ⟨b, -, h⟩
    · obtain ⟨rfl, hop⟩ := thisOperator_some h
      exact ⟨List.mem_cons_self, hop⟩
    · obtain ⟨hmem, hop⟩ := ih h
      exact ⟨List.mem_cons_of_mem _ hmem, hop⟩

theorem firstOf_thisOperator_none {ops : List BinaryOp} (h : firstOf (ops.map thisOperator) c a = (none, a')) :
    ∀ o ∈ ops, o ≠ .remainder → ∀ rest, c.rest ≠ o.symbol.toList ++ rest := by
  induction ops generalizing a with
  | nil => simp
  | cons o ops ih =>
    obtain ⟨b, hnone, hrest⟩ := orElse_eq_none.1 h
    intro p hp hne
    rcases List.mem_cons.1 hp with rfl | hp
    · exact thisOperator_none hne hnone
    · exact ih hrest p hp hne

theorem operatorAt_of_operator (h : operator c a = (some (op, c'), a')) :
    OperatorAt (c.rest.dropWhile isGap) op c'.rest := by
  obtain ⟨u, c₁, a₁, hgap, h⟩ := bind_eq_some.1 h
  have hsplit : operators.map thisOperator = longer.map thisOperator ++ shorter.map thisOperator := rfl
  rw [hsplit, firstOf_append] at h
  rw [← rest_of_gap hgap]
  rcases orElse_eq_some.1 h with h | ⟨b, hnone, h⟩
  · obtain ⟨hmem, hsymbol, hremainder⟩ := firstOf_thisOperator_some h
    refine ⟨hsymbol, hremainder, ?_⟩
    rintro (rfl | rfl) <;> simp [longer] at hmem
  · obtain ⟨-, hsymbol, hremainder⟩ := firstOf_thisOperator_some h
    refine ⟨hsymbol, hremainder, fun horder hhead => ?_⟩
    obtain ⟨ds, hds⟩ := List.head?_eq_some_iff.1 hhead
    have hlonger := firstOf_thisOperator_none hnone
    rw [hsymbol, hds] at hlonger
    rcases horder with rfl | rfl
    · exact hlonger .atMost (by simp [longer]) (by decide) ds rfl
    · exact hlonger .atLeast (by simp [longer]) (by decide) ds rfl

/-- A sign stands in the text for the grammar. -/
structure SignAt (cs : List Char) (op : UnaryOp) (rest : List Char) : Prop where
  symbol : cs = op.symbol.toList ++ rest
  not : op = .not → rest.head? ≠ some '='

theorem signAt_of_sign {op : UnaryOp} (h : sign c a = (some (op, c'), a')) :
    SignAt (c.rest.dropWhile isGap) op c'.rest := by
  obtain ⟨u, c₁, a₁, hgap, h⟩ := bind_eq_some.1 h
  rw [← rest_of_gap hgap]
  rcases orElse_eq_some.1 h with h | ⟨_, -, h⟩
  · obtain ⟨t, c₂, a₂, htake, h⟩ := bind_eq_some.1 h
    cases h
    exact ⟨rest_of_exactly (rule_eq_some.1 htake), by simp⟩
  rcases orElse_eq_some.1 h with h | ⟨_, -, h⟩
  · obtain ⟨t, c₂, a₂, htake, h⟩ := bind_eq_some.1 h
    cases h
    exact ⟨rest_of_exactly (rule_eq_some.1 htake), by simp⟩
  rcases orElse_eq_some.1 h with h | ⟨_, -, h⟩
  · obtain ⟨t, c₂, a₂, htake, h⟩ := bind_eq_some.1 h
    cases h
    have hsplit := rest_of_take (rule_eq_some.1 htake)
    revert hsplit
    fun_cases exclamation? c₁.rest with
    | case1 => simp
    | case2 cs heq =>
      intro hsplit
      obtain ⟨-, hrest⟩ := Prod.mk.inj (Option.some.inj hsplit)
      refine ⟨by simp [UnaryOp.symbol, ← hrest], fun _ hhead => ?_⟩
      rw [← hrest] at hhead
      obtain ⟨ds, hds⟩ := List.head?_eq_some_iff.1 hhead
      exact heq ds hds
    | case3 => simp
  · cases h

/-! ### The end -/

theorem rest_of_atEnd {u : Unit} (h : atEnd c a = (some (u, c'), a')) : c.rest = [] := by
  unfold atEnd at h
  split at h
  · rename_i hempty
    exact List.isEmpty_iff.1 hempty
  · cases h

end Grammar

end Rowwise
