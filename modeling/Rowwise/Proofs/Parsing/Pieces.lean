import Rowwise.Proofs.Parsing.Words

/-!
# Rowwise.Proofs.Parsing.Pieces — reading piece by piece

A parser `Reads` characters if it takes just these where a given text follows, and `Refuses` a text if it takes nothing of
it.  There is one lemma for each combinator, so that what a parser reads follows from what its parts read.
-/

namespace Rowwise

namespace Parser

variable {α β : Type} {p q : Parser α} {f : α → Parser β} {cs ds rest : List Char} {x : α} {y : β}

/-- The parser takes these characters for `x` where `rest` follows. -/
def Reads (p : Parser α) (cs : List Char) (x : α) (rest : List Char) : Prop :=
  ∀ c a, c.rest = cs ++ rest → ∃ c' a', p c a = (some (x, c'), a') ∧ c'.rest = rest

/-- The parser takes nothing from this text. -/
def Refuses (p : Parser α) (cs : List Char) : Prop := ∀ c a, c.rest = cs → ∃ a', p c a = (none, a')

theorem Reads.pure (x : α) (rest : List Char) : Reads (Pure.pure x : Parser α) [] x rest :=
  fun c a hc => ⟨c, a, rfl, hc⟩

theorem Reads.bind (hp : Reads p cs x (ds ++ rest)) (hf : Reads (f x) ds y rest) : Reads (p >>= f) (cs ++ ds) y rest := by
  intro c a hc
  obtain ⟨c₁, a₁, hx, hc₁⟩ := hp c a (by rw [hc, List.append_assoc])
  obtain ⟨c₂, a₂, hy, hc₂⟩ := hf c₁ a₁ hc₁
  exact ⟨c₂, a₂, bind_eq_some.2 ⟨x, c₁, a₁, hx, hy⟩, hc₂⟩

theorem Reads.bind_pure {g : α → β} (hp : Reads p cs x rest) : Reads (p >>= fun x => Pure.pure (g x)) cs (g x) rest := by
  have hnone : Reads p cs x ([] ++ rest) := hp
  simpa using hnone.bind (Reads.pure (g x) rest)

theorem Refuses.bind (hp : Refuses p cs) : Refuses (p >>= f) cs := by
  intro c a hc
  obtain ⟨a', hnone⟩ := hp c a hc
  exact ⟨a', bind_eq_none.2 (Or.inl hnone)⟩

theorem Reads.bind_refuses (hp : Reads p cs x rest) (hf : Refuses (f x) rest) : Refuses (p >>= f) (cs ++ rest) := by
  intro c a hc
  obtain ⟨c₁, a₁, hx, hc₁⟩ := hp c a hc
  obtain ⟨a₂, hnone⟩ := hf c₁ a₁ hc₁
  exact ⟨a₂, bind_eq_none.2 (Or.inr ⟨x, c₁, a₁, hx, hnone⟩)⟩

theorem Reads.rule {r : Rule} (hp : Reads p cs x rest) : Reads (Parser.rule r p) cs x rest := by
  intro c a hc
  obtain ⟨c', a', hx, hc'⟩ := hp c a hc
  exact ⟨c', a', rule_eq_some.2 hx, hc'⟩

theorem Refuses.rule {r : Rule} (hp : Refuses p cs) : Refuses (Parser.rule r p) cs := by
  intro c a hc
  obtain ⟨a', hnone⟩ := hp c a hc
  exact ⟨a'.failed a r c.offset, by simp [Parser.rule, hnone]⟩

theorem Reads.orElse (hp : Reads p cs x rest) : Reads (orElse p q) cs x rest := by
  intro c a hc
  obtain ⟨c', a', hx, hc'⟩ := hp c a hc
  exact ⟨c', a', orElse_eq_some.2 (Or.inl hx), hc'⟩

theorem Refuses.orElse_reads (hp : Refuses p (cs ++ rest)) (hq : Reads q cs x rest) : Reads (orElse p q) cs x rest := by
  intro c a hc
  obtain ⟨b, hnone⟩ := hp c a hc
  obtain ⟨c', a', hx, hc'⟩ := hq c b hc
  exact ⟨c', a', orElse_eq_some.2 (Or.inr ⟨b, hnone, hx⟩), hc'⟩

theorem Reads.take {split? : List Char → Option (List Char × List Char)} (h : split? (cs ++ rest) = some (cs, rest)) :
    Reads (take split?) cs cs rest :=
  fun c a hc => ⟨_, a, take_eq_some.2 ⟨rest, by rw [hc, h], rfl, rfl⟩, rfl⟩

theorem Refuses.take {split? : List Char → Option (List Char × List Char)} (h : split? cs = none) :
    Refuses (Parser.take split?) cs :=
  fun c a hc => ⟨a, take_eq_none.2 ⟨by rw [hc, h], rfl⟩⟩

theorem Reads.exactly (s : String) (rest : List Char) : Reads (exactly s) s.toList s.toList rest :=
  Reads.take (by rw [Text.dropPrefix?_eq_some_iff.2 rfl]; rfl)

theorem Refuses.exactly {s : String} (h : ∀ rest, cs ≠ s.toList ++ rest) : Refuses (Parser.exactly s) cs := by
  refine Refuses.take ?_
  cases hdrop : Text.dropPrefix? s.toList cs with
  | none => rfl
  | some rest => exact absurd (Text.dropPrefix?_eq_some_iff.1 hdrop) (h rest)

/-! ### Gaps -/

open Spelling

theorem Reads.gap (h : Gap cs) (hrest : NextNot isGap rest) : Reads gap cs () rest :=
  fun c a hc => ⟨_, a, rfl, by simp only [hc, hrest.dropWhile h]⟩

theorem Reads.symbol {s : String} (h : Gap cs) (hs : NextNot isGap (s.toList ++ rest)) :
    Reads (symbol s) (cs ++ s.toList) () rest := by
  refine Reads.bind (Reads.gap h hs) ?_
  simpa using Reads.bind (Reads.exactly s ([] ++ rest)) (Reads.pure () rest)

theorem Refuses.symbol {s : String} (h : ∀ rest, cs.dropWhile isGap ≠ s.toList ++ rest) :
    Refuses (Parser.symbol s) cs := by
  intro c a hc
  rcases hs : Parser.symbol s c a with ⟨_ | ⟨u, c'⟩, a'⟩
  · exact ⟨a', rfl⟩
  · exact absurd (rest_of_symbol hs) (hc ▸ h c'.rest)

/-! ### Repetition -/

/-- The parser reads the characters piece by piece and then nothing more. -/
inductive ReadsAll (p : Parser α) (rest : List Char) : List Char → List α → Prop where
  | nil : Refuses p rest → ReadsAll p rest [] []
  | cons {cs ds x xs} : cs ≠ [] → Reads p cs x (ds ++ rest) → ReadsAll p rest ds xs → ReadsAll p rest (cs ++ ds) (x :: xs)

theorem ReadsAll.upTo {xs : List α} (h : ReadsAll p rest cs xs) {n : Nat} (hn : cs.length < n) :
    Reads (upTo n p) cs xs rest := by
  induction h generalizing n with
  | nil hend =>
    obtain ⟨n, rfl⟩ := Nat.exists_eq_succ_of_ne_zero (Nat.ne_of_gt (Nat.zero_lt_of_lt hn))
    intro c a hc
    obtain ⟨a', hnone⟩ := hend c a hc
    exact ⟨c, a', by simp [Parser.upTo, hnone], hc⟩
  | @cons cs ds x xs hne hx _ ih =>
    obtain ⟨n, rfl⟩ := Nat.exists_eq_succ_of_ne_zero (Nat.ne_of_gt (Nat.zero_lt_of_lt hn))
    intro c a hc
    have hlength := List.length_pos_iff.2 hne
    rw [List.length_append] at hn
    obtain ⟨c₁, a₁, hx, hc₁⟩ := hx c a (by rw [hc, List.append_assoc])
    obtain ⟨c₂, a₂, hxs, hc₂⟩ := ih (n := n) (by omega) c₁ a₁ hc₁
    exact ⟨c₂, a₂, by simp [Parser.upTo, hx, hxs], hc₂⟩

theorem ReadsAll.many {xs : List α} (h : ReadsAll p rest cs xs) : Reads (many p) cs xs rest := by
  intro c a hc
  exact h.upTo (by rw [hc, List.length_append]; omega) c a hc

end Parser

end Rowwise
