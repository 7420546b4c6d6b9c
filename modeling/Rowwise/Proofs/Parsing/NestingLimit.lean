import Rowwise.Proofs.Parsing.Completeness

/-!
# Rowwise.Proofs.Parsing.NestingLimit — a text that one limit accepts, under a larger one

The limit only refuses: a character that is read within one limit is read the same way within a larger one
(`State.code?_of_le`), so two scans of a text that differ in their limits go through the same states as long as the
smaller one allows.  A text that parses therefore parses with every larger limit, and to the same tree
(`Expr.parse_of_smaller_limit`).
-/

namespace Rowwise

namespace Nesting

variable {limit limit' : Nat}

/-- A character that is read within a limit is read the same way within a larger one. -/
theorem State.code?_of_le (hle : limit ≤ limit') {s : State} {c : Char} {next : Option Char} {r : State × Mode}
    (h : s.code? limit c next = some r) : s.code? limit' c next = some r := by
  have hwithin : ∀ (t : State) (m : Mode),
      (if t.current.argument > limit then none else some (t, m)) = some r →
        (if t.current.argument > limit' then none else some (t, m)) = some r := by
    intro t m ht
    by_cases hover : t.current.argument > limit
    · rw [if_pos hover] at ht
      cases ht
    · rw [if_neg hover] at ht
      rw [if_neg (by omega)]
      exact ht
  unfold State.code? at h ⊢
  split at h
  · exact h
  · exact h
  -- an opening parenthesis counts at once
  · by_cases hover : s.around.length + 1 > limit
    · rw [if_pos hover] at h
      cases h
    · rw [if_neg hover] at h
      rw [if_neg (by omega)]
      exact h
  · exact h
  · split at h
    · exact h
    · exact hwithin _ _ h
  -- a reference, the sign of an exponent, an operator or anything else
  · by_cases href : (c = '%' || c = '#') && next = some '\x7b'
    · rw [if_pos href] at h ⊢
      exact h
    · rw [if_neg href] at h ⊢
      by_cases hsign : (c = '+' || c = '-') && endsExponent s.before s.last
      · rw [if_pos hsign] at h ⊢
        exact h
      · rw [if_neg hsign] at h ⊢
        by_cases hop : startsOperator c
        · rw [if_pos hop] at h ⊢
          exact hwithin _ _ h
        · rw [if_neg hop] at h ⊢
          exact h

/-- A scan that ends within a limit ends within a larger one. -/
theorem scan_of_le (hle : limit ≤ limit') (offset : Nat) (mode : Mode) (s : State) (cs : List Char)
    (h : scan limit offset mode s cs = none) : scan limit' offset mode s cs = none := by
  induction cs generalizing offset mode s with
  | nil => cases mode <;> rfl
  | cons c rest ih =>
    cases mode with
    | code =>
      simp only [scan] at h ⊢
      -- the smaller limit read this character, so both scans go on from the same state
      obtain ⟨⟨s', mode'⟩, hread⟩ : ∃ r, s.code? limit c rest.head? = some r := by
        cases hread : s.code? limit c rest.head? with
        | none => simp [hread] at h
        | some r => exact ⟨r, rfl⟩
      rw [hread] at h
      rw [State.code?_of_le hle hread]
      exact ih _ _ _ h
    | operator => exact ih _ _ _ h
    | escaped close => exact ih _ _ _ h
    | quoted close =>
      simp only [scan] at h ⊢
      by_cases hesc : c = '\\'
      · rw [if_pos hesc] at h ⊢
        exact ih _ _ _ h
      · rw [if_neg hesc] at h ⊢
        by_cases hclose : c = close
        · rw [if_pos hclose] at h ⊢
          exact ih _ _ _ h
        · rw [if_neg hclose] at h ⊢
          exact ih _ _ _ h

/-- A text that does not nest too deep for a limit does not for a larger one. -/
theorem tooDeepAt?_of_le (hle : limit ≤ limit') {cs : List Char} (h : tooDeepAt? limit cs = none) :
    tooDeepAt? limit' cs = none := scan_of_le hle 0 .code {} cs h

end Nesting

namespace Expr

/-- A text that parses within a limit parses to the same tree within every larger one. -/
theorem parse_of_smaller_limit {limit limit' : Nat} (hle : limit ≤ limit') (source : String) (e : Expr)
    (h : parse limit source = .ok e) : parse limit' source = .ok e := by
  obtain ⟨hscan, hdepth, hderives⟩ := (parse_eq_ok_iff limit source e).mp h
  have hscan' : Nesting.tooDeepAt? limit' source.toList = none := Nesting.tooDeepAt?_of_le hle hscan
  exact (parse_eq_ok_iff limit' source e).mpr ⟨hscan', hdepth.trans hle, hderives⟩

/-- The smallest limit of a text with two arguments, and the limit where none is given. -/
theorem parse_of_smaller_limit_call : ∃ e, 3 ≤ defaultDepth ∧ parse 3 "f(a, -[b])" = .ok e ∧
    parse defaultDepth "f(a, -[b])" = .ok e := by
  have hscan : Nesting.tooDeepAt? 3 "f(a, -[b])".toList = none := by decide
  have hdepth : (read "f(a, -[b])".toList).toOption.map depth = some 3 := by
    rw [funext depth_eq_height]
    decide +kernel
  obtain ⟨e, he, hdepth⟩ := Option.map_eq_some_iff.mp hdepth
  have hparse : parse 3 "f(a, -[b])" = .ok e :=
    (parse_eq_ok_iff _ _ _).mpr ⟨hscan, hdepth.le, read_eq_ok_iff.mp (eq_ok_of_toOption he)⟩
  exact ⟨e, by decide, hparse, parse_of_smaller_limit (by decide) _ e hparse⟩

end Expr

end Rowwise
