import Rowwise.Proofs.Numbers.Digits
import Rowwise.Proofs.Numbers.Whole
import Rowwise.Proofs.Parsing.Completeness

/-!
# Rowwise.Proofs.Numbers.Literals — numbers that are written out

Digits alone, with or without a sign in front, are read as the number that they are (`Double.read?_digits`).  Such a number is
whole, or infinite if it is too large.  So are all such numbers in a tree that a text is read as (`Expr.isIntegral_of_parse`).
-/

namespace Rowwise

open Double (IsIntegral)

/-! ### Numbers in trees -/

namespace Expr

mutual

/-- The numbers of the type of whole numbers that a tree holds. -/
def integers : Expr → List Float
  | integer x => [x]
  | unary _ e => e.integers
  | binary _ l r => l.integers ++ r.integers
  | call _ es => allIntegers es
  | _ => []

/-- Those that trees hold. -/
def allIntegers : List Expr → List Float
  | [] => []
  | e :: es => e.integers ++ allIntegers es

end

theorem allIntegers_eq (es : List Expr) : allIntegers es = es.flatMap integers := by
  induction es with
  | nil => rfl
  | cons e es ih => rw [allIntegers, ih, List.flatMap_cons]

end Expr

/-! ### Numbers in texts -/

namespace Double

theorem toLower_of_isDigit {c : Char} (h : c.isDigit = true) : c.toLower = c := by
  have hrange := toNat_of_isDigit h
  unfold Char.toLower
  rw [dif_neg]
  rintro ⟨hupper, -⟩
  have hle : 65 ≤ c.toNat := hupper
  omega

/-- Digits alone, with or without a sign in front, are read as a number. -/
theorem read?_digits {cs : List Char} (h : Spelling.Digits cs) (negative : Bool) :
    read? (if negative then '-' :: cs else cs) = some (ofDecimal negative ⟨ofDigits cs, 0⟩) := by
  have hsign : splitSign (if negative then '-' :: cs else cs) = (negative, cs) := by
    cases negative with
    | true => rfl
    | false =>
      rw [if_neg Bool.false_ne_true]
      unfold splitSign
      split
      · exact absurd (h.digits '-' (by simp)) (by decide)
      · exact absurd (h.digits '+' (by simp)) (by decide)
      · rfl
  have hdecimal : readDecimal? cs = some ⟨ofDigits cs, 0⟩ := by
    have htake : cs.takeWhile Char.isDigit = cs := List.takeWhile_eq_self_iff.2 h.digits
    have hdrop : cs.dropWhile Char.isDigit = [] := List.dropWhile_eq_nil_iff.2 h.digits
    have hnonempty : cs.isEmpty = false := by simpa using h.nonempty
    simp [readDecimal?, htake, hdrop, hnonempty, readExponent?]
  have hword : ∀ {w : String}, w.toList.any Char.isDigit = false → String.ofList (cs.map Char.toLower) ≠ w := by
    rintro w hw rfl
    obtain ⟨c, hc⟩ := List.exists_mem_of_ne_nil _ h.nonempty
    have hdigit := h.digits c hc
    rw [String.toList_ofList, List.any_eq_false] at hw
    refine hw _ (List.mem_map_of_mem hc) ?_
    rw [toLower_of_isDigit hdigit, hdigit]
  unfold read?
  rw [hsign]
  simp only [hdecimal]
  rw [if_neg (hword rfl), if_neg (not_or.2 ⟨hword rfl, hword rfl⟩)]
  rfl

end Double

/-- A number written with digits alone is whole or infinite. -/
theorem Spelling.Digits.isIntegral {cs : List Char} {x : Float} (hcs : Spelling.Digits cs) (hx : Double.read? cs = some x) :
    IsIntegral x := by
  have hread : Double.read? cs = some (Double.ofDecimal false ⟨Double.ofDigits cs, 0⟩) := Double.read?_digits hcs false
  rw [hread, Option.some_inj] at hx
  subst hx
  unfold Double.ofDecimal
  simp only
  rw [if_neg Bool.false_ne_true]
  split
  · decide +kernel
  · split
    · decide +kernel
    · exact Double.isIntegral_ofScientific _

/-- The whole numbers of an expression are written with digits alone. -/
theorem Stratum.Derives.isIntegral {s : Stratum} {cs : List Char} {e : Expr} (h : s.Derives cs e) :
    ∀ x ∈ e.integers, IsIntegral x := by
  induction h with
  | word hword =>
    cases hword with
    | integer hcs hx =>
      intro y hy
      rw [Expr.integers, List.mem_singleton] at hy
      exact hy ▸ hcs.isIntegral hx
    | _ => simp [Expr.integers]
  | whole _ _ _ ih | next _ _ ih | grouped _ ih => exact ih
  | sign _ _ ih =>
    rw [Expr.integers]
    exact ih
  | binary _ _ _ _ _ _ ihl ihr | power _ _ _ _ ihl ihr =>
    rw [Expr.integers]
    exact fun x hx => (List.mem_append.1 hx).elim (ihl x) (ihr x)
  | callEmpty _ _ _ => simp [Expr.integers, Expr.allIntegers]
  | call _ _ _ _ ih =>
    intro x hx
    rw [Expr.integers, Expr.allIntegers_eq] at hx
    obtain ⟨e, he, hx⟩ := List.mem_flatMap.1 hx
    obtain ⟨a, ha, rfl⟩ := List.mem_map.1 he
    exact ih a ha x hx

/-- The whole numbers in a tree that a text is read as are whole. -/
theorem Expr.isIntegral_of_parse {limit : Nat} {source : String} {e : Expr} (h : Expr.parse limit source = .ok e) :
    ∀ x ∈ e.integers, IsIntegral x :=
  ((Expr.parse_eq_ok_iff limit source e).1 h).2.2.isIntegral

end Rowwise
