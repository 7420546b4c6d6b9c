import Rowwise.Proofs.Comparing.Equality

/-!
# Rowwise.Proofs.Comparing.Orders — order and equality fit together

Two numbers or two texts, neither of which is missing, have one place in the order: it turns around when they are exchanged,
and it is equality just if the values are equal (`order?_of_present`).  All comparisons and `compare` read this one place.
If one value is missing there is no order, and all four comparisons are false.
-/

namespace Rowwise

open Value

variable {a b : Value} {x y : Float}

/-! ### The order of values -/

theorem Value.isMissing_of_number (ha : a.number? = some x) : a.isMissing = Double.isMissing x := by
  cases a with
  | integer z | double z =>
    cases ha
    rfl
  | _ => cases ha

theorem Value.not_boolean_of_number (ha : a.number? = some x) : a.type ≠ .boolean := by
  cases a with
  | boolean p => cases ha
  | _ => nofun

theorem Value.exists_text (htype : a.type = .text) (ha : a.isMissing = false) : ∃ s, a = text (some s) := by
  cases a with
  | text s =>
    cases s with
    | none => cases ha
    | some s => exact ⟨s, rfl⟩
  | _ => cases htype

theorem comparable_comm (s t : ValueType) : comparable s t = comparable t s := by
  rw [comparable, comparable, Bool.and_comm s.isNumeric, Bool.and_comm (s = .text)]

theorem comparable_cases (h : comparable a.type b.type = true) :
    (∃ x y, a.number? = some x ∧ b.number? = some y) ∨ ∃ s t, a = text s ∧ b = text t := by
  cases a with
  | integer x | double x =>
    cases b with
    | integer y | double y => exact Or.inl ⟨x, y, rfl, rfl⟩
    | _ => cases h
  | text s =>
    cases b with
    | text t => exact Or.inr ⟨s, t, rfl, rfl⟩
    | _ => cases h
  | _ => cases b <;> cases h

theorem order?_of_numbers (ha : a.number? = some x) (hb : b.number? = some y) : order? a b =
    if Double.isMissing x || Double.isMissing y then none else some (compareNumbers x y) := by
  cases a with
  | integer z | double z =>
    cases b with
    | integer z' | double z' =>
      cases ha
      cases hb
      rfl
    | _ => cases hb
  | _ => cases ha

/-- Values of which neither is missing have one place in the order, and it is theirs from both sides. -/
theorem order?_of_present (h : comparable a.type b.type = true) (ha : a.isMissing = false) (hb : b.isMissing = false) :
    ∃ r, order? a b = some r ∧ order? b a = some r.swap ∧ a.equals b = (r == .eq) := by
  rcases comparable_cases h with ⟨x, y, hx, hy⟩ | ⟨s, t, rfl, rfl⟩
  · have hx' : Double.isMissing x = false := (isMissing_of_number hx).symm.trans ha
    have hy' : Double.isMissing y = false := (isMissing_of_number hy).symm.trans hb
    refine ⟨compareNumbers x y, ?_, ?_, ?_⟩
    · rw [order?_of_numbers hx hy, if_neg (by simp [hx', hy'])]
    · rw [order?_of_numbers hy hx, if_neg (by simp [hx', hy']), Double.compareNumbers_swap hx' hy']
    · rw [equals_of_not_boolean ha hb (not_boolean_of_number hx) (not_boolean_of_number hy), hx, hy]
      exact Double.beq_eq_compareNumbers hx' hy'
  · obtain ⟨s, hs⟩ := exists_text rfl ha
    obtain ⟨t, ht⟩ := exists_text rfl hb
    cases hs
    cases ht
    refine ⟨compare s t, rfl, congrArg some Std.OrientedOrd.eq_swap, ?_⟩
    rw [equals_of_not_boolean ha hb nofun nofun]
    show decide (text (some s) = text (some t)) = _
    rw [Bool.eq_iff_iff, decide_eq_true_iff, beq_iff_eq, Std.LawfulEqOrd.compare_eq_iff_eq, text.injEq, Option.some_inj]

theorem Order.run_of_some {r : Ordering} (h : order? a b = some r) (o : Order) : o.run a b = o.accepts r := by
  rw [run, h]

theorem Order.run_of_none (h : order? a b = none) (o : Order) : o.run a b = false := by
  rw [run, h]

/-- One value is less than another just if the other is greater. -/
theorem Order.less_run (h : comparable a.type b.type = true) : less.run a b = greater.run b a := by
  by_cases hmissing : (a.isMissing || b.isMissing) = true
  · rw [run_of_none (Node.order?_of_missing hmissing), run_of_none (Node.order?_of_missing (by rwa [Bool.or_comm]))]
  · obtain ⟨ha, hb⟩ : a.isMissing = false ∧ b.isMissing = false := by simpa using hmissing
    obtain ⟨r, hr, hr', -⟩ := order?_of_present h ha hb
    rw [run_of_some hr, run_of_some hr']
    cases r <;> rfl

/-- Of two values neither of which is missing exactly one is less, or both are equal, and the other two comparisons say so. -/
theorem Order.run_of_present (h : comparable a.type b.type = true) (ha : a.isMissing = false) (hb : b.isMissing = false) :
    [less.run a b, a.equals b, greater.run a b].count true = 1 ∧
      atMost.run a b = (less.run a b || a.equals b) ∧ atLeast.run a b = (greater.run a b || a.equals b) := by
  obtain ⟨r, hr, -, hequals⟩ := order?_of_present h ha hb
  simp only [run_of_some hr, hequals]
  cases r <;> decide

/-- `compare` says which one of three holds of two texts. -/
theorem orderNumber_eq (s t : String) : TextFunction.orderNumber (compare s t) =
    if Order.less.run (text (some s)) (text (some t)) then -1
    else if (text (some s)).equals (text (some t)) then 0 else 1 := by
  obtain ⟨r, hr, -, hequals⟩ := order?_of_present (rfl : comparable (text (some s)).type (text (some t)).type = true) rfl rfl
  rw [Order.run_of_some hr, hequals]
  cases hr
  cases compare s t <;> rfl

/-! ### Calls -/

/-- The functions that compare values. -/
def Builtin.comparisons : List Builtin :=
  [.order .less, .order .atMost, .order .greater, .order .atLeast, .equality false, .text .compare]

namespace Context

open Node

variable {c : Context} {w w' : World} {x y : Node} {a b : Value}

/-- Calls of comparisons yield what the values of their arguments compare to, if the row supplies both. -/
theorem callYields_order (o : Order) (hc : c.function? (Builtin.order o).name = some (.builtin (.order o)))
    (hx : x.isConstant = false) (hy : y.isConstant = false) (htypes : comparable x.type y.type = true)
    (h : c.YieldInTurn w x y a b) : c.CallYields w (Builtin.order o).name [x, y] (.ofBool (o.run a b)) := by
  have harity : (Builtin.order o).signature.arity.accepts 2 = true := by cases o <;> rfl
  have hbuild : buildStandard c c.readInner (.order o) [x, y] = pure (.strict (.order o) .boolean [x, y]) := by
    have hparams : checkParams (Builtin.order o).name [x, y] [.any] = pure () := checkParams_single (fun _ _ => rfl) _
    have hx' : x.constant? = none := by simpa [isConstant] using hx
    have hy' : y.constant? = none := by simpa [isConstant] using hy
    show (do checkParams _ _ [.any]; buildOrder o x y) = _
    rw [hparams, pure_bind]
    simp [buildOrder, htypes, hx', hy']
  exact callYields_strict hc harity hbuild h rfl

/-- Calls of `compare` yield minus one, zero or one. -/
theorem callYields_compare {s t : String}
    (hc : c.function? (Builtin.text .compare).name = some (.builtin (.text .compare))) (hx : x.type = .text)
    (hy : y.type = .text) (h : c.YieldInTurn w x y (.text (some s)) (.text (some t))) :
    c.CallYields w (Builtin.text .compare).name [x, y] (.ofInt (TextFunction.orderNumber (compare s t))) := by
  have hbuild : buildStandard c c.readInner (.text .compare) [x, y] =
      pure (.strict (.text .compare) .integer [x, y]) := by
    have hparams : checkParams (Builtin.text .compare).name [x, y] [.text] = pure () := by
      refine checkParams_single (fun n hn => ?_) _
      have htype : n.type = .text := by
        rcases List.mem_pair.1 hn with rfl | rfl
        · exact hx
        · exact hy
      rw [htype]
      rfl
    show (do checkParams _ _ [.text]; _) = _
    rw [hparams, pure_bind]
    rfl
  exact callYields_strict hc rfl hbuild h rfl

/-- For two nodes that are no constants, both numbers or both texts: if no value is missing, exactly one of `<`, `==` and
`>` is true, `<=` and `>=` are these with equality, and `compare` tells which one it is; if one is missing, all four
comparisons are false; and `<` yields what `>` yields the other way round. -/
theorem orders_cohere (hc : ∀ d ∈ Builtin.comparisons, c.function? d.name = some (.builtin d))
    (hx : x.isConstant = false) (hy : y.isConstant = false) (hxa : x.type = a.type) (hyb : y.type = b.type)
    (hab : comparable a.type b.type = true) (h : c.YieldInTurn w x y a b) (h' : c.YieldInTurn w' y x b a) :
    ∃ less atMost greater atLeast equal : Bool,
      c.CallYields w "<" [x, y] (.ofBool less) ∧ c.CallYields w "<=" [x, y] (.ofBool atMost) ∧
      c.CallYields w ">" [x, y] (.ofBool greater) ∧ c.CallYields w ">=" [x, y] (.ofBool atLeast) ∧
      c.CallYields w "==" [x, y] (.ofBool equal) ∧ c.CallYields w' ">" [y, x] (.ofBool less) ∧
      (a.isMissing = false → b.isMissing = false →
        [less, equal, greater].count true = 1 ∧ atMost = (less || equal) ∧ atLeast = (greater || equal) ∧
        (a.type = .text →
          c.CallYields w "compare" [x, y] (.ofInt (if less then -1 else if equal then 0 else 1)))) ∧
      (a.isMissing = true ∨ b.isMissing = true →
        less = false ∧ atMost = false ∧ greater = false ∧ atLeast = false) := by
  have htypes : comparable x.type y.type = true := by rwa [hxa, hyb]
  have hcomm : comparable y.type x.type = true := by rwa [comparable_comm]
  have hstandard : ∀ o : Order, c.function? (Builtin.order o).name = some (.builtin (.order o)) := by
    intro o
    exact hc _ (by cases o <;> simp [Builtin.comparisons])
  have horder : ∀ o : Order, c.CallYields w (Builtin.order o).name [x, y] (.ofBool (o.run a b)) := fun o =>
    callYields_order o (hstandard o) hx hy htypes h
  have hequal : c.CallYields w "==" [x, y] (.ofBool (a.equals b != false)) :=
    callYields_equality false (hc _ (by simp [Builtin.comparisons])) h
  have hgreater : c.CallYields w' ">" [y, x] (.ofBool (Order.greater.run b a)) :=
    callYields_order .greater (hstandard .greater) hy hx hcomm h'
  rw [Bool.bne_false] at hequal
  rw [← Order.less_run hab] at hgreater
  refine ⟨Order.less.run a b, Order.atMost.run a b, Order.greater.run a b, Order.atLeast.run a b, a.equals b,
    horder .less, horder .atMost, horder .greater, horder .atLeast, hequal, hgreater, fun ha hb => ?_, fun hmissing => ?_⟩
  · obtain ⟨hone, hmost, hleast⟩ := Order.run_of_present hab ha hb
    refine ⟨hone, hmost, hleast, fun htext => ?_⟩
    have htext' : b.type = .text := by
      rcases comparable_cases hab with ⟨x, -, hx, -⟩ | ⟨-, t, -, rfl⟩
      · cases a with
        | text s => cases hx
        | _ => cases htext
      · rfl
    obtain ⟨s, rfl⟩ := exists_text htext ha
    obtain ⟨t, rfl⟩ := exists_text htext' hb
    rw [← orderNumber_eq]
    exact callYields_compare (hc _ (by simp [Builtin.comparisons])) hxa hyb h
  · have hnone : order? a b = none := order?_of_missing (by rwa [Bool.or_eq_true])
    exact ⟨Order.run_of_none hnone _, Order.run_of_none hnone _, Order.run_of_none hnone _, Order.run_of_none hnone _⟩

/-- Negative zero and zero from a row are equal, whichever of the two types they have. -/
theorem orders_cohere_zeros : ∃ less atMost greater atLeast equal : Bool,
    ({} : Context).CallYields {} "<" [.varying (.double (-0.0)), .varying (.integer 0)] (.ofBool less) ∧
      ({} : Context).CallYields {} "==" [.varying (.double (-0.0)), .varying (.integer 0)] (.ofBool equal) ∧
      [less, equal, greater].count true = 1 ∧ atMost = (less || equal) ∧ atLeast = (greater || equal) := by
  obtain ⟨less, atMost, greater, atLeast, equal, hless, -, -, -, hequal, -, hpresent, -⟩ :=
    orders_cohere (c := {}) (by decide +kernel) rfl rfl rfl rfl rfl
      (yieldInTurn_varying {} {} (.double (-0.0)) (.integer 0)) (yieldInTurn_varying {} {} (.integer 0) (.double (-0.0)))
  obtain ⟨hone, hmost, hleast, -⟩ := hpresent (by decide +kernel) (by decide +kernel)
  exact ⟨less, atMost, greater, atLeast, equal, hless, hequal, hone, hmost, hleast⟩

end Context

end Rowwise
