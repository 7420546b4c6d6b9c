import Rowwise.Proofs.Parsing.Language
import Rowwise.Proofs.Parsing.Reading

/-!
# Rowwise.Proofs.Parsing.Words — the words of the grammar as they are spelled

What is taken for a word is spelled like one (`Word.spelled`).  The other way round a word is taken in full where no
character follows that could belong to it, and each number that can be spelled can be read.
-/

namespace Rowwise

/-- Whatever character comes next is not one of these. -/
def NextNot (p : Char → Bool) (cs : List Char) : Prop := ∀ c ∈ cs.head?, p c = false

theorem NextNot.takeWhile {p : Char → Bool} {cs rest : List Char} (h : NextNot p rest) (hcs : ∀ c ∈ cs, p c = true) :
    (cs ++ rest).takeWhile p = cs := by
  rw [List.takeWhile_append_of_pos hcs]
  cases rest with
  | nil => simp
  | cons c rest => simp [h c rfl]

theorem NextNot.dropWhile {p : Char → Bool} {cs rest : List Char} (h : NextNot p rest) (hcs : ∀ c ∈ cs, p c = true) :
    (cs ++ rest).dropWhile p = rest := by
  rw [List.dropWhile_append_of_pos hcs]
  cases rest with
  | nil => simp
  | cons c rest => simp [h c rfl]

namespace Grammar

open Spelling
open Rowwise.Parser (isGap)

variable {cs ds ex rest taken : List Char} {e : Expr}

/-! ### Digits and exponents -/

theorem digits?_spelled (h : digits? cs = some (taken, rest)) : cs = taken ++ rest ∧ Digits taken := by
  unfold digits? at h
  split at h
  · cases h
  · rename_i hne
    cases h
    exact ⟨List.takeWhile_append_dropWhile.symm, hne, fun c hc => List.mem_takeWhile_imp hc⟩

theorem digits?_of_digits (h : Digits ds) (hrest : NextNot Char.isDigit rest) : digits? (ds ++ rest) = some (ds, rest) := by
  unfold digits?
  rw [hrest.takeWhile h.digits, hrest.dropWhile h.digits]
  cases ds with
  | nil => exact absurd rfl h.nonempty
  | cons d ds => rfl

theorem digits?_eq_none (h : NextNot Char.isDigit cs) : digits? cs = none := by
  unfold digits?
  have htake : ([] ++ cs).takeWhile Char.isDigit = [] := h.takeWhile (by simp)
  rw [show cs.takeWhile Char.isDigit = [] from htake]

theorem map_digits?_spelled {f : List Char → List Char}
    (h : (digits? cs).map (fun x => (f x.1, x.2)) = some (taken, rest)) :
    ∃ ds, taken = f ds ∧ cs = ds ++ rest ∧ Digits ds := by
  obtain ⟨⟨ds, rest'⟩, hds, heq⟩ := Option.map_eq_some_iff.1 h
  obtain ⟨rfl, rfl⟩ := Prod.mk.inj heq
  exact ⟨ds, rfl, digits?_spelled hds⟩

theorem exponent?_spelled (h : exponent? cs = some (taken, rest)) : cs = taken ++ rest ∧ Exponent taken := by
  cases cs with
  | nil => cases h
  | cons e cs =>
    simp only [exponent?] at h
    split at h
    · rename_i hmark
      have hmark : isMark e = true := by simpa [isMark] using hmark
      split at h
      · obtain ⟨ds, rfl, rfl, hdigits⟩ := map_digits?_spelled (f := fun ds => e :: '+' :: ds) h
        exact ⟨rfl, .signed hmark (Or.inl rfl) hdigits⟩
      · obtain ⟨ds, rfl, rfl, hdigits⟩ := map_digits?_spelled (f := fun ds => e :: '-' :: ds) h
        exact ⟨rfl, .signed hmark (Or.inr rfl) hdigits⟩
      · obtain ⟨ds, rfl, rfl, hdigits⟩ := map_digits?_spelled (f := fun ds => e :: ds) h
        exact ⟨rfl, .unsigned hmark hdigits⟩
    · cases h

theorem exponent?_of_exponent (h : Exponent ex) (hrest : NextNot Char.isDigit rest) :
    exponent? (ex ++ rest) = some (ex, rest) := by
  cases h with
  | @unsigned e ds hmark hdigits =>
    have htake := digits?_of_digits hdigits hrest
    cases ds with
    | nil => exact absurd rfl hdigits.nonempty
    | cons d ds =>
      have hd := hdigits.digits d List.mem_cons_self
      have hplus : d ≠ '+' := by rintro rfl; revert hd; decide
      have hminus : d ≠ '-' := by rintro rfl; revert hd; decide
      simp only [List.cons_append] at htake ⊢
      simp only [exponent?, show e = 'e' ∨ e = 'E' by simpa [isMark] using hmark, if_true]
      split
      · rename_i heq; exact absurd (List.cons.inj heq).1 hplus
      · rename_i heq; exact absurd (List.cons.inj heq).1 hminus
      · rw [htake]; rfl
  | @signed e sign ds hmark hsign hdigits =>
    have htake := digits?_of_digits hdigits hrest
    rcases hsign with rfl | rfl <;> simp [exponent?, show e = 'e' ∨ e = 'E' by simpa [isMark] using hmark, htake]

theorem exponent?_eq_none (h : NextNot isMark cs) : exponent? cs = none := by
  cases cs with
  | nil => rfl
  | cons c cs =>
    have hc := h c rfl
    simp only [isMark, Bool.or_eq_false_iff, decide_eq_false_iff_not] at hc
    simp [exponent?, hc.1, hc.2]

theorem withExponent_spelled {t r : List Char} (h : withExponent t r = (taken, rest)) :
    ∃ ex, taken = t ++ ex ∧ r = ex ++ rest ∧ Exponent? ex := by
  unfold withExponent at h
  split at h
  · rename_i ex rest' htake
    obtain ⟨rfl, hex⟩ := exponent?_spelled htake
    obtain ⟨rfl, rfl⟩ := Prod.mk.inj h
    exact ⟨ex, rfl, rfl, Or.inr hex⟩
  · obtain ⟨rfl, rfl⟩ := Prod.mk.inj h
    exact ⟨[], (List.append_nil t).symm, rfl, Or.inl rfl⟩

theorem withExponent_of (t : List Char) (h : Exponent? ex) (hdigit : NextNot Char.isDigit rest)
    (hmark : NextNot isMark rest) : withExponent t (ex ++ rest) = (t ++ ex, rest) := by
  unfold withExponent
  rcases h with rfl | h
  · rw [List.nil_append, exponent?_eq_none hmark, List.append_nil]
  · rw [exponent?_of_exponent h hdigit]

theorem Digits.head {ds : List Char} (h : Digits ds) : ∃ d ds', ds = d :: ds' ∧ d.isDigit = true := by
  cases ds with
  | nil => exact absurd rfl h.nonempty
  | cons d ds => exact ⟨d, ds, rfl, h.digits d List.mem_cons_self⟩

theorem Exponent.head (h : Exponent ex) : ∃ e ex', ex = e :: ex' ∧ isMark e = true := by
  cases h with
  | unsigned hmark => exact ⟨_, _, rfl, hmark⟩
  | signed hmark => exact ⟨_, _, rfl, hmark⟩

theorem not_digit_of_isMark {c : Char} (h : isMark c = true) : c.isDigit = false ∧ c ≠ '.' := by
  simp only [isMark, Bool.or_eq_true, decide_eq_true_eq] at h
  rcases h with rfl | rfl <;> decide

/-- No digit stands where an exponent starts. -/
theorem Exponent?.nextNot (h : Exponent? ex) (hrest : NextNot Char.isDigit rest) : NextNot Char.isDigit (ex ++ rest) := by
  rcases h with rfl | h
  · exact hrest
  · obtain ⟨e, ex', rfl, hmark⟩ := Exponent.head h
    intro c hc
    cases hc
    exact (not_digit_of_isMark hmark).1

/-! ### Numbers with a point or an exponent -/

theorem float?_spelled (h : float? cs = some (taken, rest)) : cs = taken ++ rest ∧ Fractional taken := by
  revert h
  fun_cases float? cs with
  | case1 _ ds more hds =>
    intro h
    obtain ⟨rfl, hdigits⟩ := digits?_spelled hds
    obtain ⟨ex, rfl, hrest, hex⟩ := withExponent_spelled (Option.some.inj h)
    have hmore : more = more.takeWhile Char.isDigit ++ (ex ++ rest) := by
      rw [← hrest, List.takeWhile_append_dropWhile]
    refine ⟨?_, ?_⟩
    · conv => lhs; rw [hmore]
      simp
    · simpa using Fractional.whole hdigits (fun c hc => List.mem_takeWhile_imp hc) hex
  | case2 _ ds more hpoint hds =>
    intro h
    obtain ⟨rfl, hdigits⟩ := digits?_spelled hds
    obtain ⟨⟨ex, rest'⟩, htake, heq⟩ := Option.map_eq_some_iff.1 h
    obtain ⟨rfl, hex⟩ := exponent?_spelled htake
    obtain ⟨rfl, rfl⟩ := Prod.mk.inj heq
    exact ⟨(List.append_assoc _ _ _).symm, .scaled hdigits hex⟩
  | case3 more hnone =>
    intro h
    obtain ⟨⟨ds, rest'⟩, hds, heq⟩ := Option.map_eq_some_iff.1 h
    obtain ⟨rfl, hdigits⟩ := digits?_spelled hds
    obtain ⟨ex, rfl, rfl, hex⟩ := withExponent_spelled heq
    exact ⟨by simp, .fraction hdigits hex⟩
  | case4 => simp

/-- True for the characters that could go on a number. -/
def continuesNumber (c : Char) : Bool := c.isDigit || c = '.' || isMark c

theorem continuesNumber_eq_false {c : Char} : continuesNumber c = false ↔
    (c.isDigit = false ∧ c ≠ '.') ∧ isMark c = false := by
  simp [continuesNumber]

theorem digit_of_number (h : NextNot continuesNumber rest) : NextNot Char.isDigit rest :=
  fun c hc => (continuesNumber_eq_false.1 (h c hc)).1.1

theorem mark_of_number (h : NextNot continuesNumber rest) : NextNot isMark rest :=
  fun c hc => (continuesNumber_eq_false.1 (h c hc)).2

theorem float?_of_fractional (h : Fractional cs) (hrest : NextNot continuesNumber rest) :
    float? (cs ++ rest) = some (cs, rest) := by
  have hdigit := digit_of_number hrest
  have hmark := mark_of_number hrest
  cases h with
  | @whole ds fs ex hds hfs hex =>
    have hpoint : NextNot Char.isDigit ('.' :: (fs ++ (ex ++ rest))) := fun c hc => by cases hc; rfl
    have hend : NextNot Char.isDigit (ex ++ rest) := Exponent?.nextNot hex hdigit
    simp only [List.append_assoc, List.cons_append, float?, digits?_of_digits hds hpoint]
    rw [hend.takeWhile hfs, hend.dropWhile hfs, withExponent_of _ hex hdigit hmark]
    simp
  | @fraction ds ex hds hex =>
    have hend : NextNot Char.isDigit (ex ++ rest) := Exponent?.nextNot hex hdigit
    have hpoint : digits? ('.' :: (ds ++ (ex ++ rest))) = none := digits?_eq_none fun c hc => by cases hc; rfl
    simp only [List.append_assoc, List.cons_append, float?, hpoint, digits?_of_digits hds hend, Option.map_some,
      withExponent_of _ hex hdigit hmark]
  | @scaled ds ex hds hex =>
    have hend : NextNot Char.isDigit (ex ++ rest) := Exponent?.nextNot (Or.inr hex) hdigit
    simp only [List.append_assoc, float?, digits?_of_digits hds hend]
    obtain ⟨e, ex', rfl, hmark⟩ := Exponent.head hex
    split
    · rename_i heq
      simp only [Option.some.injEq, Prod.mk.injEq, List.cons_append, List.cons.injEq] at heq
      exact absurd heq.2.1 (not_digit_of_isMark hmark).2
    · rename_i heq
      obtain ⟨rfl, rfl⟩ := Prod.mk.inj (Option.some.inj heq)
      rw [exponent?_of_exponent hex hdigit]
      rfl
    · rename_i heq
      cases heq

theorem float?_of_digits (h : Digits ds) (hrest : NextNot continuesNumber rest) : float? (ds ++ rest) = none := by
  simp only [float?, digits?_of_digits h (digit_of_number hrest)]
  split
  · rename_i heq
    obtain ⟨-, rfl⟩ := Prod.mk.inj (Option.some.inj heq)
    exact absurd (hrest '.' rfl) (by decide)
  · rename_i heq
    obtain ⟨rfl, rfl⟩ := Prod.mk.inj (Option.some.inj heq)
    rw [exponent?_eq_none (mark_of_number hrest)]
    rfl
  · rename_i heq
    cases heq

/-! ### Names -/

theorem name?_spelled (h : name? cs = some (taken, rest)) : cs = taken ++ rest ∧ Name taken := by
  cases cs with
  | nil => cases h
  | cons c cs =>
    simp only [name?] at h
    split at h
    · rename_i hc
      obtain ⟨rfl, rfl⟩ := Prod.mk.inj (Option.some.inj h)
      exact ⟨by simp, .intro hc fun d hd => List.mem_takeWhile_imp hd⟩
    · cases h

theorem Name.continues (h : Name cs) : ∀ d ∈ cs, continuesName d = true := by
  obtain @⟨c, cs, hstart, hcs⟩ := h
  intro d hd
  rcases List.mem_cons.1 hd with rfl | hd
  · simp only [startsName, Bool.or_eq_true] at hstart
    simp only [continuesName, Char.isAlphanum, Bool.or_eq_true]
    exact hstart.imp Or.inl id
  · exact hcs d hd

theorem name?_of_name (h : Name cs) (hrest : NextNot continuesName rest) : name? (cs ++ rest) = some (cs, rest) := by
  cases h with
  | intro hc hcs => simp only [List.cons_append, name?, hc, if_true, hrest.takeWhile hcs, hrest.dropWhile hcs]

/-! ### Texts and references -/

theorem body_spelled {close : Char} : cs = (body close cs).1 ++ (body close cs).2 ∧ Body close (body close cs).1 := by
  fun_induction body close cs with
  | case1 c cs ih => exact ⟨by simp [← ih.1], .escaped ih.2⟩
  | case2 c cs _ _ => exact ⟨rfl, .nil⟩
  | case3 c cs hesc hgo ih =>
    rw [not_or] at hgo
    exact ⟨by simp [← ih.1], .plain hgo.1 hgo.2 ih.2⟩
  | case4 => exact ⟨rfl, .nil⟩

theorem body_of_body {close : Char} {raw : List Char} (h : Body close raw) (hclose : close ≠ '\\') :
    body close (raw ++ close :: rest) = (raw, close :: rest) := by
  induction h with
  | nil => simp [body, hclose]
  | plain hc hesc _ ih => simp [body, hc, hesc, ih]
  | escaped _ ih => simp [body, ih]

theorem braced_of_reference (h : Reference cs) : braced (cs ++ '\x7d' :: rest) = some (cs, '\x7d' :: rest) := by
  have hcs : ∀ c ∈ cs, decide (c ≠ '\x7d') = true := by
    intro c hc
    simp only [decide_eq_true_eq]
    rintro rfl
    exact h.open_ hc
  have hclose : NextNot (fun c => decide (c ≠ '\x7d')) ('\x7d' :: rest) := fun c hc => by
    cases hc
    rfl
  rw [braced, hclose.takeWhile hcs, hclose.dropWhile hcs]
  exact nonempty_eq_some.2 ⟨h.nonempty, rfl⟩

/-! ### Numbers are read -/

theorem splitSign_of_digit {d : Char} (hd : d.isDigit = true ∨ d = '.') :
    Double.splitSign (d :: cs) = (false, d :: cs) := by
  have hplus : d ≠ '+' := by rintro rfl; revert hd; decide
  have hminus : d ≠ '-' := by rintro rfl; revert hd; decide
  unfold Double.splitSign
  split
  · rename_i heq
    exact absurd (List.cons.inj heq).1 hminus
  · rename_i heq
    exact absurd (List.cons.inj heq).1 hplus
  · rfl

theorem readExponent?_isSome (h : Exponent? ex) : (Double.readExponent? ex).isSome = true := by
  rcases h with rfl | h
  · rfl
  cases h with
  | @unsigned e ds hmark hds =>
    obtain ⟨d, ds', rfl, hd⟩ := Digits.head hds
    have hall : (d :: ds').all Char.isDigit = true := List.all_eq_true.2 hds.digits
    simp [Double.readExponent?, show e = 'e' ∨ e = 'E' by simpa [isMark] using hmark, splitSign_of_digit (Or.inl hd),
      -List.all_cons, hall]
  | @signed e sign ds hmark hsign hds =>
    have hne := hds.nonempty
    have hall : ds.all Char.isDigit = true := List.all_eq_true.2 hds.digits
    rcases hsign with rfl | rfl <;>
      simp [Double.readExponent?, Double.splitSign, show e = 'e' ∨ e = 'E' by simpa [isMark] using hmark, hne, hall]

theorem toNat_le_of_isDigit {d : Char} (hd : d.isDigit = true) : d.val.toNat ≤ 57 :=
  UInt32.le_iff_toNat_le.1 (of_decide_eq_true (Bool.and_eq_true_iff.1 hd).2)

/-- A text that starts like a number is no word for a number, so its digits count. -/
theorem read?_of_decimal {d : Char} (hd : d.isDigit = true ∨ d = '.')
    (h : (Double.readDecimal? (d :: cs)).isSome = true) : Double.read? (d :: cs) = some (numberOf (d :: cs)) := by
  have hlower : d.toLower = d := by
    rcases hd with hd | rfl
    · refine dif_neg fun hupper => ?_
      have hnine := toNat_le_of_isDigit hd
      have hletter : 65 ≤ d.val.toNat := UInt32.le_iff_toNat_le.1 hupper.1
      omega
    · rfl
  have hword : ∀ w : String, w.toList.head? = some 'n' ∨ w.toList.head? = some 'i' →
      String.ofList ((d :: cs).map Char.toLower) ≠ w := by
    rintro w hw rfl
    rw [String.toList_ofList, List.map_cons, List.head?_cons, hlower] at hw
    rcases hw with hw | hw <;> cases hw <;> revert hd <;> decide
  have hsome : (Double.read? (d :: cs)).isSome = true := by
    simp only [Double.read?, splitSign_of_digit hd]
    rw [if_neg (hword _ (Or.inl (by decide))),
      if_neg (not_or.2 ⟨hword _ (Or.inr (by decide)), hword _ (Or.inr (by decide))⟩), Option.isSome_map]
    exact h
  obtain ⟨x, hx⟩ := Option.isSome_iff_exists.1 hsome
  rw [numberOf, hx]
  rfl

theorem read?_of_digits (h : Digits cs) : Double.read? cs = some (numberOf cs) := by
  have hdecimal : (Double.readDecimal? cs).isSome = true := by
    have hend : NextNot Char.isDigit ([] : List Char) := fun c hc => by cases hc
    have htake := hend.takeWhile h.digits
    have hdrop := hend.dropWhile h.digits
    rw [List.append_nil] at htake hdrop
    simp [Double.readDecimal?, htake, hdrop, h.nonempty, Double.readExponent?]
  obtain ⟨d, ds, rfl, hd⟩ := Digits.head h
  exact read?_of_decimal (Or.inl hd) hdecimal

theorem read?_of_fractional (h : Fractional cs) : Double.read? cs = some (numberOf cs) := by
  have hend : NextNot Char.isDigit ([] : List Char) := fun c hc => by cases hc
  cases h with
  | @whole ds fs ex hds hfs hex =>
    have hpoint : NextNot Char.isDigit ('.' :: (fs ++ ex)) := fun c hc => by cases hc; rfl
    have hex' : NextNot Char.isDigit ex := by simpa using Exponent?.nextNot hex hend
    have hdecimal : (Double.readDecimal? (ds ++ '.' :: (fs ++ ex))).isSome = true := by
      simp [Double.readDecimal?, hpoint.takeWhile hds.digits, hpoint.dropWhile hds.digits, hex'.takeWhile hfs,
        hex'.dropWhile hfs, hds.nonempty, readExponent?_isSome hex]
    obtain ⟨d, ds', rfl, hd⟩ := Digits.head hds
    exact read?_of_decimal (Or.inl hd) hdecimal
  | @fraction ds ex hds hex =>
    have hex' : NextNot Char.isDigit ex := by simpa using Exponent?.nextNot hex hend
    refine read?_of_decimal (Or.inr rfl) ?_
    simp [Double.readDecimal?, hex'.takeWhile hds.digits, hex'.dropWhile hds.digits, hds.nonempty,
      readExponent?_isSome hex, show Char.isDigit '.' = false from rfl]
  | @scaled ds ex hds hex =>
    have hex' : NextNot Char.isDigit ex := by simpa using Exponent?.nextNot (Or.inr hex) hend
    have hread := readExponent?_isSome (Or.inr hex)
    obtain ⟨e, ex', rfl, hmark⟩ := Exponent.head hex
    have hdecimal : (Double.readDecimal? (ds ++ e :: ex')).isSome = true := by
      simp only [Double.readDecimal?, hex'.takeWhile hds.digits, hex'.dropWhile hds.digits]
      split
      · rename_i heq
        exact absurd (List.cons.inj heq).1 (not_digit_of_isMark hmark).2
      · simp [hds.nonempty, hread]
    obtain ⟨d, ds', rfl, hd⟩ := Digits.head hds
    exact read?_of_decimal (Or.inl hd) hdecimal

/-- What is taken for a word is spelled like one. -/
theorem Word.spelled {e : Expr} (h : Word cs e rest) : ∃ w, cs = w ++ rest ∧ Spelling.Word w e := by
  cases h with
  | double h =>
    obtain ⟨rfl, hw⟩ := float?_spelled h
    exact ⟨_, rfl, .double hw (read?_of_fractional hw)⟩
  | integer h =>
    obtain ⟨rfl, hw⟩ := digits?_spelled h
    exact ⟨_, rfl, .integer hw (read?_of_digits hw)⟩
  | @text cs raw ds rest hbody hdecode =>
    have hsplit := @body_spelled cs '"'
    rw [hbody] at hsplit
    exact ⟨'"' :: (raw ++ ['"']), by simp [hsplit.1], .text hsplit.2 hdecode⟩
  | @column cs raw ds rest hbody hne hdecode =>
    have hsplit := @body_spelled cs ']'
    rw [hbody] at hsplit
    exact ⟨'[' :: (raw ++ [']']), by simp [hsplit.1], .column hne hsplit.2 hdecode⟩
  | @scope name rest hclose hne => exact ⟨'%' :: '\x7b' :: (name ++ ['\x7d']), by simp, .scope ⟨hne, hclose⟩⟩
  | @macroRef name rest hclose hne => exact ⟨'#' :: '\x7b' :: (name ++ ['\x7d']), by simp, .macroRef ⟨hne, hclose⟩⟩
  | name h =>
    obtain ⟨rfl, hw⟩ := name?_spelled h
    exact ⟨_, rfl, .name hw⟩

/-! ### What follows a word -/

/-- An expression may end here: at the end, a closing parenthesis or a comma. -/
def Closes (cs : List Char) : Prop :=
  (cs.dropWhile isGap).head? = none ∨ (cs.dropWhile isGap).head? = some ')' ∨ (cs.dropWhile isGap).head? = some ','

/-- No parenthesis opens here. -/
def Unopened (cs : List Char) : Prop := (cs.dropWhile isGap).head? ≠ some '('

theorem Closes.unopened (h : Closes cs) : Unopened cs := by
  rintro hopen
  rcases h with h | h | h <;> rw [h] at hopen <;> cases hopen

theorem OperatorAt.head? {op : BinaryOp} (h : OperatorAt cs op rest) :
    ∃ d, cs.head? = some d ∧ d ≠ '(' ∧ d ≠ ')' ∧ d ≠ ',' := by
  rw [h.symbol]
  cases op <;> exact ⟨_, rfl, by decide, by decide, by decide⟩

theorem SignAt.head? {op : UnaryOp} (h : SignAt cs op rest) :
    ∃ d, cs.head? = some d ∧ d ≠ '(' ∧ d ≠ ')' ∧ d ≠ ',' := by
  rw [h.symbol]
  cases op <;> exact ⟨_, rfl, by decide, by decide, by decide⟩

theorem Closes.head?_ne (h : Closes cs) {d : Char} (hd : (cs.dropWhile isGap).head? = some d) :
    d = ')' ∨ d = ',' := by
  rcases h with h | h | h
  · rw [h] at hd
    cases hd
  · exact Or.inl (Option.some.inj (hd.symm.trans h))
  · exact Or.inr (Option.some.inj (hd.symm.trans h))

theorem Closes.not_operatorAt (h : Closes cs) {op : BinaryOp} : ¬ OperatorAt (cs.dropWhile isGap) op rest := by
  intro hop
  obtain ⟨d, hd, -, hclose, hcomma⟩ := hop.head?
  exact (h.head?_ne hd).elim hclose hcomma

theorem Closes.not_signAt (h : Closes cs) {op : UnaryOp} : ¬ SignAt (cs.dropWhile isGap) op rest := by
  intro hop
  obtain ⟨d, hd, -, hclose, hcomma⟩ := hop.head?
  exact (h.head?_ne hd).elim hclose hcomma

theorem Fractional.head (h : Fractional ds) : ∃ d ds', ds = d :: ds' ∧ (d.isDigit = true ∨ d = '.') := by
  cases h with
  | whole hds _ _ =>
    obtain ⟨d, ds', rfl, hd⟩ := Digits.head hds
    exact ⟨d, _, rfl, Or.inl hd⟩
  | fraction _ _ => exact ⟨'.', _, rfl, Or.inr rfl⟩
  | scaled hds _ =>
    obtain ⟨d, ds', rfl, hd⟩ := Digits.head hds
    exact ⟨d, _, rfl, Or.inl hd⟩

theorem digits?_head? {ds : List Char} (h : digits? cs = some (ds, rest)) :
    ∃ d, cs.head? = some d ∧ d.isDigit = true := by
  obtain ⟨rfl, hds⟩ := digits?_spelled h
  obtain ⟨d, ds', rfl, hd⟩ := Digits.head hds
  exact ⟨d, rfl, hd⟩

theorem float?_head? {ds : List Char} (h : float? cs = some (ds, rest)) :
    ∃ d, cs.head? = some d ∧ (d.isDigit = true ∨ d = '.') := by
  obtain ⟨rfl, hds⟩ := float?_spelled h
  obtain ⟨d, ds', rfl, hd⟩ := Fractional.head hds
  exact ⟨d, rfl, hd⟩

theorem not_startsName {d : Char} (hd : d.isDigit = true ∨ d = '.') : startsName d = false := by
  rcases hd with hd | rfl
  · have hword : d.isAlpha = false := by
      have hnine := toNat_le_of_isDigit hd
      refine Bool.eq_false_iff.2 fun halpha => ?_
      rcases Bool.or_eq_true_iff.1 halpha with hupper | hlower
      · have : 65 ≤ d.val.toNat := UInt32.le_iff_toNat_le.1 (of_decide_eq_true hupper).1
        omega
      · have : 97 ≤ d.val.toNat := UInt32.le_iff_toNat_le.1 (of_decide_eq_true (Bool.and_eq_true_iff.1 hlower).1)
        omega
    have hline : d ≠ '_' := by
      rintro rfl
      revert hd
      decide
    simp [startsName, hword, hline]
  · decide

theorem name?_eq_none {d : Char} (h : startsName d = false) : name? (d :: cs) = none := by
  simp [name?, h]

/-- What a word that starts like a name leaves, the name leaves. -/
theorem Word.rest_of_name {taken rest' : List Char} (h : Word cs e rest) (hname : name? cs = some (taken, rest')) :
    rest = rest' := by
  have hstart : ∀ {d ds}, cs = d :: ds → startsName d = false → rest = rest' := by
    rintro d ds rfl hd
    rw [name?_eq_none hd] at hname
    cases hname
  cases h with
  | double hfloat =>
    obtain ⟨d, hd, hnum⟩ := float?_head? hfloat
    obtain ⟨ds, hcs⟩ := List.head?_eq_some_iff.1 hd
    exact hstart hcs (not_startsName hnum)
  | integer hdigits =>
    obtain ⟨d, hd, hnum⟩ := digits?_head? hdigits
    obtain ⟨ds, hcs⟩ := List.head?_eq_some_iff.1 hd
    exact hstart hcs (not_startsName (Or.inl hnum))
  | text _ _ => exact hstart rfl (by decide)
  | column _ _ _ => exact hstart rfl (by decide)
  | scope _ _ => exact hstart rfl (by decide)
  | macroRef _ _ => exact hstart rfl (by decide)
  | name htaken =>
    rw [htaken] at hname
    exact (Prod.mk.inj (Option.some.inj hname)).2

theorem name?_head? {taken : List Char} (h : name? cs = some (taken, rest)) : cs.head? ≠ some '(' := by
  obtain ⟨rfl, hname⟩ := name?_spelled h
  cases hname with
  | intro hc _ =>
    intro hopen
    cases hopen
    revert hc
    decide

theorem Word.height (h : Word cs e rest) : e.height = 1 := by
  cases h <;> rfl

theorem Word.head? (h : Word cs e rest) : cs.head? ≠ some '(' := by
  cases h with
  | double hfloat =>
    obtain ⟨d, hd, hnum⟩ := float?_head? hfloat
    rw [hd]
    rintro ⟨⟩
    revert hnum
    decide
  | integer hdigits =>
    obtain ⟨d, hd, hnum⟩ := digits?_head? hdigits
    rw [hd]
    rintro ⟨⟩
    revert hnum
    decide
  | text _ _ => simp
  | column _ _ _ => simp
  | scope _ _ => simp
  | macroRef _ _ => simp
  | name htaken => exact name?_head? htaken

end Grammar

end Rowwise
