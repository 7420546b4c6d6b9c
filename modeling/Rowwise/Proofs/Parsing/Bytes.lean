import Rowwise.Proofs.Parsing.Scanning

/-!
# Rowwise.Proofs.Parsing.Bytes — the scan of nesting over bytes

A text is kept as its bytes in UTF-8.  Every character that the scan of nesting looks for is one byte below 128, and the
bytes of all other characters lie beyond, so the scan may as well go from byte to byte: a backslash then passes over the
first byte of the character behind it, and the bytes that follow mean nothing.  Both scans go through states that differ
only in characters they do not tell apart (`State.Alike`), and stop at one character: where the one has counted characters,
the other has counted bytes (`scan_bytes`).
-/

namespace Rowwise.Nesting

/-! ### Bytes -/

/-- The bytes of a character, each taken for the character of its number. -/
def byteChars (c : Char) : List Char := (String.utf8EncodeChar c).map Char.ofUInt8

/-- The offset of the first byte at which a text may nest deeper than the limit. -/
def tooDeepAtByte? (limit : Nat) (source : String) : Option Nat :=
  tooDeepAt? limit (source.toByteArray.data.toList.map Char.ofUInt8)

variable {limit offset offset' : Nat} {c d : Char} {cs bs rest : List Char} {s t : State} {m : Mode} {close : Char}

theorem toNat_ofUInt8 (b : UInt8) : (Char.ofUInt8 b).toNat = b.toNat := rfl

theorem byteChars_of_lt (h : c.toNat < 128) : byteChars c = [c] := by
  have hone : String.utf8EncodeChar c = [UInt8.ofNat c.toNat] := if_pos (Nat.le_of_lt_succ h)
  have hsame : Char.ofUInt8 (UInt8.ofNat c.toNat) = c := by
    refine Char.toNat_inj.1 ?_
    rw [toNat_ofUInt8, UInt8.toNat_ofNat', Nat.mod_eq_of_lt (by omega)]
  rw [byteChars, hone, List.map_singleton, hsame]

/-- The bytes of a character beyond ASCII lie beyond ASCII too. -/
theorem le_of_mem_byteChars (h : 128 ≤ c.toNat) (hd : d ∈ byteChars c) : 128 ≤ d.toNat := by
  obtain ⟨b, hb, rfl⟩ := List.mem_map.1 hd
  rw [toNat_ofUInt8]
  have hmore : ¬ c.val.toNat ≤ 127 := Nat.not_le.2 h
  unfold String.utf8EncodeChar at hb
  simp only [hmore, if_false] at hb
  split at hb
  · simp only [List.mem_cons, List.not_mem_nil, or_false] at hb
    rcases hb with rfl | rfl <;> rw [UInt8.toNat_ofNat'] <;> omega
  · split at hb
    · simp only [List.mem_cons, List.not_mem_nil, or_false] at hb
      rcases hb with rfl | rfl | rfl <;> rw [UInt8.toNat_ofNat'] <;> omega
    · simp only [List.mem_cons, List.not_mem_nil, or_false] at hb
      rcases hb with rfl | rfl | rfl | rfl <;> rw [UInt8.toNat_ofNat'] <;> omega

theorem byteChars_ne_nil (c : Char) : byteChars c ≠ [] := by
  rw [byteChars, Ne, List.map_eq_nil_iff]
  exact String.utf8EncodeChar_ne_nil

theorem bytes_eq (source : String) :
    source.toByteArray.data.toList.map Char.ofUInt8 = source.toList.flatMap byteChars := by
  rw [← String.utf8Encode_toList, List.utf8Encode, List.toList_data_toByteArray, List.map_flatMap]
  rfl

theorem length_flatMap_byteChars (cs : List Char) :
    (cs.flatMap byteChars).length = (String.ofList cs).utf8ByteSize := by
  have hbytes := congrArg List.length (bytes_eq (String.ofList cs))
  rw [String.toList_ofList, List.length_map] at hbytes
  rw [← hbytes]
  rfl

/-! ### Characters and states that the scan does not tell apart -/

/-- Two characters are one, or neither is ASCII. -/
def Alike (c d : Char) : Prop := c = d ∨ 128 ≤ c.toNat ∧ 128 ≤ d.toNat

theorem Alike.eq_iff (h : Alike c d) {a : Char} (ha : a.toNat < 128) : c = a ↔ d = a := by
  rcases h with rfl | ⟨hc, hd⟩
  · exact Iff.rfl
  · refine iff_of_false ?_ ?_
    · rintro rfl
      omega
    · rintro rfl
      omega

theorem not_special_of_le (h : 128 ≤ c.toNat) : c ∉ special := by
  have hall : special.all (fun d => d.toNat < 128) = true := by decide
  intro hc
  have hlt := of_decide_eq_true (List.all_eq_true.1 hall c hc)
  omega

theorem isDigit_of_le (h : 128 ≤ c.toNat) : c.isDigit = false := by
  simp only [Char.isDigit, Bool.and_eq_false_iff, decide_eq_false_iff_not]
  refine Or.inr fun hle => ?_
  have : c.toNat ≤ 57 := hle
  omega

theorem Alike.isDigit (h : Alike c d) : c.isDigit = d.isDigit := by
  rcases h with rfl | ⟨hc, hd⟩
  · rfl
  · rw [isDigit_of_le hc, isDigit_of_le hd]

/-- What follows is ASCII in neither text, or the same in both. -/
def AlikeNext (next next' : Option Char) : Prop := ∀ a : Char, a.toNat < 128 → (next = some a ↔ next' = some a)

theorem alikeNext_bytes (cs : List Char) : AlikeNext cs.head? (cs.flatMap byteChars).head? := by
  intro a ha
  cases cs with
  | nil => exact Iff.rfl
  | cons c cs =>
    cases hb : byteChars c with
    | nil => exact absurd hb (byteChars_ne_nil c)
    | cons b bs =>
      have halike : Alike c b := by
        by_cases hc : c.toNat < 128
        · rw [byteChars_of_lt hc] at hb
          exact Or.inl (List.cons.inj hb).1
        · exact Or.inr ⟨Nat.not_lt.1 hc, le_of_mem_byteChars (Nat.not_lt.1 hc) (hb ▸ List.mem_cons_self)⟩
      rw [List.flatMap_cons, hb, List.cons_append, List.head?_cons, List.head?_cons, Option.some_inj, Option.some_inj]
      exact halike.eq_iff ha

theorem AlikeNext.isPair {next next' : Option Char} (h : AlikeNext next next') (c : Char) :
    isPair c next = isPair c next' := by
  have hbar := h '|' (by decide)
  have hand := h '&' (by decide)
  have heq := h '=' (by decide)
  unfold Nesting.isPair
  split <;> simp only [hbar, hand, heq]

/-- States that the scan does not tell apart.  Behind a character that is not ASCII, the one before it does not matter. -/
structure State.Alike (s t : State) : Prop where
  current : s.current = t.current
  around : s.around = t.around
  last : Nesting.Alike s.last t.last
  before : s.last.toNat < 128 → Nesting.Alike s.before t.before

theorem State.Alike.endsExponent (h : s.Alike t) : endsExponent s.before s.last = endsExponent t.before t.last := by
  have he := h.last.eq_iff (a := 'e') (by decide)
  have hE := h.last.eq_iff (a := 'E') (by decide)
  unfold Nesting.endsExponent
  by_cases hlast : s.last.toNat < 128
  · have hdot := (h.before hlast).eq_iff (a := '.') (by decide)
    simp only [he, hE, hdot, (h.before hlast).isDigit]
  · have hne : s.last ≠ 'e' ∧ s.last ≠ 'E' := by
      constructor <;> intro heq <;> rw [heq] at hlast <;> exact hlast (by decide)
    simp only [← he, ← hE, hne.1, hne.2, decide_false, Bool.or_false, Bool.false_and]

theorem State.Alike.past (h : s.Alike t) (hcd : Nesting.Alike c d) : (s.past c).Alike (t.past d) :=
  ⟨h.current, h.around, hcd, fun _ => h.last⟩

theorem State.le_last_pastAll (s : State) (bs : List Char) (hs : 128 ≤ s.last.toNat)
    (hbs : ∀ d ∈ bs, 128 ≤ d.toNat) : 128 ≤ (s.pastAll bs).last.toNat := by
  induction bs generalizing s with
  | nil => exact hs
  | cons b bs ih =>
    exact ih (s.past b) (hbs b List.mem_cons_self) (fun d hd => hbs d (List.mem_cons_of_mem _ hd))

/-- One character beyond ASCII on the one side, its bytes on the other. -/
theorem State.Alike.pastBytes (h : s.Alike t) (hc : 128 ≤ c.toNat) : (s.past c).Alike (t.pastAll (byteChars c)) := by
  have hwide : ∀ d ∈ byteChars c, 128 ≤ d.toNat := fun d hd => le_of_mem_byteChars hc hd
  refine ⟨?_, ?_, Or.inr ⟨hc, ?_⟩, fun hlt => absurd hc (Nat.not_le.2 hlt)⟩
  · rw [current_past, current_pastAll, h.current]
  · rw [around_past, around_pastAll, h.around]
  · cases hb : byteChars c with
    | nil => exact absurd hb (byteChars_ne_nil c)
    | cons b bs =>
      rw [hb] at hwide
      exact State.le_last_pastAll (t.past b) bs (hwide b List.mem_cons_self)
        (fun d hd => hwide d (List.mem_cons_of_mem _ hd))

/-! ### One character of code -/

/-- What stands behind a character of code ends with an ASCII character. -/
def Mode.Ascii : Mode → Prop
  | .quoted close | .escaped close => close.toNat < 128
  | .code | .operator => True

/-- Two scans read a character of code alike: both stop at it, and it is a parenthesis or starts an operator, or both go
on in one mode. -/
inductive ReadAlike (c : Char) : Option (State × Mode) → Option (State × Mode) → Prop
  | stop (hc : c = '(' ∨ c = ')' ∨ startsOperator c = true) : ReadAlike c none none
  | go {s t : State} {m : Mode} (h : s.Alike t) (hm : m.Ascii) : ReadAlike c (some (s, m)) (some (t, m))

theorem ReadAlike.within {limit : Nat} (hc : c = ')' ∨ startsOperator c = true) (h : s.Alike t) (hm : m.Ascii) :
    ReadAlike c (if s.current.argument > limit then none else some (s, m))
      (if t.current.argument > limit then none else some (t, m)) := by
  rw [h.current]
  split
  · exact .stop (Or.inr hc)
  · exact .go h hm

theorem State.Alike.code? (h : s.Alike t) {next next' : Option Char} (hnext : AlikeNext next next') (c : Char) :
    ReadAlike c (s.code? limit c next) (t.code? limit c next') := by
  have hpast : (s.past c).Alike (t.past c) := h.past (Or.inl rfl)
  unfold State.code?
  split
  · exact .go hpast (by decide : '"'.toNat < 128)
  · exact .go hpast (by decide : ']'.toNat < 128)
  · rw [h.around]
    split
    · exact .stop (Or.inl rfl)
    · exact .go ⟨rfl, by rw [h.current], hpast.last, hpast.before⟩ trivial
  · exact .go ⟨by rw [h.current], h.around, hpast.last, hpast.before⟩ trivial
  · rw [h.around]
    split
    · exact .go ⟨h.current, rfl, hpast.last, hpast.before⟩ trivial
    · exact .within (Or.inl rfl) ⟨by rw [h.current], rfl, hpast.last, hpast.before⟩ trivial
  -- what follows matters here: a brace opens a reference, some characters make an operator of two
  · have hbrace : (next = some '\x7b') = (next' = some '\x7b') := propext (hnext '\x7b' (by decide))
    simp only [hbrace, h.endsExponent, hnext.isPair c]
    split
    · exact .go hpast (by decide : '\x7d'.toNat < 128)
    · split
      · exact .go hpast trivial
      · split
        · rename_i hop
          have hcounted : State.Alike { s.past c with current := s.current.withOperator }
              { t.past c with current := t.current.withOperator } :=
            ⟨by rw [h.current], h.around, hpast.last, hpast.before⟩
          exact .within (Or.inr hop) hcounted (by split <;> trivial)
        · exact .go hpast trivial

/-! ### The whole scan -/

/-- Both scans go to the end, or both stop at one character, and one has counted the characters before it and the other
their bytes. -/
inductive Stops (cs : List Char) (offset offset' : Nat) : Option Nat → Option Nat → Prop
  | never : Stops cs offset offset' none none
  | here {before : List Char} {c : Char} {after : List Char} (hcs : cs = before ++ c :: after)
      (hc : c = '(' ∨ c = ')' ∨ startsOperator c = true) :
      Stops cs offset offset' (some (offset + before.length)) (some (offset' + (before.flatMap byteChars).length))

theorem Stops.cons {r r' : Option Nat} (h : Stops cs (offset + 1) (offset' + (byteChars c).length) r r') :
    Stops (c :: cs) offset offset' r r' := by
  cases h with
  | never => exact .never
  | @here before e after hcs he =>
    have hstop : Stops (c :: cs) offset offset' (some (offset + (c :: before).length))
        (some (offset' + ((c :: before).flatMap byteChars).length)) := .here (by rw [hcs, List.cons_append]) he
    rw [List.flatMap_cons, List.length_append, List.length_cons] at hstop
    rw [show offset + 1 + before.length = offset + (before.length + 1) by omega, Nat.add_assoc offset']
    exact hstop

theorem Stops.cons_ascii {r r' : Option Nat} (hc : c.toNat < 128) (h : Stops cs (offset + 1) (offset' + 1) r r') :
    Stops (c :: cs) offset offset' r r' := by
  refine Stops.cons ?_
  rwa [byteChars_of_lt hc]

/-- The scan passes over characters beyond ASCII in code. -/
theorem scan_code_wide (hbs : ∀ d ∈ bs, 128 ≤ d.toNat) :
    scan limit offset .code s (bs ++ rest) = scan limit (offset + bs.length) .code (s.pastAll bs) rest := by
  induction bs generalizing offset s with
  | nil => rfl
  | cons b bs ih =>
    have hplain : s.code? limit b (bs ++ rest).head? = some (s.past b, .code) :=
      code?_plain (not_special_of_le (hbs b List.mem_cons_self)) s _
    rw [List.cons_append, scan, hplain]
    simp only [ih (fun d hd => hbs d (List.mem_cons_of_mem _ hd)), State.pastAll_cons, List.length_cons]
    rw [Nat.add_assoc, Nat.add_comm 1]

/-- And inside a text, a bracketed name or a reference. -/
theorem scan_quoted_wide (hclose : close.toNat < 128) (hbs : ∀ d ∈ bs, 128 ≤ d.toNat) :
    scan limit offset (.quoted close) s (bs ++ rest) = scan limit (offset + bs.length) (.quoted close) s rest := by
  induction bs generalizing offset with
  | nil => rfl
  | cons b bs ih =>
    have hb : 128 ≤ b.toNat := hbs b List.mem_cons_self
    have hesc : b ≠ '\\' := by
      rintro rfl
      exact absurd hb (by decide)
    have hne : b ≠ close := by
      rintro rfl
      omega
    rw [List.cons_append, scan, if_neg hesc, if_neg hne, ih (fun d hd => hbs d (List.mem_cons_of_mem _ hd)),
      List.length_cons, Nat.add_assoc, Nat.add_comm 1]

/-- The mode behind characters beyond ASCII. -/
def Mode.behindWide : Mode → Mode
  | .code | .operator => .code
  | .quoted close | .escaped close => .quoted close

/-- The state behind them. -/
def Mode.overWide (m : Mode) (s : State) (bs : List Char) : State :=
  match m with
  | .code | .operator => s.pastAll bs
  | .quoted _ | .escaped _ => s

theorem Mode.Ascii.behindWide (hm : m.Ascii) : m.behindWide.Ascii := by
  cases m with
  | code | operator => trivial
  | quoted close | escaped close => exact hm

/-- The scan passes over characters beyond ASCII, whatever its mode. -/
theorem scan_wide (hm : m.Ascii) (hne : bs ≠ []) (hbs : ∀ d ∈ bs, 128 ≤ d.toNat) :
    scan limit offset m s (bs ++ rest) = scan limit (offset + bs.length) m.behindWide (m.overWide s bs) rest := by
  obtain ⟨b, bs, rfl⟩ := List.exists_cons_of_ne_nil hne
  have hrest : ∀ d ∈ bs, 128 ≤ d.toNat := fun d hd => hbs d (List.mem_cons_of_mem _ hd)
  have hlength : offset + (b :: bs).length = offset + 1 + bs.length := by
    rw [List.length_cons]
    omega
  cases m with
  | code => exact scan_code_wide hbs
  | quoted close => exact scan_quoted_wide hm hbs
  | operator =>
    rw [List.cons_append, scan, hlength]
    exact scan_code_wide hrest
  | escaped close =>
    rw [List.cons_append, scan, hlength]
    exact scan_quoted_wide hm hrest

/-- The two scans of a text stop at one character, or neither stops. -/
theorem scan_bytes (hm : m.Ascii) (h : s.Alike t) :
    Stops cs offset offset' (scan limit offset m s cs) (scan limit offset' m t (cs.flatMap byteChars)) := by
  induction cs generalizing offset offset' m s t with
  | nil => cases m <;> exact .never
  | cons c cs ih =>
    rw [List.flatMap_cons]
    by_cases hc : c.toNat < 128
    -- one byte: both scans take one step
    · have hpast : (s.past c).Alike (t.past c) := h.past (Or.inl rfl)
      rw [byteChars_of_lt hc, List.singleton_append]
      cases m with
      | code =>
        have hread : ReadAlike c (s.code? limit c cs.head?) (t.code? limit c (cs.flatMap byteChars).head?) :=
          h.code? (alikeNext_bytes cs) c
        rw [scan, scan]
        generalize s.code? limit c cs.head? = r, t.code? limit c (cs.flatMap byteChars).head? = r' at hread ⊢
        cases hread with
        | stop hc => exact .here (List.nil_append _).symm hc
        | go h hm => exact .cons_ascii hc (ih hm h)
      | operator => exact .cons_ascii hc (ih trivial hpast)
      | quoted close =>
        rw [scan, scan]
        split
        · exact .cons_ascii hc (ih hm h)
        · split
          · exact .cons_ascii hc (ih trivial hpast)
          · exact .cons_ascii hc (ih hm h)
      | escaped close => exact .cons_ascii hc (ih hm h)
    -- several bytes: both scans pass all of the character, and come to states that are alike
    · have hwide : 128 ≤ c.toNat := Nat.not_lt.1 hc
      have hself : scan limit offset m s (c :: cs) = scan limit (offset + 1) m.behindWide (m.overWide s [c]) cs :=
        scan_wide hm (List.cons_ne_nil c []) (by simpa using hwide)
      have hbytes : ∀ d ∈ byteChars c, 128 ≤ d.toNat := fun d hd => le_of_mem_byteChars hwide hd
      have halike : (m.overWide s [c]).Alike (m.overWide t (byteChars c)) := by
        cases m with
        | code | operator => exact h.pastBytes hwide
        | quoted close | escaped close => exact h
      rw [hself, scan_wide hm (byteChars_ne_nil c) hbytes]
      exact Stops.cons (ih hm.behindWide halike)

/-- Where the scan over the bytes of a text stops, at a parenthesis or an operator, the scan over its characters does. -/
theorem tooDeepAtByte?_eq (limit : Nat) (source : String) :
    Stops source.toList 0 0 (tooDeepAt? limit source.toList) (tooDeepAtByte? limit source) := by
  rw [tooDeepAtByte?, bytes_eq]
  exact scan_bytes trivial ⟨rfl, rfl, Or.inl rfl, fun _ => Or.inl rfl⟩

end Rowwise.Nesting
