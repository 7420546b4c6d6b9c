import Rowwise.Proofs.Parsing.Quoting

/-!
# Rowwise.Proofs.Parsing.Escapes — what escapes stand for

The inside of a text or of a bracketed name is a sequence of pieces, each of which writes one character (`Piece`).  Only a
`\u` may write none: it needs four hexadecimal digits that are the number of a character (`Numbers`).  So an inside stands
for characters exactly if each `\u` in it has a number (`exists_resolved_iff`), and then resolving its escapes gives these
(`decode_of_resolved`).  The converse has one exception, since a plus sign and three digits are taken for a number, too
(`resolved_of_decode`).

An inside has a character behind each backslash, so the only fault of its escapes is a bad number
(`number_of_decode_error`).
-/

namespace Rowwise.Escape

open Spelling (Body)

/-! ### Numbers of characters -/

/-- The character is the hexadecimal digit of this value. -/
def HexDigit (c : Char) (v : Nat) : Prop :=
  "0123456789abcdef".toList[v]? = some c ∨ "0123456789ABCDEF".toList[v]? = some c

instance (c : Char) (v : Nat) : Decidable (HexDigit c v) := inferInstanceAs (Decidable (_ ∨ _))

/-- Four hexadecimal digits are the number of a character. -/
inductive Numbers : List Char → Char → Prop where
  | intro {a b c d x : Char} {i j k l : Nat} : HexDigit a i → HexDigit b j → HexDigit c k → HexDigit d l →
      x.toNat = 4096 * i + 256 * j + 16 * k + l → Numbers [a, b, c, d] x

variable {a b c d x : Char} {cs ds raw rest : List Char} {n v : Nat}

theorem HexDigit.bounds (h : HexDigit c v) : c.toNat < 128 ∧ v < 16 := by
  have hdigits : ∀ ds ∈ ["0123456789abcdef".toList, "0123456789ABCDEF".toList],
      ds.length = 16 ∧ ds.all (fun d => d.toNat < 128) = true := by decide
  have hof : ∀ ds ∈ ["0123456789abcdef".toList, "0123456789ABCDEF".toList], ds[v]? = some c →
      c.toNat < 128 ∧ v < 16 := by
    intro ds hds hget
    obtain ⟨hlength, hall⟩ := hdigits ds hds
    obtain ⟨hv, -⟩ := List.getElem?_eq_some_iff.1 hget
    exact ⟨of_decide_eq_true (List.all_eq_true.1 hall c (List.mem_of_getElem? hget)), hlength ▸ hv⟩
  rcases h with h | h
  · exact hof _ (by simp) h
  · exact hof _ (by simp) h

theorem toNat_lt_of_hexDigit? (h : hexDigit? c = some v) : c.toNat < 128 := by
  have hle : ∀ d : Char, c ≤ d → c.toNat ≤ d.toNat := fun d hd => UInt32.le_iff_toNat_le.1 hd
  unfold hexDigit? at h
  split at h
  · rename_i hdigit
    exact Nat.lt_of_le_of_lt (Grammar.toNat_le_of_isDigit hdigit) (by decide)
  · split at h
    · rename_i hlower
      exact Nat.lt_of_le_of_lt (hle 'f' hlower.2) (by decide)
    · split at h
      · rename_i hupper
        exact Nat.lt_of_le_of_lt (hle 'F' hupper.2) (by decide)
      · cases h

/-- The digits that are read are the sixteen digits, and the letters among them in both cases. -/
theorem hexDigit?_eq_some_iff : hexDigit? c = some v ↔ HexDigit c v := by
  have hread : ∀ n < 128, ∀ v ∈ hexDigit? (Char.ofNat n), HexDigit (Char.ofNat n) v := by decide +kernel
  have hwritten : ∀ v < 16, "0123456789abcdef".toList[v]?.bind hexDigit? = some v ∧
      "0123456789ABCDEF".toList[v]?.bind hexDigit? = some v := by decide +kernel
  constructor
  · intro h
    have hdigit := hread c.toNat (toNat_lt_of_hexDigit? h)
    rw [Char.ofNat_toNat] at hdigit
    exact hdigit v h
  · intro h
    obtain ⟨hlower, hupper⟩ := hwritten v h.bounds.2
    rcases h with hget | hget
    · rwa [hget] at hlower
    · rwa [hget] at hupper

theorem hexValue?_eq_some_iff : hexValue? [a, b, c, d] = some n ↔ ∃ i j k l,
    (HexDigit a i ∧ HexDigit b j ∧ HexDigit c k ∧ HexDigit d l) ∧ n = 4096 * i + 256 * j + 16 * k + l := by
  simp only [hexValue?, List.foldlM, Option.bind_eq_bind, Option.bind_eq_some_iff, Option.map_eq_some_iff,
    hexDigit?_eq_some_iff, Option.pure_def, Option.some.injEq]
  constructor
  · rintro ⟨_, ⟨i, hi, rfl⟩, _, ⟨j, hj, rfl⟩, _, ⟨k, hk, rfl⟩, _, ⟨l, hl, rfl⟩, rfl⟩
    exact ⟨i, j, k, l, ⟨hi, hj, hk, hl⟩, by omega⟩
  · rintro ⟨i, j, k, l, ⟨hi, hj, hk, hl⟩, rfl⟩
    exact ⟨_, ⟨i, hi, rfl⟩, _, ⟨j, hj, rfl⟩, _, ⟨k, hk, rfl⟩, _, ⟨l, hl, rfl⟩, by omega⟩

/-- A number has digits only. -/
theorem digits_of_hexValue? (h : cs.foldlM (fun n c => (hexDigit? c).map (16 * n + ·)) n = some v) :
    ∀ c ∈ cs, ∃ v, HexDigit c v := by
  induction cs generalizing n with
  | nil => simp
  | cons c cs ih =>
    rw [List.foldlM_cons, Option.bind_eq_bind, Option.bind_eq_some_iff] at h
    obtain ⟨k, hk, hrest⟩ := h
    obtain ⟨v, hv, -⟩ := Option.map_eq_some_iff.1 hk
    exact List.forall_mem_cons.2 ⟨⟨v, hexDigit?_eq_some_iff.1 hv⟩, ih hrest⟩

theorem ne_plus_of_hexDigit (h : HexDigit c v) : c ≠ '+' := by
  rintro rfl
  have hplus := hexDigit?_eq_some_iff.2 h
  exact absurd hplus (by simp [hexDigit?])

/-- What names a character has digits only, behind a plus sign or without one. -/
theorem digits_of_character? (h : character? cs = some x) :
    ∃ digits, (cs = digits ∨ cs = '+' :: digits) ∧ ∀ c ∈ digits, ∃ v, HexDigit c v := by
  unfold character? at h
  rw [Option.bind_eq_bind, Option.bind_eq_some_iff] at h
  obtain ⟨n, hn, -⟩ := h
  split at hn
  · exact ⟨_, Or.inr rfl, digits_of_hexValue? hn⟩
  · exact ⟨_, Or.inl rfl, digits_of_hexValue? hn⟩

/-- Four characters without a plus sign in front name a character exactly if they are its number. -/
theorem character?_eq_some_iff (ha : a ≠ '+') : character? [a, b, c, d] = some x ↔ Numbers [a, b, c, d] x := by
  have hdigits : character? [a, b, c, d] =
      (hexValue? [a, b, c, d]).bind fun n => if n.isValidChar then some (Char.ofNat n) else none := by
    unfold character?
    split
    · rename_i h
      cases h
      exact absurd rfl ha
    · rfl
  rw [hdigits, Option.bind_eq_some_iff]
  constructor
  · rintro ⟨n, hn, hx⟩
    obtain ⟨i, j, k, l, ⟨hi, hj, hk, hl⟩, rfl⟩ := hexValue?_eq_some_iff.1 hn
    split at hx
    · rename_i hvalid
      cases hx
      refine .intro hi hj hk hl ?_
      unfold Char.ofNat
      rw [dif_pos hvalid]
      rfl
    · cases hx
  · rintro ⟨hi, hj, hk, hl, hx⟩
    refine ⟨_, hexValue?_eq_some_iff.2 ⟨_, _, _, _, ⟨hi, hj, hk, hl⟩, rfl⟩, ?_⟩
    have hvalid : x.toNat.isValidChar := x.valid
    rw [← hx, if_pos hvalid, Char.ofNat_toNat]

/-! ### Pieces -/

/-- How one character is written: by itself, by an escape of a control character, by its number, or behind a backslash. -/
inductive Piece : List Char → Char → Prop where
  | plain {c : Char} : c ≠ '\\' → Piece [c] c
  | control {c x : Char} : (c, x) ∈ [('n', '\n'), ('t', '\t'), ('r', '\r')] → Piece ['\\', c] x
  | number {a b c d x : Char} : Numbers [a, b, c, d] x → Piece ['\\', 'u', a, b, c, d] x
  | other {c : Char} : c ∉ ['n', 't', 'r', 'u'] → Piece ['\\', c] c

/-- The characters that an inside stands for, piece by piece. -/
inductive Resolved : List Char → List Char → Prop where
  | nil : Resolved [] []
  | cons {piece raw cs : List Char} {x : Char} : Piece piece x → Resolved raw cs → Resolved (piece ++ raw) (x :: cs)

/-- Four digits that are the number of a character come first. -/
def StartsWithNumber (cs : List Char) : Prop := ∃ digits rest x, cs = digits ++ rest ∧ Numbers digits x

/-- Behind each `\u` of an inside stands what `P` says.  What comes before a `\u` is an inside itself, so that its backslash
does not belong to another escape. -/
def BehindEach (close : Char) (P : List Char → Prop) (raw : List Char) : Prop :=
  ∀ before rest, Body close before → raw = before ++ '\\' :: 'u' :: rest → P rest

/-- Each `\u` of an inside has a number behind it. -/
def AllNumbered (close : Char) : List Char → Prop := BehindEach close StartsWithNumber

/-- A plus sign and three hexadecimal digits come first. -/
def StartsWithSigned (cs : List Char) : Prop :=
  ∃ digits rest, cs = '+' :: (digits ++ rest) ∧ digits.length = 3 ∧ ∀ c ∈ digits, ∃ v, HexDigit c v

/-- No `\u` of an inside has a plus sign and three digits behind it. -/
def Unsigned (close : Char) : List Char → Prop := BehindEach close fun rest => ¬ StartsWithSigned rest

variable {close : Char} {piece before : List Char}

/-- A piece stands for its character. -/
theorem Piece.decode_append (h : Piece piece x) (raw : List Char) :
    decode (piece ++ raw) = (decode raw).map (x :: ·) := by
  cases h with
  | plain hc => exact decode_plain hc
  | control hc =>
    simp only [List.mem_cons, Prod.mk.injEq, List.not_mem_nil, or_false] at hc
    rcases hc with ⟨rfl, rfl⟩ | ⟨rfl, rfl⟩ | ⟨rfl, rfl⟩ <;> rfl
  | other hc => exact decode_escaped hc
  | @number a b c d x hx =>
    have ha : a ≠ '+' := by
      cases hx with
      | intro ha => exact ne_plus_of_hexDigit ha
    simp only [List.cons_append, List.nil_append, decode, (character?_eq_some_iff ha).2 hx]

theorem decode_of_resolved (h : Resolved raw cs) : decode raw = .ok cs := by
  induction h with
  | nil => rfl
  | cons hpiece _ ih =>
    rw [hpiece.decode_append, ih]
    rfl

/-- Without its digits a `\u` is a bad number, which takes the next four characters or all that are left. -/
theorem decode_unnumbered (hsign : ¬ StartsWithSigned rest) (h : ¬ StartsWithNumber rest) :
    decode ('\\' :: 'u' :: rest) = .error (.badUnicode (String.ofList (rest.take 4))) := by
  rcases rest with _ | ⟨a, _ | ⟨b, _ | ⟨c, _ | ⟨d, rest⟩⟩⟩⟩
  · rfl
  · rfl
  · rfl
  · rfl
  · have hnone : character? [a, b, c, d] = none := by
      refine Option.eq_none_iff_forall_ne_some.2 fun x hx => ?_
      by_cases ha : a = '+'
      · subst ha
        obtain ⟨digits, rfl | hsigned, hdigits⟩ := digits_of_character? hx
        · obtain ⟨v, hv⟩ := hdigits '+' (List.mem_cons_self ..)
          exact ne_plus_of_hexDigit hv rfl
        · obtain ⟨-, rfl⟩ := List.cons.inj hsigned
          exact hsign ⟨_, rest, rfl, rfl, hdigits⟩
      · exact h ⟨_, rest, x, rfl, (character?_eq_some_iff ha).1 hx⟩
    simp only [decode, hnone, List.take]

/-! ### Characters that are no backslash -/

/-- What names a character has no backslash in it, be it with a plus sign or without. -/
theorem not_mem_of_character? (h : character? cs = some x) : '\\' ∉ cs := by
  have hnone : ∀ v, ¬ HexDigit '\\' v := fun v hv => absurd (hexDigit?_eq_some_iff.2 hv) (by simp [hexDigit?])
  obtain ⟨digits, hcs, hdigits⟩ := digits_of_character? h
  have hnot : '\\' ∉ digits := by
    intro hmem
    obtain ⟨v, hv⟩ := hdigits _ hmem
    exact hnone v hv
  rcases hcs with rfl | rfl
  · exact hnot
  · simpa using hnot

theorem Numbers.not_mem (h : Numbers ds x) : '\\' ∉ ds := by
  cases h with
  | intro ha hb hc hd hx =>
    exact not_mem_of_character? ((character?_eq_some_iff (ne_plus_of_hexDigit ha)).2 (.intro ha hb hc hd hx))

theorem body_cons (h : Body close (c :: cs)) (hc : c ≠ '\\') : c ≠ close ∧ Body close cs := by
  cases h with
  | plain hclose _ hcs => exact ⟨hclose, hcs⟩
  | escaped => exact absurd rfl hc

theorem body_escaped (h : Body close ('\\' :: c :: cs)) : Body close cs := by
  cases h with
  | plain _ hback => exact absurd rfl hback
  | escaped hcs => exact hcs

/-- Characters that are no backslash may be taken off an inside, and put before another one. -/
theorem body_append (h : Body close (ds ++ cs)) (hds : '\\' ∉ ds) :
    Body close cs ∧ ∀ before, Body close before → Body close (ds ++ before) := by
  induction ds with
  | nil => exact ⟨h, fun _ hbefore => hbefore⟩
  | cons d ds ih =>
    rw [List.mem_cons, not_or] at hds
    obtain ⟨hclose, hrest⟩ := body_cons h (Ne.symm hds.1)
    obtain ⟨hcs, hput⟩ := ih hrest hds.2
    exact ⟨hcs, fun before hbefore => .plain hclose (Ne.symm hds.1) (hput before hbefore)⟩

/-- A backslash behind characters that are none stands behind all of them. -/
theorem split_append (h : ds ++ cs = before ++ '\\' :: rest) (hds : '\\' ∉ ds) (hbefore : Body close before) :
    ∃ between, before = ds ++ between ∧ Body close between ∧ cs = between ++ '\\' :: rest := by
  induction ds generalizing before with
  | nil => exact ⟨before, rfl, hbefore, h⟩
  | cons d ds ih =>
    rw [List.mem_cons, not_or] at hds
    cases before with
    | nil => exact absurd (List.cons.inj h).1 (Ne.symm hds.1)
    | cons b before =>
      obtain ⟨rfl, htail⟩ := List.cons.inj h
      obtain ⟨between, rfl, hbetween, hcs⟩ := ih htail hds.2 (body_cons hbefore (Ne.symm hds.1)).2
      exact ⟨between, rfl, hbetween, hcs⟩

/-- A `\u` behind an escape begins with it or stands behind all of it. -/
theorem split_escaped (h : '\\' :: c :: cs = before ++ '\\' :: 'u' :: rest) (hbefore : Body close before) :
    (before = [] ∧ c = 'u' ∧ cs = rest) ∨
      ∃ between, before = '\\' :: c :: between ∧ Body close between ∧ cs = between ++ '\\' :: 'u' :: rest := by
  cases hbefore with
  | nil =>
    obtain ⟨-, hc⟩ := List.cons.inj h
    exact Or.inl ⟨rfl, List.cons.inj hc⟩
  | plain _ hback => exact absurd (List.cons.inj h).1.symm hback
  | escaped hbetween =>
    obtain ⟨-, hc⟩ := List.cons.inj h
    obtain ⟨rfl, hcs⟩ := List.cons.inj hc
    exact Or.inr ⟨_, rfl, hbetween, hcs⟩

/-! ### An inside, piece by piece -/

theorem Piece.body_append (h : Piece piece x) (hbody : Body close (piece ++ raw)) :
    Body close raw ∧ ∀ before, Body close before → Body close (piece ++ before) := by
  cases h with
  | plain hc => exact Escape.body_append hbody (by simpa using Ne.symm hc)
  | control => exact ⟨body_escaped hbody, fun _ hbefore => .escaped hbefore⟩
  | other => exact ⟨body_escaped hbody, fun _ hbefore => .escaped hbefore⟩
  | number hx =>
    obtain ⟨hraw, hput⟩ := Escape.body_append (body_escaped hbody) hx.not_mem
    exact ⟨hraw, fun before hbefore => .escaped (hput before hbefore)⟩

/-- A `\u` in an inside is its first piece or stands behind it. -/
theorem Piece.split (h : Piece piece x) (hsplit : piece ++ raw = before ++ '\\' :: 'u' :: rest)
    (hbefore : Body close before) : StartsWithNumber rest ∨
      ∃ between, before = piece ++ between ∧ Body close between ∧ raw = between ++ '\\' :: 'u' :: rest := by
  cases h with
  | plain hc => exact Or.inr (split_append hsplit (by simpa using Ne.symm hc) hbefore)
  | control hc =>
    rcases split_escaped hsplit hbefore with ⟨-, rfl, -⟩ | hbehind
    · simp at hc
    · exact Or.inr hbehind
  | other hc =>
    rcases split_escaped hsplit hbefore with ⟨-, rfl, -⟩ | hbehind
    · simp at hc
    · exact Or.inr hbehind
  | number hx =>
    rcases split_escaped hsplit hbefore with ⟨-, -, hrest⟩ | ⟨between, rfl, hbetween, hraw⟩
    · exact Or.inl ⟨_, raw, _, hrest.symm, hx⟩
    · obtain ⟨between, rfl, hbetween, hraw⟩ := split_append hraw hx.not_mem hbetween
      exact Or.inr ⟨between, rfl, hbetween, hraw⟩

/-- An inside is empty, or begins with a piece, or begins with a `\u` that has no number. -/
theorem body_cases (h : Body close raw) : raw = [] ∨ (∃ piece rest x, raw = piece ++ rest ∧ Piece piece x) ∨
    ∃ rest, raw = '\\' :: 'u' :: rest ∧ ¬ StartsWithNumber rest := by
  cases h with
  | nil => exact Or.inl rfl
  | @plain c raw _ hback => exact Or.inr (Or.inl ⟨[c], raw, c, rfl, .plain hback⟩)
  | @escaped c raw =>
    by_cases hother : c ∈ ['n', 't', 'r', 'u']
    · simp only [List.mem_cons, List.not_mem_nil, or_false] at hother
      rcases hother with rfl | rfl | rfl | rfl
      · exact Or.inr (Or.inl ⟨_, raw, '\n', rfl, .control (by simp)⟩)
      · exact Or.inr (Or.inl ⟨_, raw, '\t', rfl, .control (by simp)⟩)
      · exact Or.inr (Or.inl ⟨_, raw, '\r', rfl, .control (by simp)⟩)
      · by_cases hnumber : StartsWithNumber raw
        · obtain ⟨digits, rest, x, rfl, hx⟩ := hnumber
          have hpiece : Piece ('\\' :: 'u' :: digits) x := by
            cases hx with
            | intro ha hb hc hd hx => exact .number (.intro ha hb hc hd hx)
          exact Or.inr (Or.inl ⟨_, rest, x, rfl, hpiece⟩)
        · exact Or.inr (Or.inr ⟨raw, rfl, hnumber⟩)
    · exact Or.inr (Or.inl ⟨_, raw, c, rfl, .other hother⟩)

theorem Piece.length_pos (h : Piece piece x) : 0 < piece.length := by
  cases h <;> simp

/-- Induction over the pieces of an inside, up to the first `\u` without a number. -/
theorem body_induction {motive : (raw : List Char) → Body close raw → Prop} (nil : motive [] .nil)
    (piece : ∀ {piece raw x} (_ : Piece piece x) (hbody : Body close (piece ++ raw)) (hraw : Body close raw),
      motive raw hraw → motive (piece ++ raw) hbody)
    (unnumbered : ∀ rest (hbody : Body close ('\\' :: 'u' :: rest)), ¬ StartsWithNumber rest →
      motive ('\\' :: 'u' :: rest) hbody) {raw : List Char} (h : Body close raw) : motive raw h := by
  induction hlength : raw.length using Nat.strong_induction_on generalizing raw with
  | _ n ih =>
    rcases body_cases h with rfl | ⟨p, rest, x, rfl, hpiece⟩ | ⟨rest, rfl, hrest⟩
    · exact nil
    · refine piece hpiece h (hpiece.body_append h).1 (ih rest.length ?_ (hpiece.body_append h).1 rfl)
      rw [← hlength, List.length_append]
      have := hpiece.length_pos
      omega
    · exact unnumbered rest h hrest

theorem BehindEach.behind {P : List Char → Prop} (hraw : BehindEach close P (piece ++ raw)) (h : Piece piece x)
    (hbody : Body close (piece ++ raw)) : BehindEach close P raw := by
  intro before rest hbefore hsplit
  exact hraw (piece ++ before) rest ((h.body_append hbody).2 before hbefore) (by rw [hsplit, List.append_assoc])

theorem resolved_of_decode (h : Body close raw) (hsign : Unsigned close raw) (hdecode : decode raw = .ok cs) :
    Resolved raw cs := by
  induction h using body_induction generalizing cs with
  | nil =>
    cases hdecode
    exact .nil
  | @piece piece raw x hpiece hbody _ ih =>
    rw [hpiece.decode_append] at hdecode
    cases hrest : decode raw with
    | error bad =>
      rw [hrest] at hdecode
      cases hdecode
    | ok ds =>
      rw [hrest] at hdecode
      cases hdecode
      exact .cons hpiece (ih (hsign.behind hpiece hbody) hrest)
  | unnumbered rest _ hrest =>
    rw [decode_unnumbered (hsign [] rest .nil rfl) hrest] at hdecode
    cases hdecode

/-- An inside stands for characters exactly if each `\u` in it has a number. -/
theorem exists_resolved_iff (h : Body close raw) : (∃ cs, Resolved raw cs) ↔ AllNumbered close raw := by
  constructor
  · rintro ⟨cs, hcs⟩
    induction hcs with
    | nil =>
      intro before rest _ hsplit
      simp at hsplit
    | cons hpiece _ ih =>
      intro before rest hbefore hsplit
      rcases hpiece.split hsplit hbefore with hnumber | ⟨between, -, hbetween, hraw⟩
      · exact hnumber
      · exact ih (hpiece.body_append h).1 between rest hbetween hraw
  · intro hall
    induction h using body_induction with
    | nil => exact ⟨[], .nil⟩
    | piece hpiece hbody _ ih =>
      obtain ⟨cs, hcs⟩ := ih (hall.behind hpiece hbody)
      exact ⟨_, .cons hpiece hcs⟩
    | unnumbered rest _ hrest => exact absurd (hall [] rest .nil rfl) hrest

/-- The only fault of an inside is a bad number. -/
theorem number_of_decode_error {bad : Malformed} (h : Body close raw) (hdecode : decode raw = .error bad) :
    ∃ taken, bad = .badUnicode taken := by
  have hmap : ∀ {x rest}, (decode rest).map (x :: ·) = .error bad → decode rest = .error bad := by
    intro x rest hrest
    cases hd : decode rest with
    | error b =>
      rw [hd] at hrest
      cases hrest
      rfl
    | ok ds =>
      rw [hd] at hrest
      cases hrest
  fun_induction decode raw with
  | case1 => cases hdecode
  | case2 rest ih => exact ih (body_escaped h) (hmap hdecode)
  | case3 rest ih => exact ih (body_escaped h) (hmap hdecode)
  | case4 rest ih => exact ih (body_escaped h) (hmap hdecode)
  | case5 a b c d rest x hx ih =>
    have hrest : Body close ([a, b, c, d] ++ rest) := body_escaped h
    exact ih (Escape.body_append hrest (not_mem_of_character? hx)).1 (hmap hdecode)
  | case6 =>
    cases hdecode
    exact ⟨_, rfl⟩
  | case7 =>
    cases hdecode
    exact ⟨_, rfl⟩
  | case8 c rest _ _ _ _ _ ih => exact ih (body_escaped h) (hmap hdecode)
  | case9 =>
    cases h with
    | plain _ hback => exact absurd rfl hback
  | case10 c rest _ _ _ _ _ hpair hend ih =>
    have hc : c ≠ '\\' := by
      rintro rfl
      cases rest with
      | nil => exact hend rfl rfl
      | cons d ds => exact hpair d ds rfl rfl
    exact ih (body_cons h hc).2 (hmap hdecode)

end Rowwise.Escape
