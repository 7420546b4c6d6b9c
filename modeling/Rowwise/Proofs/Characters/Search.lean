import Mathlib.Data.List.Infix
import Rowwise.Text.Search

/-!
# Rowwise.Proofs.Characters.Search — searching characters and searching bytes

`Text.indexOf?` gives the least position of an occurrence (`Text.indexOf?_eq_some_iff`).  A text is kept as its bytes in UTF-8,
and a search may as well go over them: of the bytes of a character only the first can begin one, so the bytes of a text occur
between characters only (`Text.exists_front`).  The position is therefore the number of characters in front of the first
occurrence over bytes (`Text.indexOf?_eq_some_iff_bytes`).
-/

namespace Rowwise.Text

/-- `p` occurs in `cs` behind `i` elements, and behind no fewer. -/
def FirstAt {α : Type} (p cs : List α) (i : Nat) : Prop := p <+: cs.drop i ∧ ∀ j < i, ¬ p <+: cs.drop j

variable {p cs : List Char} {i : Nat}

/-! ### Characters -/

theorem startsWith_iff : startsWith p cs = true ↔ p <+: cs := by
  simp only [startsWith, Option.isSome_iff_exists, dropPrefix?_eq_some_iff]
  exact exists_congr fun rest => eq_comm

theorem endsWith_iff : endsWith p cs = true ↔ p <:+ cs := by
  rw [endsWith, startsWith_iff, List.reverse_prefix]

theorem indexOf?_eq_some_iff : indexOf? p cs = some i ↔ FirstAt p cs i := by
  induction cs generalizing i with
  | nil =>
    rw [indexOf?]
    cases p with
    | nil =>
      cases i with
      | zero => simp [FirstAt]
      | succ i => exact iff_of_false (by simp) fun h => h.2 0 (Nat.succ_pos i) List.nil_prefix
    | cons c p => simp [FirstAt]
  | cons c cs ih =>
    rw [indexOf?]
    by_cases hstart : startsWith p (c :: cs) = true
    · rw [if_pos hstart, Option.some_inj]
      rw [startsWith_iff] at hstart
      cases i with
      | zero => simpa [FirstAt] using hstart
      | succ i => exact iff_of_false (Nat.succ_ne_zero i).symm fun h => h.2 0 (Nat.succ_pos i) hstart
    · rw [if_neg hstart]
      rw [startsWith_iff] at hstart
      cases i with
      | zero => simpa [FirstAt] using hstart
      | succ i =>
        rw [Option.map_eq_some_iff]
        simp only [Nat.add_left_inj, exists_eq_right, ih]
        refine and_congr_right fun _ => ⟨fun h j hj => ?_, fun h j hj => h (j + 1) (Nat.succ_lt_succ hj)⟩
        cases j with
        | zero => exact hstart
        | succ j => exact h j (Nat.lt_of_succ_lt_succ hj)

theorem indexOf?_eq_none_iff : indexOf? p cs = none ↔ ∀ i, ¬ p <+: cs.drop i := by
  rw [← Option.not_isSome_iff_eq_none, ← occursIn, occursIn_iff, List.infix_iff_prefix_suffix]
  constructor
  · exact fun h i hi => h ⟨cs.drop i, hi, List.drop_suffix i cs⟩
  · rintro h ⟨t, ht, front, rfl⟩
    exact h front.length (by rwa [List.drop_left])

theorem FirstAt.add_length_le (h : FirstAt p cs i) : i + p.length ≤ cs.length := by
  have hlength : p.length ≤ cs.length - i := by simpa using h.1.length_le
  by_contra hbeyond
  -- beyond the end only the empty text occurs, and it occurs at the start too
  have hempty : p = [] := List.length_eq_zero_iff.1 (by omega)
  exact h.2 0 (by omega) (hempty ▸ List.nil_prefix)

/-! ### Bytes -/

/-- The bytes of a text in UTF-8. -/
def bytes (cs : List Char) : List UInt8 := cs.flatMap String.utf8EncodeChar

theorem bytes_toList (s : String) : bytes s.toList = s.toByteArray.data.toList := by
  rw [← String.utf8Encode_toList, List.utf8Encode, List.toList_data_toByteArray]
  rfl

theorem length_bytes (cs : List Char) : (bytes cs).length = (String.ofList cs).utf8ByteSize := by
  rw [← String.toList_ofList (l := cs), bytes_toList, String.ofList_toList]
  rfl

theorem bytes_append (cs ds : List Char) : bytes (cs ++ ds) = bytes cs ++ bytes ds := List.flatMap_append

theorem bytes_eq_nil_iff : bytes cs = [] ↔ cs = [] := by
  cases cs <;> simp [bytes, String.utf8EncodeChar_ne_nil]

theorem length_bytes_take_lt {j : Nat} (hij : i < j) (hj : j ≤ cs.length) :
    (bytes (cs.take i)).length < (bytes (cs.take j)).length := by
  obtain ⟨c, rest, hmore⟩ := List.exists_cons_of_ne_nil (show (cs.drop i).take (j - i) ≠ [] by
    rw [Ne, List.take_eq_nil_iff, List.drop_eq_nil_iff]
    omega)
  have hsplit : cs.take j = cs.take i ++ c :: rest := by
    rw [← hmore, ← List.take_add, Nat.add_sub_cancel' (Nat.le_of_lt hij)]
  have hpos : 0 < (bytes (c :: rest)).length := List.length_pos_of_ne_nil fun hnil => nomatch bytes_eq_nil_iff.1 hnil
  rw [hsplit, bytes_append, List.length_append]
  exact Nat.lt_add_of_pos_right hpos

theorem lt_of_length_bytes_take_lt {j : Nat} (hi : i ≤ cs.length)
    (h : (bytes (cs.take i)).length < (bytes (cs.take j)).length) : i < j := by
  refine Nat.lt_of_not_le fun hle => ?_
  rcases Nat.lt_or_eq_of_le hle with hlt | rfl
  · exact Nat.lt_asymm h (length_bytes_take_lt hlt hi)
  · exact Nat.lt_irrefl _ h

/-- Bytes are read in one way. -/
theorem isPrefix_of_bytes {back : List UInt8} (h : bytes cs = bytes p ++ back) : p <+: cs := by
  refine List.isPrefix_of_utf8Encode_append_eq_utf8Encode back.toByteArray ?_
  rw [List.utf8Encode, List.utf8Encode, ← List.toByteArray_append]
  exact congrArg List.toByteArray h.symm

/-- Of the bytes of a character only the first can begin one. -/
theorem eq_nil_of_first {c d : Char} {front rest rest' : List UInt8} {b : UInt8}
    (hc : String.utf8EncodeChar c = front ++ b :: rest) (hd : String.utf8EncodeChar d = b :: rest') : front = [] := by
  have hlength : front.length < (String.utf8EncodeChar c).length := by simp [hc]
  have hsame : (String.utf8EncodeChar c)[front.length] = b := by simp [hc]
  have hfirst : b.IsUTF8FirstByte := by
    have hzero := UInt8.isUTF8FirstByte_getElem_zero_utf8EncodeChar (c := d)
    simpa [hd] using hzero
  exact List.length_eq_zero_iff.1 (UInt8.isUTF8FirstByte_getElem_utf8EncodeChar.1 (hsame ▸ hfirst))

/-- The bytes of a text occur between the characters of another, where these characters stand. -/
theorem exists_front {front back : List UInt8} (hp : p ≠ []) (h : bytes cs = front ++ (bytes p ++ back)) :
    ∃ ds, front = bytes ds ∧ ds ++ p <+: cs := by
  obtain ⟨d, ps, rfl⟩ := List.exists_cons_of_ne_nil hp
  obtain ⟨b, rest', hd⟩ := List.exists_cons_of_ne_nil (String.utf8EncodeChar_ne_nil (c := d))
  have hbytes : bytes (d :: ps) ++ back = b :: (rest' ++ bytes ps ++ back) := by
    rw [bytes, List.flatMap_cons, hd]
    rfl
  induction cs generalizing front with
  | nil => simp [bytes, hd] at h
  | cons c cs ih =>
    -- the occurrence begins behind the bytes of the first character, or with one of them
    have hcs : String.utf8EncodeChar c ++ bytes cs = front ++ (bytes (d :: ps) ++ back) := h
    rcases List.append_eq_append_iff.1 hcs with ⟨front', rfl, hfront⟩ | ⟨rest, hc, hrest⟩
    · obtain ⟨ds, rfl, hprefix⟩ := ih hfront
      exact ⟨c :: ds, rfl, List.cons_prefix_cons.2 ⟨rfl, hprefix⟩⟩
    · cases rest with
      | nil =>
        rw [List.append_nil] at hc
        obtain ⟨ds, hds, hprefix⟩ := ih (show bytes cs = [] ++ (bytes (d :: ps) ++ back) from hrest.symm)
        rw [List.nil_eq, bytes_eq_nil_iff] at hds
        refine ⟨[c], ?_, List.cons_prefix_cons.2 ⟨rfl, ?_⟩⟩
        · simp [bytes, hc]
        · simpa [hds] using hprefix
      | cons b' rest =>
        rw [hbytes, List.cons_append, List.cons.injEq] at hrest
        obtain ⟨rfl, -⟩ := hrest
        obtain rfl := eq_nil_of_first hc hd
        exact ⟨[], rfl, isPrefix_of_bytes h⟩

/-- Where the bytes of a text occur, so do its characters. -/
theorem exists_position {b : Nat} (hp : p ≠ []) (h : bytes p <+: (bytes cs).drop b) :
    ∃ i ≤ cs.length, p <+: cs.drop i ∧ (bytes (cs.take i)).length = b := by
  obtain ⟨back, hback⟩ := h
  obtain ⟨ds, hds, rest, rfl⟩ := exists_front hp (show bytes cs = (bytes cs).take b ++ (bytes p ++ back) by
    rw [hback, List.take_append_drop])
  have hmore : (bytes (ds ++ p ++ rest)).drop b ≠ [] :=
    hback ▸ List.append_ne_nil_of_left_ne_nil (fun hnil => hp (bytes_eq_nil_iff.1 hnil)) back
  have hless : b < (bytes (ds ++ p ++ rest)).length := Nat.lt_of_not_le fun hle => hmore (List.drop_eq_nil_of_le hle)
  rw [List.append_assoc] at hds hless ⊢
  refine ⟨ds.length, by simp, ⟨rest, by rw [List.drop_left]⟩, ?_⟩
  rw [List.take_left, ← hds, List.length_take, Nat.min_eq_left (Nat.le_of_lt hless)]

/-- Where the characters of a text occur, so do its bytes. -/
theorem bytes_prefix_drop (h : p <+: cs.drop i) : bytes p <+: (bytes cs).drop (bytes (cs.take i)).length := by
  obtain ⟨rest, hrest⟩ := h
  have hcs : bytes cs = bytes (cs.take i) ++ (bytes p ++ bytes rest) := by
    rw [← bytes_append, ← bytes_append, hrest, List.take_append_drop]
  exact ⟨bytes rest, by rw [hcs, List.drop_left]⟩

/-- The position counts the characters in front of the first occurrence over bytes. -/
theorem indexOf?_eq_some_iff_bytes : indexOf? p cs = some i ↔
    ∃ b, FirstAt (bytes p) (bytes cs) b ∧ i ≤ cs.length ∧ (bytes (cs.take i)).length = b := by
  rw [indexOf?_eq_some_iff]
  constructor
  · intro h
    have hi : i ≤ cs.length := Nat.le_trans (Nat.le_add_right ..) h.add_length_le
    refine ⟨_, ⟨bytes_prefix_drop h.1, fun b hb hfound => ?_⟩, hi, rfl⟩
    by_cases hp : p = []
    · have hpos : 0 < i := Nat.pos_of_ne_zero fun hzero => by simp [hzero, bytes] at hb
      exact h.2 0 hpos (hp ▸ List.nil_prefix)
    obtain ⟨j, hj, hfound', hlength⟩ := exists_position hp hfound
    exact h.2 j (lt_of_length_bytes_take_lt hj (hlength ▸ hb)) hfound'
  · rintro ⟨b, ⟨hfound, hleast⟩, hi, rfl⟩
    refine ⟨?_, fun j hj hfound' => hleast _ (length_bytes_take_lt hj hi) (bytes_prefix_drop hfound')⟩
    by_cases hp : p = []
    · exact hp ▸ List.nil_prefix
    obtain ⟨j, hj, hfound', hlength⟩ := exists_position hp hfound
    -- two numbers of characters with the same number of bytes are one
    have hij : j = i := by
      rcases Nat.lt_trichotomy j i with hlt | heq | hgt
      · exact absurd hlength (Nat.ne_of_lt (length_bytes_take_lt hlt hi))
      · exact heq
      · exact absurd hlength (Nat.ne_of_gt (length_bytes_take_lt hgt hj))
    exact hij ▸ hfound'

/-- So a text may as well be searched as it is kept. -/
theorem indexOf?_eq_some_iff_kept {s t : String} : indexOf? t.toList s.toList = some i ↔
    ∃ b, FirstAt t.toByteArray.data.toList s.toByteArray.data.toList b ∧ i ≤ s.length ∧
      (String.ofList (s.toList.take i)).utf8ByteSize = b := by
  simp only [indexOf?_eq_some_iff_bytes, bytes_toList, length_bytes, String.length_toList]

end Rowwise.Text
