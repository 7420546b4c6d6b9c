import Rowwise.Proofs.Parsing.Completeness

/-!
# Rowwise.Proofs.Parsing.Quoting — every text and every column name can be written

A text is written between quotes, and a column name between brackets, with a backslash before each backslash and each
closing mark inside (`quoted`).  The escapes are read three times: the scan of nesting has to find the closing mark
(`scan_body`), the grammar has to take the same characters as the inside (`body_encode`), and these have to stand for the
text that was written (`decode_encode`).  A quoted text is read back at every limit that admits a tree at all
(`Expr.parse_quoted`).
-/

namespace Rowwise

open Spelling (Body Word)

/-! ### Escapes -/

namespace Escape

/-- The characters with a backslash before each backslash and each closing mark. -/
def encode (close : Char) (cs : List Char) : List Char :=
  cs.flatMap fun c => if c = '\\' ∨ c = close then ['\\', c] else [c]

variable {close c : Char} {cs : List Char}

theorem encode_cons : encode close (c :: cs) =
    if c = '\\' ∨ c = close then '\\' :: c :: encode close cs else c :: encode close cs := by
  simp only [encode, List.flatMap_cons]
  split <;> rfl

theorem encode_eq_nil : encode close cs = [] ↔ cs = [] := by
  cases cs with
  | nil => simp [encode]
  | cons c cs =>
    rw [encode_cons]
    split <;> simp

/-- A backslash before a character that names no escape stands for the character. -/
theorem decode_escaped (h : c ∉ ['n', 't', 'r', 'u']) : decode ('\\' :: c :: cs) = (decode cs).map (c :: ·) := by
  simp only [List.mem_cons, List.not_mem_nil, or_false, not_or] at h
  obtain ⟨hn, ht, hr, hu⟩ := h
  rw [decode]
  all_goals grind

theorem decode_plain (h : c ≠ '\\') : decode (c :: cs) = (decode cs).map (c :: ·) := by
  rw [decode]
  all_goals grind

/-- Resolving the escapes of an encoded text gives the text, whatever it holds. -/
theorem decode_encode (hclose : close ∉ ['n', 't', 'r', 'u']) (cs : List Char) : decode (encode close cs) = .ok cs := by
  induction cs with
  | nil => rfl
  | cons c cs ih =>
    rw [encode_cons]
    by_cases hmark : c = '\\' ∨ c = close
    · have hplain : c ∉ ['n', 't', 'r', 'u'] := by
        obtain rfl | rfl := hmark
        · decide
        · exact hclose
      rw [if_pos hmark, decode_escaped hplain, ih]
      rfl
    · have hback : c ≠ '\\' := fun h => hmark (Or.inl h)
      rw [if_neg hmark, decode_plain hback, ih]
      rfl

/-- An encoded text has no closing mark of its own. -/
theorem body_encode (close : Char) (cs : List Char) : Body close (encode close cs) := by
  induction cs with
  | nil => exact .nil
  | cons c cs ih =>
    rw [encode_cons]
    by_cases hmark : c = '\\' ∨ c = close
    · rw [if_pos hmark]
      exact .escaped ih
    · rw [if_neg hmark]
      exact .plain (fun h => hmark (Or.inr h)) (fun h => hmark (Or.inl h)) ih

end Escape

/-! ### The scan of a quoted text -/

namespace Nesting

/-- From the inside of a quoted text the scan goes on behind its closing mark, whatever stands inside. -/
theorem scan_body {limit : Nat} {close : Char} (hclose : close ≠ '\\') {raw : List Char} (h : Body close raw)
    (offset : Nat) (s : State) (rest : List Char) : scan limit offset (.quoted close) s (raw ++ close :: rest) =
      scan limit (offset + raw.length + 1) .code (s.past close) rest := by
  induction h generalizing offset with
  | nil => simp [scan, hclose, State.past]
  | @plain c raw hc hback _ ih =>
    simp only [List.cons_append, scan, if_neg hback, if_neg hc, List.length_cons]
    rw [ih, show offset + 1 + raw.length = offset + (raw.length + 1) by omega]
  | @escaped c raw _ ih =>
    simp only [List.cons_append, scan, if_true, List.length_cons]
    rw [ih, show offset + 1 + 1 + raw.length = offset + (raw.length + 1 + 1) by omega]

/-- A text or a bracketed name alone nests within every limit. -/
theorem tooDeepAt?_quoted {opening close : Char} (ho : opening = '"' ∧ close = '"' ∨ opening = '[' ∧ close = ']')
    {raw : List Char} (h : Body close raw) (limit : Nat) :
    tooDeepAt? limit (opening :: (raw ++ [close])) = none := by
  have hopening : ∀ next, State.code? limit {} opening next = some (State.past {} opening, .quoted close) := by
    intro next
    obtain ⟨rfl, rfl⟩ | ⟨rfl, rfl⟩ := ho <;> rfl
  have hclose : close ≠ '\\' := by
    obtain ⟨rfl, rfl⟩ | ⟨rfl, rfl⟩ := ho <;> decide
  unfold tooDeepAt?
  simp only [scan, hopening]
  exact scan_body hclose h _ _ []

end Nesting

/-! ### Quoted texts -/

namespace Expr

/-- A text between an opening and a closing mark, with a backslash before each backslash and each closing mark inside. -/
def quoted (opening close : Char) (s : String) : String :=
  String.ofList (opening :: (Escape.encode close s.toList ++ [close]))

theorem toList_quoted (opening close : Char) (s : String) :
    (quoted opening close s).toList = opening :: (Escape.encode close s.toList ++ [close]) := by
  rw [quoted, String.toList_ofList]

/-- A quoted text that is a word is read as this word within every limit but zero. -/
theorem parse_quoted_word {opening close : Char} (ho : opening = '"' ∧ close = '"' ∨ opening = '[' ∧ close = ']')
    {s : String} {e : Expr} (hdepth : e.depth = 1) (hword : Word (quoted opening close s).toList e) (limit : Nat) :
    parse limit (quoted opening close s) = .ok e ↔ 1 ≤ limit := by
  have hscan : Nesting.tooDeepAt? limit (quoted opening close s).toList = none := by
    rw [toList_quoted]
    exact Nesting.tooDeepAt?_quoted ho (Escape.body_encode close s.toList) limit
  have hderives : Stratum.whole.Derives (quoted opening close s).toList e := (Stratum.Derives.word hword).whole_of_primary
  rw [parse_eq_ok_iff, hdepth]
  exact ⟨fun h => h.2.1, fun h => ⟨hscan, h, hderives⟩⟩

/-- Every text is read back from between quotes, and every name of a column from between brackets, within every limit but
zero; only the empty name has no brackets. -/
theorem parse_quoted (limit : Nat) (s : String) :
    (parse limit (quoted '"' '"' s) = .ok (.text s) ↔ 1 ≤ limit) ∧
      (parse limit (quoted '[' ']' s) = .ok (.column s) ↔ 1 ≤ limit ∧ s ≠ "") := by
  have hdepth : depth (.text s) = 1 ∧ depth (.column s) = 1 := by simp [depth_eq_height, height]
  have hdecode : ∀ close ∈ ['"', ']'], Escape.decode (Escape.encode close s.toList) = .ok s.toList := by
    intro close hclose
    refine Escape.decode_encode ?_ _
    simp only [List.mem_cons, List.not_mem_nil, or_false] at hclose
    obtain rfl | rfl := hclose <;> decide
  constructor
  · refine parse_quoted_word (Or.inl ⟨rfl, rfl⟩) hdepth.1 ?_ limit
    have hword := Word.text (Escape.body_encode '"' s.toList) (hdecode '"' (by simp))
    rwa [String.ofList_toList, ← toList_quoted] at hword
  · by_cases hs : s = ""
    · -- the grammar wants a character between the brackets
      subst hs
      have hrefused : (read (quoted '[' ']' "").toList).toOption.isSome = false := by
        rw [toList_quoted]
        decide +kernel
      have hne : parse limit (quoted '[' ']' "") ≠ .ok (.column "") := by
        intro h
        have hread := read_eq_ok_iff.mpr ((parse_eq_ok_iff _ _ _).mp h).2.2
        rw [hread] at hrefused
        cases hrefused
      simp [hne]
    · have hraw : Escape.encode ']' s.toList ≠ [] := by
        rwa [Ne, Escape.encode_eq_nil, String.toList_eq_nil_iff]
      have hword := Word.column hraw (Escape.body_encode ']' s.toList) (hdecode ']' (by simp))
      rw [String.ofList_toList, ← toList_quoted] at hword
      rw [parse_quoted_word (Or.inr ⟨rfl, rfl⟩) hdepth.2 hword limit]
      exact ⟨fun h => ⟨h, hs⟩, fun h => h.1⟩

/-- Closing marks, a backslash before a letter, operators and the end of a line. -/
example : quoted '[' ']' "a]\\n(\n+" = "[a\\]\\\\n(\n+]" := by decide

end Expr

end Rowwise
