import Rowwise.Proofs.Parsing.Escapes

/-!
# Rowwise.Proofs.Parsing.Refusals — what a text is refused for

The grammar resolves escapes while it reads and carries the first bad one along.  `Parser.Gives` is a property of all that a
parser gives back, with one rule for each combinator; with it, the bad escapes that the grammar carries are all bad numbers
(`Grammar.whole_numbered`).  Together with what escapes stand for this says when they are resolved, and that no text is
refused for a backslash without a character behind it (`Escape.decode_exact`).
-/

namespace Rowwise

open Spelling (Body)

/-! ### What parsers give back -/

namespace Parser

variable {α β : Type} {p q : Parser α} {P : α → Prop} {Q : β → Prop}

/-- Whatever the parser gives back, the property holds of it. -/
def Gives (P : α → Prop) (p : Parser α) : Prop :=
  ∀ (c : Cursor) (a : Attempts) (x : α) (c' : Cursor) (a' : Attempts), p c a = (some (x, c'), a') → P x

namespace Gives

theorem pure {x : α} (h : P x) : Gives P (Pure.pure x) := by
  intro c a y c' a' hy
  cases hy
  exact h

theorem bind {f : α → Parser β} (hp : Gives P p) (hf : ∀ x, P x → Gives Q (f x)) : Gives Q (p >>= f) := by
  intro c a y c' a' hy
  obtain ⟨x, c₁, a₁, hx, hy⟩ := bind_eq_some.1 hy
  exact hf x (hp c a x c₁ a₁ hx) c₁ a₁ y c' a' hy

/-- What is read first does not matter. -/
theorem after {f : α → Parser β} (hf : ∀ x, Gives Q (f x)) : Gives Q (p >>= f) :=
  bind (P := fun _ => True) (fun _ _ _ _ _ _ => trivial) fun x _ => hf x

theorem orElse (hp : Gives P p) (hq : Gives P q) : Gives P (Parser.orElse p q) := by
  intro c a x c' a' hx
  rcases orElse_eq_some.1 hx with hx | ⟨b, -, hx⟩
  · exact hp c a x c' a' hx
  · exact hq c b x c' a' hx

theorem firstOf {ps : List (Parser α)} (h : ∀ p ∈ ps, Gives P p) : Gives P (Parser.firstOf ps) := by
  induction ps with
  | nil =>
    intro c a x c' a' hx
    cases hx
  | cons p ps ih => exact orElse (h p (List.mem_cons_self ..)) (ih fun q hq => h q (List.mem_cons_of_mem _ hq))

theorem rule {r : Rule} (hp : Gives P p) : Gives P (Parser.rule r p) :=
  fun c a x c' a' hx => hp c a x c' a' (rule_eq_some.1 hx)

theorem many (hp : Gives P p) : Gives (fun xs => ∀ x ∈ xs, P x) (Parser.many p) := by
  have hupTo : ∀ n, Gives (fun xs => ∀ x ∈ xs, P x) (Parser.upTo n p) := by
    intro n
    induction n with
    | zero =>
      intro c a xs c' a' hxs
      cases hxs
      simp
    | succ n ih =>
      intro c a xs c' a' hxs
      rcases upTo_succ hxs with ⟨rfl, -, -⟩ | ⟨x, c₁, a₁, ys, hx, hys, rfl⟩
      · simp
      · exact List.forall_mem_cons.2 ⟨hp c a x c₁ a₁ hx, ih c₁ a₁ ys c' a' hys⟩
  exact fun c a xs c' a' hxs => hupTo _ c a xs c' a' hxs

theorem take {split? : List Char → Option (List Char × List Char)} {P : List Char → Prop}
    (h : ∀ cs taken rest, split? cs = some (taken, rest) → P taken) : Gives P (Parser.take split?) := by
  intro c a taken c' a' htaken
  exact h c.rest taken c'.rest (rest_of_take htaken)

end Gives

end Parser

namespace Grammar

open Rowwise.Parser

variable {α β : Type} {inner : Parser (Decoded Expr)}

/-- If something is bad in it, it is the number of a character. -/
def Numbered (d : Decoded α) : Prop := ∀ bad, d = .error bad → ∃ taken, bad.cause = .badUnicode taken

theorem numbered_ok (x : α) : Numbered (.ok x) := by
  intro bad h
  cases h

theorem Numbered.bind {d : Decoded α} {f : α → Decoded β} (hd : Numbered d) (hf : ∀ x, Numbered (f x)) :
    Numbered (d >>= f) := by
  cases d with
  | ok x => exact hf x
  | error bad =>
    intro bad' h
    cases h
    exact hd bad rfl

theorem Numbered.map {d : Decoded α} {f : α → β} (hd : Numbered d) : Numbered (d.map f) := by
  cases d with
  | ok x => exact numbered_ok _
  | error bad =>
    intro bad' h
    cases h
    exact hd bad rfl

theorem numbered_mapM {ds : List (Decoded α)} (h : ∀ d ∈ ds, Numbered d) : Numbered (ds.mapM id) := by
  induction ds with
  | nil => exact numbered_ok []
  | cons d ds ih =>
    rw [List.mapM_cons]
    exact (h d (List.mem_cons_self ..)).bind fun x =>
      (ih fun e he => h e (List.mem_cons_of_mem _ he)).bind fun xs => numbered_ok (x :: xs)

theorem decoded_numbered {close : Char} {raw : List Char} (h : Body close raw) (offset : Nat) :
    Numbered (decoded offset raw) := by
  intro bad hbad
  unfold decoded at hbad
  cases hraw : Escape.decode raw with
  | ok cs =>
    rw [hraw] at hbad
    cases hbad
  | error cause =>
    rw [hraw] at hbad
    cases hbad
    exact Escape.number_of_decode_error h hraw

theorem word_numbered (r : Rule) (split? : List Char → Option (List Char × List Char)) (f : List Char → Expr) :
    Gives Numbered (word r split? f) := .after fun cs => .pure (numbered_ok (f cs))

theorem quoted_numbered {close : Char} {r inside : Rule} {opening closing : String}
    {split? : List Char → Option (List Char × List Char)} {f : String → Expr}
    (h : ∀ cs raw rest, split? cs = some (raw, rest) → Body close raw) :
    Gives Numbered (quoted r inside opening closing split? f) :=
  .rule (.after fun _ => .after fun offset => (Gives.rule (.take h)).bind fun _ hraw => .after fun _ =>
    .pure (decoded_numbered hraw offset).map)

theorem reference_numbered (r : Rule) (mark : String) (f : String → Expr) : Gives Numbered (reference r mark f) :=
  .rule (.after fun _ => .after fun _ => .after fun _ => .pure (numbered_ok _))

section Inner

variable (h : Gives Numbered inner)

include h

theorem grouped_numbered : Gives Numbered (grouped inner) :=
  .rule (.after fun _ => h.bind fun _ he => .after fun _ => .pure he)

theorem call_numbered : Gives Numbered (call inner) := by
  have harguments : Gives (fun ds => ∀ d ∈ ds, Numbered d) (arguments inner) := by
    refine .orElse (h.bind fun first hfirst => ?_) (.pure (by simp))
    exact (Gives.many (.after fun _ => h)).bind fun rest hrest => .pure (List.forall_mem_cons.2 ⟨hfirst, hrest⟩)
  exact .rule (.after fun _ => .after fun _ => harguments.bind fun args hargs => .after fun _ =>
    .pure ((numbered_mapM hargs).bind fun es => numbered_ok _))

theorem primary_numbered : Gives Numbered (primary inner) := by
  have hbody : ∀ close cs raw rest, some (body close cs) = some (raw, rest) → Body close raw := by
    intro close cs raw rest hraw
    have hspelled : Body close (body close cs).1 := body_spelled.2
    rw [Option.some.inj hraw] at hspelled
    exact hspelled
  refine .firstOf fun p hp => ?_
  simp only [List.mem_cons, List.not_mem_nil, or_false] at hp
  rcases hp with rfl | rfl | rfl | rfl | rfl | rfl | rfl | rfl | rfl
  · exact grouped_numbered h
  · exact call_numbered h
  · exact word_numbered _ _ _
  · exact word_numbered _ _ _
  · exact quoted_numbered (hbody '"')
  · have hinside : ∀ cs raw rest, nonempty (body ']' cs) = some (raw, rest) → Body ']' raw := fun cs raw rest hraw =>
      hbody ']' cs raw rest (by rw [(nonempty_eq_some.1 hraw).2])
    exact quoted_numbered hinside
  · exact reference_numbered _ _ _
  · exact reference_numbered _ _ _
  · exact word_numbered _ _ _

theorem chain_numbered : Gives Numbered (chain inner) := by
  have hoperand : Gives Numbered (operand inner) :=
    .after fun _ => .after fun _ => (primary_numbered h).bind fun _ he => .pure he.map
  have hlink : Gives Numbered (link inner) := .after fun _ => hoperand.bind fun _ hx => .pure hx.map
  exact hoperand.bind fun _ hfirst => (Gives.many hlink).bind fun _ hrest =>
    .pure (hfirst.bind fun _ => (numbered_mapM hrest).bind fun _ => numbered_ok _)

end Inner

theorem expression_numbered (n : Nat) : Gives Numbered (expression n) := by
  induction n with
  | zero =>
    intro c a x c' a' hx
    cases hx
  | succ n ih => exact .after fun _ => .rule (chain_numbered ih)

/-- The only bad escapes that a text is refused for are numbers. -/
theorem whole_numbered (length : Nat) : Gives Numbered (whole length) :=
  .rule ((expression_numbered _).bind fun _ he => .after fun _ => .after fun _ => .pure he)

end Grammar

/-- No text is refused for a backslash without a character behind it. -/
theorem Expr.parse_ne_dangling (limit : Nat) (source : String) (line column : Nat) :
    Expr.parse limit source ≠ .error (.malformed line column .danglingEscape) := by
  have hplace : ∀ offset cause, cause ≠ .danglingEscape →
      (Except.error (malformedAt source.toList offset cause) : Except Fault Expr) ≠
        .error (.malformed line column .danglingEscape) := by
    intro offset cause hcause h
    cases h
    exact hcause rfl
  have hread : read source.toList ≠ .error (.malformed line column .danglingEscape) := by
    unfold read
    split
    · exact hplace _ _ nofun
    · rename_i bad c a hwhole
      obtain ⟨taken, htaken⟩ := Grammar.whole_numbered _ _ _ _ _ _ hwhole bad rfl
      exact hplace _ _ (by rw [htaken]; nofun)
    · nofun
  unfold parse
  split
  · exact hplace _ _ nofun
  · cases hresult : read source.toList with
    | error f =>
      intro h
      cases h
      exact hread hresult
    | ok e =>
      show (if e.depth > limit then _ else _) ≠ _
      split
      · nofun
      · nofun

namespace Escape

/-- Where no `\u` has a plus sign and three digits behind it, the escapes of an inside are resolved exactly if each `\u` has
four hexadecimal digits that are the number of a character, and then piece by piece.  No inside ends within an escape, and no
text is refused for that. -/
theorem decode_exact {close : Char} {raw : List Char} (hbody : Body close raw) :
    (Unsigned close raw →
      ((∃ cs, decode raw = .ok cs) ↔ AllNumbered close raw) ∧ ∀ cs, decode raw = .ok cs ↔ Resolved raw cs) ∧
    decode raw ≠ .error .danglingEscape ∧
    ∀ limit source line column, Expr.parse limit source ≠ .error (.malformed line column .danglingEscape) := by
  refine ⟨fun hsign => ?_, fun hdangling => ?_, Expr.parse_ne_dangling⟩
  · have hiff : ∀ cs, decode raw = .ok cs ↔ Resolved raw cs := fun cs =>
      ⟨resolved_of_decode hbody hsign, decode_of_resolved⟩
    refine ⟨?_, hiff⟩
    simp only [hiff]
    exact exists_resolved_iff hbody
  · obtain ⟨taken, htaken⟩ := number_of_decode_error hbody hdangling
    cases htaken

/-- An escaped backslash before a `u`, a control character and a number with letters of both cases. -/
theorem decode_exact_mixed : Body '"' "\\\\u\\n\\u4E2d".toList ∧ Unsigned '"' "\\\\u\\n\\u4E2d".toList ∧
    AllNumbered '"' "\\\\u\\n\\u4E2d".toList ∧ Resolved "\\\\u\\n\\u4E2d".toList "\\u\n中".toList := by
  have hbody : Body '"' (Grammar.body '"' "\\\\u\\n\\u4E2d".toList).1 := Grammar.body_spelled.2
  rw [show (Grammar.body '"' "\\\\u\\n\\u4E2d".toList).1 = "\\\\u\\n\\u4E2d".toList by decide] at hbody
  have hsign : Unsigned '"' "\\\\u\\n\\u4E2d".toList := by
    rintro before rest _ hsplit ⟨digits, tail, rfl, -⟩
    have hmem : '+' ∈ "\\\\u\\n\\u4E2d".toList := by
      rw [hsplit]
      simp
    exact absurd hmem (by decide)
  have hdecode : decode "\\\\u\\n\\u4E2d".toList = .ok "\\u\n中".toList := by decide +kernel
  obtain ⟨hnumbered, hresolved⟩ := (decode_exact hbody).1 hsign
  exact ⟨hbody, hsign, hnumbered.1 ⟨_, hdecode⟩, (hresolved _).1 hdecode⟩

/-- A plus sign and three digits are taken for a number. -/
theorem decode_signed : Body '"' "\\u+041".toList ∧ decode "\\u+041".toList = .ok ['A'] ∧
    ¬ AllNumbered '"' "\\u+041".toList := by
  have hbody : Body '"' (Grammar.body '"' "\\u+041".toList).1 := Grammar.body_spelled.2
  refine ⟨hbody, by decide +kernel, fun hall => ?_⟩
  obtain ⟨digits, rest, x, hsplit, hx⟩ := hall [] "+041".toList .nil rfl
  cases hx with
  | intro ha =>
    obtain ⟨rfl, -⟩ := List.cons.inj hsplit
    exact ne_plus_of_hexDigit ha rfl

end Escape

end Rowwise
