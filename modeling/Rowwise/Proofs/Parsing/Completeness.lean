import Rowwise.Proofs.Parsing.NestingBound
import Rowwise.Proofs.Parsing.Pieces
import Rowwise.Proofs.Parsing.Soundness

/-!
# Rowwise.Proofs.Parsing.Completeness — every expression is read

The parsers of the grammar try the rules in an order and take as much as they can, so what follows must not go on a word or
a chain: a word `Ends` before a gap, an operator, a comma, a closing parenthesis or the end, and an expression where it
`Closes`.  With this the grammar reads the texts that are expressions of the strata, each as the tree that the strata give
it, and no others (`Expr.read_eq_ok_iff`, `Expr.parse_eq_ok_iff`).
-/

namespace Rowwise

namespace Grammar

open Rowwise.Parser Spelling

variable {cs ds raw rest : List Char} {e : Expr} {inner : Parser (Decoded Expr)}

/-! ### What follows a word -/

/-- The characters that may follow a word, gaps apart. -/
def endMarks : List Char := ['|', '&', '=', '!', '<', '>', '+', '-', '*', '/', '%', '^', ')', ',']

/-- A word may end here. -/
def Ends (cs : List Char) : Prop := ∀ d ∈ (cs.dropWhile isGap).head?, d ∈ endMarks

theorem isGap_iff {d : Char} : isGap d = true ↔ d ∈ [' ', '\t', '\r', '\n'] := by
  simp [isGap, or_assoc]

theorem Ends.nextNot {p : Char → Bool} (h : Ends rest) (hp : ([' ', '\t', '\r', '\n'] ++ endMarks).any p = false) :
    NextNot p rest := by
  have hp : ∀ d ∈ [' ', '\t', '\r', '\n'] ++ endMarks, p d = false :=
    fun d hd => Bool.eq_false_iff.2 (List.any_eq_false.1 hp d hd)
  intro d hd
  obtain ⟨ds, rfl⟩ := List.head?_eq_some_iff.1 hd
  by_cases hgap : isGap d = true
  · exact hp d (List.mem_append_left _ (isGap_iff.1 hgap))
  · refine hp d (List.mem_append_right _ (h d ?_))
    rw [List.dropWhile_cons_of_neg hgap]
    rfl

theorem Ends.unopened (h : Ends rest) : Unopened rest := by
  intro hopen
  exact absurd (h '(' hopen) (by decide)

theorem Closes.ends (h : Closes rest) : Ends rest := by
  intro d hd
  rcases h.head?_ne hd with rfl | rfl <;> decide

theorem dropWhile_gap (h : Gap cs) : (cs ++ rest).dropWhile isGap = rest.dropWhile isGap :=
  List.dropWhile_append_of_pos h

theorem Ends.behind_gap (h : Gap cs) : Ends (cs ++ rest) ↔ Ends rest := by
  rw [Ends, Ends, dropWhile_gap h]

theorem Closes.behind_gap (h : Gap cs) : Closes (cs ++ rest) ↔ Closes rest := by
  rw [Closes, Closes, dropWhile_gap h]

theorem nextNot_behind_gap {p : Char → Bool} (h : Gap cs) (hp : [' ', '\t', '\r', '\n'].any p = false)
    (hrest : NextNot p rest) : NextNot p (cs ++ rest) := by
  cases cs with
  | nil => exact hrest
  | cons c cs =>
    rintro _ ⟨⟩
    exact Bool.eq_false_iff.2 (List.any_eq_false.1 hp c (isGap_iff.1 (h c List.mem_cons_self)))

/-! ### Words -/

theorem reads_word {r : Rule} {split? : List Char → Option (List Char × List Char)} (f : List Char → Expr)
    (h : split? (cs ++ rest) = some (cs, rest)) : Reads (word r split? f) cs (.ok (f cs)) rest :=
  Reads.bind_pure (Reads.rule (Reads.take h))

theorem refuses_word {r : Rule} {split? : List Char → Option (List Char × List Char)} {f : List Char → Expr}
    (h : split? cs = none) : Refuses (word r split? f) cs :=
  Refuses.bind (Refuses.rule (Refuses.take h))

theorem refuses_exactly {s : String} {d : Char} (hs : s.toList.head? = some d) (hcs : cs.head? ≠ some d) :
    Refuses (exactly s) cs := by
  refine Refuses.exactly fun rest heq => hcs ?_
  obtain ⟨ds, hds⟩ := List.head?_eq_some_iff.1 hs
  rw [heq, hds]
  rfl

theorem reads_quoted {r inside : Rule} (opening : String) {closing : String} {f : String → Expr}
    {split? : List Char → Option (List Char × List Char)} (hdecode : Escape.decode raw = .ok ds)
    (h : split? (raw ++ (closing.toList ++ rest)) = some (raw, closing.toList ++ rest)) :
    Reads (quoted r inside opening closing split? f) (opening.toList ++ (raw ++ closing.toList))
      (.ok (f (String.ofList ds))) rest := by
  refine Reads.rule (Reads.bind (Reads.exactly opening _) ?_)
  intro c a hc
  refine (Reads.bind (Reads.rule (Reads.take h)) ?_ : Reads _ (raw ++ closing.toList) _ rest) c a hc
  have hvalue : (decoded c.offset raw).map f = .ok (f (String.ofList ds)) := by simp [decoded, hdecode, Except.map]
  rw [hvalue]
  exact Reads.bind_pure (Reads.exactly closing rest)

theorem refuses_quoted {r inside : Rule} {opening closing : String} {f : String → Expr} {d : Char}
    {split? : List Char → Option (List Char × List Char)} (hs : opening.toList.head? = some d)
    (hcs : cs.head? ≠ some d) : Refuses (quoted r inside opening closing split? f) cs :=
  Refuses.rule (Refuses.bind (refuses_exactly hs hcs))

theorem reads_reference {r : Rule} (mark : String) {f : String → Expr} (h : Reference cs) :
    Reads (reference r mark f) (mark.toList ++ (cs ++ ['\x7d'])) (.ok (f (String.ofList cs))) rest := by
  refine Reads.rule (Reads.bind (Reads.exactly mark _) (Reads.bind (Reads.rule (Reads.take ?_)) ?_))
  · exact braced_of_reference h
  · exact Reads.bind_pure (Reads.exactly "\x7d" rest)

theorem refuses_reference {r : Rule} {mark : String} {f : String → Expr} {d : Char} (hs : mark.toList.head? = some d)
    (hcs : cs.head? ≠ some d) : Refuses (reference r mark f) cs :=
  Refuses.rule (Refuses.bind (refuses_exactly hs hcs))

theorem float?_eq_none (h : NextNot (fun d => d.isDigit || d = '.') cs) : float? cs = none := by
  have hdigits : digits? cs = none := digits?_eq_none fun d hd => by
    have := h d hd
    simp only [Bool.or_eq_false_iff] at this
    exact this.1
  unfold float?
  rw [hdigits]
  split
  · rename_i heq
    cases heq
  · rename_i heq
    cases heq
  · split
    · exact absurd (h '.' rfl) (by decide)
    · rfl

/-- Where neither a digit nor a point comes next, no number is read. -/
theorem Reads.skip_numbers {p : Parser (Decoded Expr)} {x : Decoded Expr} {f g : List Char → Expr} {d : Char}
    (hd : (d.isDigit || d = '.') = false) (h : Reads p (d :: cs) x rest) :
    Reads (orElse (word .float float? f) (orElse (word .integer digits? g) p)) (d :: cs) x rest := by
  refine Refuses.orElse_reads (refuses_word (float?_eq_none ?_)) (Refuses.orElse_reads (refuses_word (digits?_eq_none ?_)) h)
  · rintro _ ⟨⟩
    exact hd
  · rintro _ ⟨⟩
    exact (Bool.or_eq_false_iff.1 hd).1

theorem reads_words (h : Spelling.Word cs e) (hrest : Ends rest) : Reads (firstOf words) cs (.ok e) rest := by
  have hnumber : NextNot continuesNumber rest := hrest.nextNot (by decide)
  simp only [words, firstOf]
  cases h with
  | @integer _ x hdigits hx =>
    have hvalue : x = numberOf cs := Option.some.inj (hx.symm.trans (read?_of_digits hdigits))
    subst hvalue
    refine Refuses.orElse_reads (refuses_word (float?_of_digits hdigits hnumber)) (Reads.orElse ?_)
    exact reads_word (fun cs => .integer (numberOf cs)) (digits?_of_digits hdigits (digit_of_number hnumber))
  | @double _ x hfractional hx =>
    have hvalue : x = numberOf cs := Option.some.inj (hx.symm.trans (read?_of_fractional hfractional))
    subst hvalue
    exact Reads.orElse (reads_word (fun cs => .double (numberOf cs)) (float?_of_fractional hfractional hnumber))
  | text hbody hdecode =>
    refine Reads.skip_numbers rfl (Reads.orElse ?_)
    exact reads_quoted "\"" hdecode (congrArg some (body_of_body hbody (by decide)))
  | column hne hbody hdecode =>
    refine Reads.skip_numbers rfl (Refuses.orElse_reads (refuses_quoted (d := '"') rfl (by simp)) (Reads.orElse ?_))
    exact reads_quoted "[" hdecode (nonempty_eq_some.2 ⟨hne, body_of_body hbody (by decide)⟩)
  | scope href =>
    refine Reads.skip_numbers rfl (Refuses.orElse_reads (refuses_quoted (d := '"') rfl (by simp)) ?_)
    refine Refuses.orElse_reads (refuses_quoted (d := '[') rfl (by simp)) (Reads.orElse ?_)
    exact reads_reference "%\x7b" href
  | macroRef href =>
    refine Reads.skip_numbers rfl (Refuses.orElse_reads (refuses_quoted (d := '"') rfl (by simp)) ?_)
    refine Refuses.orElse_reads (refuses_quoted (d := '[') rfl (by simp)) ?_
    refine Refuses.orElse_reads (refuses_reference (d := '%') rfl (by simp)) (Reads.orElse ?_)
    exact reads_reference "#\x7b" href
  | name hspelled =>
    have hword := reads_word (r := .identifier) (fun cs => .name (String.ofList cs))
      (name?_of_name hspelled (hrest.nextNot (by decide)))
    obtain @⟨d, ds, hstart, -⟩ := hspelled
    have hne : ∀ {m : Char} {tail : List Char}, startsName m = false → (d :: tail).head? ≠ some m := by
      rintro m tail hm ⟨⟩
      rw [hm] at hstart
      cases hstart
    refine Reads.skip_numbers ?_ ?_
    · refine Bool.eq_false_iff.2 fun hnum => ?_
      rw [not_startsName (by simpa using hnum)] at hstart
      cases hstart
    · refine Refuses.orElse_reads (refuses_quoted (d := '"') rfl (hne (by decide))) ?_
      refine Refuses.orElse_reads (refuses_quoted (d := '[') rfl (hne (by decide))) ?_
      refine Refuses.orElse_reads (refuses_reference (d := '%') rfl (hne (by decide))) ?_
      exact Refuses.orElse_reads (refuses_reference (d := '#') rfl (hne (by decide))) (Reads.orElse hword)

/-! ### Primaries -/

theorem refuses_grouped (h : cs.head? ≠ some '(') : Refuses (grouped inner) cs :=
  Refuses.rule (Refuses.bind (refuses_exactly rfl h))

theorem refuses_call (h : ∀ taken rest, name? cs = some (taken, rest) → Unopened rest) : Refuses (call inner) cs := by
  intro c a hc
  rcases hcall : call inner c a with ⟨_ | ⟨x, c'⟩, a'⟩
  · exact ⟨a', rfl⟩
  · obtain ⟨name, c₁, a₁, hname, hrest⟩ := bind_eq_some.1 (rule_eq_some.1 hcall)
    obtain ⟨u, c₂, a₂, hopen, -⟩ := bind_eq_some.1 hrest
    have hunopened := h _ _ (hc ▸ rest_of_take (rule_eq_some.1 hname))
    rw [Unopened, rest_of_symbol hopen] at hunopened
    exact absurd rfl hunopened

theorem reads_primary_word (h : Spelling.Word cs e) (hrest : Ends rest) : Reads (primary inner) cs (.ok e) rest := by
  have hreads := reads_words h hrest
  have hword : Word (cs ++ rest) e rest := by
    obtain ⟨c', a', hx, hc'⟩ := hreads ⟨0, cs ++ rest⟩ {} rfl
    exact hc' ▸ word_of_words hx
  rw [primary_eq]
  refine Refuses.orElse_reads (refuses_grouped hword.head?) (Refuses.orElse_reads (refuses_call ?_) hreads)
  intro taken rest' hname
  exact hword.rest_of_name hname ▸ hrest.unopened

/-- On texts shorter than `n`, the parser reads a gap and an expression behind it, and refuses a text that closes. -/
structure Complete (n : Nat) (inner : Parser (Decoded Expr)) : Prop where
  reads : ∀ {g cs e rest}, Gap g → Stratum.disjunction.Derives cs e → (g ++ cs).length < n → Closes rest →
    Reads inner (g ++ cs) (.ok e) rest
  refuses : ∀ {cs}, Closes cs → Refuses inner cs

variable {n : Nat}

theorem closes_at (m : Char) (hm : m = ')' ∨ m = ',') : Closes (m :: rest) := by
  rcases hm with rfl | rfl
  · exact Or.inr (Or.inl rfl)
  · exact Or.inr (Or.inr rfl)

theorem reads_grouped (hin : Complete n inner) (h : Stratum.whole.Derives cs e) (hn : cs.length < n) :
    Reads (grouped inner) ('(' :: (cs ++ [')'])) (.ok e) rest := by
  obtain ⟨g, ds, k, rfl, hg, hderives, hk⟩ := h.of_whole
  have hclose : Closes (k ++ (")".toList ++ rest)) := (Closes.behind_gap hk).2 (closes_at _ (Or.inl rfl))
  have hinner : Reads inner (g ++ ds) (.ok e) ((k ++ ")".toList) ++ rest) := by
    rw [List.append_assoc]
    refine hin.reads hg hderives ?_ hclose
    simp only [List.length_append] at hn ⊢
    omega
  have hsymbol : Reads (symbol ")") (k ++ ")".toList) () rest := Reads.symbol hk (by rintro _ ⟨⟩; rfl)
  refine Reads.rule ?_
  have hreads := Reads.bind (Reads.exactly "(" (((g ++ ds) ++ (k ++ ")".toList)) ++ rest))
    (f := fun _ => inner >>= fun x => symbol ")" >>= fun _ => pure x)
    (Reads.bind hinner (Reads.bind_pure (g := fun _ => (Except.ok e : Decoded Expr)) hsymbol))
  simpa using hreads

theorem closes_of_commas {k k' : List Char} {args : List (List Char × Expr)} (hk : Gap k)
    (hds : k ++ args.flatMap (fun x => ',' :: x.1) = ds ++ k') : Closes (ds ++ (k' ++ ')' :: rest)) := by
  rw [← List.append_assoc, ← hds, List.append_assoc]
  refine (Closes.behind_gap hk).2 ?_
  cases args with
  | nil => exact closes_at _ (Or.inl rfl)
  | cons y args => exact closes_at _ (Or.inr rfl)

/-- Arguments behind the first, with the gap before the first comma; the gap at the end is left. -/
theorem reads_commas (rest : List Char) (hin : Complete n inner) {k : List Char} {args : List (List Char × Expr)}
    (hk : Gap k) (hargs : ∀ x ∈ args, Stratum.whole.Derives x.1 x.2 ∧ x.1.length < n) :
    ∃ ds k', k ++ args.flatMap (fun x => ',' :: x.1) = ds ++ k' ∧ Gap k' ∧
      ReadsAll (do symbol ","; inner) (k' ++ ')' :: rest) ds (args.map fun x => .ok x.2) := by
  induction args generalizing k with
  | nil =>
    refine ⟨[], k, by simp, hk, .nil (Refuses.bind (Refuses.symbol fun rest' heq => ?_))⟩
    rw [dropWhile_gap hk] at heq
    cases heq
  | cons x args ih =>
    obtain ⟨hx, hlength⟩ := hargs x List.mem_cons_self
    obtain ⟨g, cs, k₁, hcs, hg, hderives, hk₁⟩ := hx.of_whole
    obtain ⟨ds, k', hds, hk', hall⟩ := ih hk₁ fun y hy => hargs y (List.mem_cons_of_mem _ hy)
    refine ⟨(k ++ ",".toList) ++ (g ++ cs) ++ ds, k', ?_, hk', .cons (by simp) ?_ hall⟩
    · rw [List.flatMap_cons, hcs]
      simp [← hds]
    · have hclose : Closes (ds ++ (k' ++ ')' :: rest)) := closes_of_commas hk₁ hds
      refine Reads.bind (Reads.symbol hk (by rintro _ ⟨⟩; rfl)) (hin.reads hg hderives ?_ hclose)
      rw [hcs] at hlength
      simp only [List.length_append] at hlength ⊢
      omega

theorem intercalate_cons_eq (sep cs : List Char) (rest : List (List Char)) :
    sep.intercalate (cs :: rest) = cs ++ rest.flatMap (sep ++ ·) := by
  induction rest generalizing cs with
  | nil => simp [List.intercalate]
  | cons ds rest ih => rw [List.intercalate_cons_cons, ih, List.flatMap_cons, List.append_assoc, List.append_assoc]

theorem mapM_id_ok {α β : Type} (f : α → β) (xs : List α) :
    (xs.map fun x => (.ok (f x) : Decoded β)).mapM id = .ok (xs.map f) := by
  induction xs with
  | nil => rfl
  | cons x xs ih => exact mapM_id_cons.2 ⟨f x, xs.map f, rfl, ih, rfl⟩

/-- Arguments; the gap at the end is left. -/
theorem reads_arguments (rest : List Char) (hin : Complete n inner) {args : List (List Char × Expr)} (hne : args ≠ [])
    (hargs : ∀ x ∈ args, Stratum.whole.Derives x.1 x.2 ∧ x.1.length < n) :
    ∃ ds k, [','].intercalate (args.map Prod.fst) = ds ++ k ∧ Gap k ∧
      Reads (arguments inner) ds (args.map fun x => .ok x.2) (k ++ ')' :: rest) := by
  cases args with
  | nil => exact absurd rfl hne
  | cons x args =>
    obtain ⟨hx, hlength⟩ := hargs x List.mem_cons_self
    obtain ⟨g, cs, k, hcs, hg, hderives, hk⟩ := hx.of_whole
    obtain ⟨ds, k', hds, hk', hall⟩ := reads_commas rest hin hk fun y hy => hargs y (List.mem_cons_of_mem _ hy)
    have hclose : Closes (ds ++ (k' ++ ')' :: rest)) := closes_of_commas hk hds
    refine ⟨(g ++ cs) ++ ds, k', ?_, hk', Reads.orElse (Reads.bind (hin.reads hg hderives ?_ hclose) ?_)⟩
    · rw [List.map_cons, intercalate_cons_eq, hcs, List.flatMap_map]
      simp [← hds]
    · rw [hcs] at hlength
      simp only [List.length_append] at hlength ⊢
      omega
    · exact Reads.bind_pure hall.many

theorem reads_call {name g w k : List Char} {xs : List (Decoded Expr)} {es : List Expr} (hname : Name name) (hg : Gap g)
    (hargs : Reads (arguments inner) w xs (k ++ ')' :: rest)) (hk : Gap k) (hxs : xs.mapM id = .ok es) :
    Reads (call inner) (name ++ (g ++ '(' :: (w ++ (k ++ [')'])))) (.ok (.call (String.ofList name) es)) rest := by
  have hopen : NextNot continuesName (((g ++ "(".toList) ++ (w ++ (k ++ ")".toList))) ++ rest) := by
    rw [List.append_assoc, List.append_assoc]
    exact nextNot_behind_gap hg (by decide) (by rintro _ ⟨⟩; decide)
  have hclose : Reads (symbol ")") (k ++ ")".toList) () rest := Reads.symbol hk (by rintro _ ⟨⟩; rfl)
  have hvalue : (do return .call (String.ofList name) (← xs.mapM id) : Decoded Expr) =
      .ok (.call (String.ofList name) es) := by
    simp [hxs, bind, Except.bind, pure, Except.pure]
  have htext : name ++ (g ++ '(' :: (w ++ (k ++ [')']))) =
      name ++ ((g ++ "(".toList) ++ (w ++ (k ++ ")".toList))) := by simp
  rw [htext, ← hvalue]
  refine Reads.rule (Reads.bind (Reads.rule (Reads.take (name?_of_name hname hopen))) ?_)
  refine Reads.bind (Reads.symbol hg (by rintro _ ⟨⟩; rfl)) (Reads.bind ?_ (Reads.bind_pure hclose))
  simpa using hargs

/-- A joined list holds each of its parts. -/
theorem infix_intercalate {sep xs : List Char} {xss : List (List Char)} (h : xs ∈ xss) : xs <:+: sep.intercalate xss := by
  have hmem : xs ∈ xss.intersperse sep := by
    induction xss using List.twoStepInduction with
    | nil => cases h
    | singleton x => exact h
    | cons_cons x y xss _ ih =>
      rw [List.intersperse_cons_cons]
      obtain rfl | h := List.mem_cons.1 h
      · simp
      · simp [ih y h]
  exact List.infix_of_mem_flatten hmem

theorem length_le_intercalate {args : List (List Char × Expr)} {x : List Char × Expr} (hx : x ∈ args) :
    x.1.length ≤ ([','].intercalate (args.map Prod.fst)).length :=
  (infix_intercalate (List.mem_map_of_mem hx)).length_le

theorem reads_primary (hin : Complete n inner) (h : Stratum.primary.Derives cs e) (hn : cs.length ≤ n) (hrest : Ends rest) :
    Reads (primary inner) cs (.ok e) rest := by
  have hcall : ∀ {name tail}, Name name → Reads (call inner) (name ++ tail) (.ok e) rest →
      Reads (primary inner) (name ++ tail) (.ok e) rest := by
    intro name tail hname hreads
    rw [primary_eq]
    refine Refuses.orElse_reads (refuses_grouped ?_) (Reads.orElse hreads)
    obtain ⟨hstart, -⟩ := hname
    rintro ⟨⟩
    revert hstart
    decide
  cases h with
  | next hnext => cases hnext
  | binary hnext => cases hnext
  | word hword => exact reads_primary_word hword hrest
  | grouped hwhole =>
    simp only [List.length_cons, List.length_append] at hn
    exact primary_eq inner ▸ Reads.orElse (reads_grouped hin hwhole (by omega))
  | @callEmpty name g k hname hg hk =>
    have hclose : Closes (k ++ ')' :: rest) := (Closes.behind_gap hk).2 (closes_at _ (Or.inl rfl))
    have hnone : Reads (arguments inner) [] [] (k ++ ')' :: rest) :=
      Refuses.orElse_reads (Refuses.bind (hin.refuses hclose)) (Reads.pure [] _)
    exact hcall hname (by simpa using reads_call hname hg hnone hk rfl)
  | @call name g args hname hg hne hargs =>
    simp only [List.length_cons, List.length_append] at hn
    obtain ⟨ds, k, hds, hk, hreads⟩ := reads_arguments rest hin hne fun x hx =>
      ⟨hargs x hx, by have := length_le_intercalate hx; omega⟩
    refine hcall hname ?_
    rw [hds]
    simpa using reads_call hname hg hreads hk (mapM_id_ok Prod.snd args)

/-! ### Operands -/

/-- The characters with which an operand starts. -/
def opens (d : Char) : Bool :=
  startsName d || d.isDigit || d ∈ ['.', '(', '"', '[', '%', '#', '-', '+', '!']

/-- The characters of the signs. -/
def isSign (d : Char) : Bool := d = '-' || d = '+' || d = '!'

theorem not_opens {d : Char} (h : opens d = true) : isGap d = false ∧ d ≠ '=' ∧ d ≠ '\x7b' := by
  refine ⟨Bool.eq_false_iff.2 fun hgap => ?_, ?_, ?_⟩
  · have hnone : [' ', '\t', '\r', '\n'].any opens = false := by decide
    exact List.any_eq_false.1 hnone d (isGap_iff.1 hgap) h
  · rintro rfl
    revert h
    decide
  · rintro rfl
    revert h
    decide

theorem isSign_eq_false {p : Char → Bool} {d : Char} (h : p d = true) (hp : ['-', '+', '!'].any p = false) :
    isSign d = false := by
  refine Bool.eq_false_iff.2 fun hsign => ?_
  exact List.any_eq_false.1 hp d (by simpa [isSign, or_assoc] using hsign) h

theorem name_head (h : Name cs) : ∃ d ds, cs = d :: ds ∧ opens d = true ∧ isSign d = false := by
  obtain @⟨d, ds, hstart, -⟩ := h
  exact ⟨d, ds, rfl, by simp [opens, hstart], isSign_eq_false hstart (by decide)⟩

theorem word_head (h : Spelling.Word cs e) : ∃ d ds, cs = d :: ds ∧ opens d = true ∧ isSign d = false := by
  have hdigit : ∀ {d : Char}, d.isDigit = true ∨ d = '.' → opens d = true ∧ isSign d = false := by
    rintro d (hd | rfl)
    · exact ⟨by simp [opens, hd], isSign_eq_false hd (by decide)⟩
    · decide
  cases h with
  | integer h _ =>
    obtain ⟨d, ds, rfl, hd⟩ := Digits.head h
    exact ⟨d, ds, rfl, hdigit (Or.inl hd)⟩
  | double h _ =>
    obtain ⟨d, ds, rfl, hd⟩ := Fractional.head h
    exact ⟨d, ds, rfl, hdigit hd⟩
  | text _ _ => exact ⟨_, _, rfl, by decide, by decide⟩
  | column _ _ _ => exact ⟨_, _, rfl, by decide, by decide⟩
  | scope _ => exact ⟨_, _, rfl, by decide, by decide⟩
  | macroRef _ => exact ⟨_, _, rfl, by decide, by decide⟩
  | name h => exact name_head h

theorem primary_head (h : Stratum.primary.Derives cs e) : ∃ d ds, cs = d :: ds ∧ opens d = true ∧ isSign d = false := by
  cases h with
  | next hnext => cases hnext
  | binary hnext => cases hnext
  | word hword => exact word_head hword
  | grouped _ => exact ⟨_, _, rfl, by decide, by decide⟩
  | callEmpty hname _ _ =>
    obtain ⟨d, ds, rfl, hd⟩ := name_head hname
    exact ⟨d, _, rfl, hd⟩
  | call hname _ _ _ =>
    obtain ⟨d, ds, rfl, hd⟩ := name_head hname
    exact ⟨d, _, rfl, hd⟩

theorem operand_head {x : Operand} (h : SpellsOperand cs x) : ∃ d ds, cs = d :: ds ∧ opens d = true := by
  cases h with
  | primary hp =>
    obtain ⟨d, ds, hcs, hopens, -⟩ := primary_head hp
    exact ⟨d, ds, hcs, hopens⟩
  | @sign op g cs signs e _ _ => cases op <;> exact ⟨_, _, rfl, by decide⟩

theorem expression_head (h : Stratum.disjunction.Derives cs e) : ∃ d ds, cs = d :: ds ∧ opens d = true := by
  obtain ⟨c, xs, ls, rfl, hx, -, -⟩ := Stratum.derives_iff_chain.1 h
  obtain ⟨d, ds, rfl, hopens⟩ := operand_head hx
  exact ⟨d, _, rfl, hopens⟩

theorem reads_sign {op : UnaryOp} (hg : Gap cs) (hrest : op = .not → rest.head? ≠ some '=') :
    Reads sign (cs ++ op.symbol.toList) op rest := by
  have hgap : NextNot isGap (op.symbol.toList ++ rest) := by cases op <;> (rintro _ ⟨⟩; rfl)
  refine Reads.bind (Reads.gap hg hgap) ?_
  cases op with
  | negate => exact Reads.orElse (Reads.bind_pure (Reads.rule (Reads.exactly "-" rest)))
  | plus =>
    refine Refuses.orElse_reads (Refuses.bind (Refuses.rule (refuses_exactly (d := '-') rfl (by simp [UnaryOp.symbol])))) ?_
    exact Reads.orElse (Reads.bind_pure (Reads.rule (Reads.exactly "+" rest)))
  | not =>
    refine Refuses.orElse_reads (Refuses.bind (Refuses.rule (refuses_exactly (d := '-') rfl (by simp [UnaryOp.symbol])))) ?_
    refine Refuses.orElse_reads (Refuses.bind (Refuses.rule (refuses_exactly (d := '+') rfl (by simp [UnaryOp.symbol])))) ?_
    refine Reads.orElse (Reads.bind_pure (Reads.rule (Reads.take ?_)))
    show exclamation? ('!' :: rest) = some (['!'], rest)
    unfold exclamation?
    split
    · rename_i heq
      rw [(List.cons.inj heq).2] at hrest
      exact absurd rfl (hrest rfl)
    · rename_i heq
      rw [(List.cons.inj heq).2]
    · rename_i hno
      exact absurd rfl (hno rest)

theorem refuses_sign (h : ∀ op rest, ¬ SignAt (cs.dropWhile isGap) op rest) : Refuses sign cs := by
  intro c a hc
  rcases hs : sign c a with ⟨_ | ⟨op, c'⟩, a'⟩
  · exact ⟨a', rfl⟩
  · exact absurd (signAt_of_sign hs) (hc ▸ h op c'.rest)

/-- The signs of an operand and the primary behind them. -/
theorem reads_signs (rest : List Char) {x : Operand} {g : List Char} (h : SpellsOperand cs x) (hg : Gap g) :
    ∃ ds k ps, g ++ cs = ds ++ (k ++ ps) ∧ ps.length ≤ cs.length ∧ Gap k ∧ Stratum.primary.Derives ps x.primary ∧
      ReadsAll sign (k ++ (ps ++ rest)) ds x.signs := by
  induction h generalizing g with
  | @primary cs e hp =>
    refine ⟨[], g, cs, rfl, Nat.le_refl _, hg, hp, .nil (refuses_sign fun op rest' hop => ?_)⟩
    obtain ⟨d, ds, rfl, hopens, hsign⟩ := primary_head hp
    rw [dropWhile_gap hg, List.cons_append, List.dropWhile_cons_of_neg (by simp [(not_opens hopens).1])] at hop
    have hhead := congrArg List.head? hop.symbol
    cases op <;> cases hhead <;> revert hsign <;> decide
  | @sign op k cs signs e hk hx ih =>
    obtain ⟨ds, k', ps, hds, hle, hk', hp, hall⟩ := ih hk
    have hequal : ds ++ (k' ++ (ps ++ rest)) = k ++ (cs ++ rest) := by
      rw [← List.append_assoc k', ← List.append_assoc ds, ← hds, List.append_assoc]
    have hnext : NextNot (fun d => d = '=') (k ++ (cs ++ rest)) := by
      obtain ⟨d, ds, rfl, hopens⟩ := operand_head hx
      exact nextNot_behind_gap hk (by decide) (by rintro _ ⟨⟩; simpa using (not_opens hopens).2.1)
    refine ⟨(g ++ op.symbol.toList) ++ ds, k', ps, by simp [← hds], ?_, hk', hp, .cons ?_ (reads_sign hg fun _ => ?_) hall⟩
    · simp only [List.length_append]
      omega
    · cases op <;> simp [UnaryOp.symbol]
    · rw [hequal]
      intro heq
      exact absurd (hnext '=' heq) (by decide)

theorem reads_operand {x : Operand} {g : List Char} (hin : Complete n inner) (h : SpellsOperand cs x) (hg : Gap g)
    (hn : cs.length ≤ n) (hrest : Ends rest) : Reads (operand inner) (g ++ cs) (.ok x) rest := by
  obtain ⟨ds, k, ps, hds, hle, hk, hp, hall⟩ := reads_signs rest h hg
  have hgap : NextNot isGap (ps ++ rest) := by
    obtain ⟨d, ds, rfl, hopens, -⟩ := primary_head hp
    rintro _ ⟨⟩
    exact (not_opens hopens).1
  have hprimary := reads_primary hin hp (Nat.le_trans hle hn) hrest
  rw [hds]
  refine Reads.bind (by simpa using hall.many) (Reads.bind (Reads.gap hk hgap) ?_)
  exact Reads.bind_pure (g := fun y : Decoded Expr => y.map fun e => (⟨x.signs, e⟩ : Operand)) hprimary

/-! ### Operators -/

theorem OperatorAt.unique {op op' : BinaryOp} {rest' : List Char} (h : OperatorAt cs op rest)
    (h' : OperatorAt cs op' rest') : op = op' ∧ rest = rest' := by
  have heq := h.symbol.symm.trans h'.symbol
  obtain ⟨-, -, horder⟩ := h
  obtain ⟨-, -, horder'⟩ := h'
  -- the symbols differ, except that one of two may start another, and then a character is between
  cases op <;> cases op' <;> simp [BinaryOp.symbol] at heq horder horder' ⊢ <;> grind

theorem firstOf_succeeds {α : Type} {ps : List (Parser α)} {p : Parser α} (hp : p ∈ ps) {c : Cursor}
    (h : ∀ a, ∃ x a', p c a = (some x, a')) (a : Attempts) : ∃ x a', firstOf ps c a = (some x, a') := by
  induction ps generalizing a with
  | nil => cases hp
  | cons q ps ih =>
    rcases hq : q c a with ⟨_ | x, b⟩
    · rcases List.mem_cons.1 hp with rfl | hp
      · obtain ⟨x, a', hx⟩ := h a
        rw [hx] at hq
        cases hq
      · obtain ⟨x, a', hx⟩ := ih hp b
        exact ⟨x, a', by simp [firstOf, orElse, hq, hx]⟩
    · exact ⟨x, b, by simp [firstOf, orElse, hq]⟩

theorem reads_thisOperator {op : BinaryOp} (h : OperatorAt cs op rest) :
    Reads (thisOperator op) op.symbol.toList op rest := by
  refine Reads.bind_pure (g := fun _ => op) (x := op.symbol.toList) (Reads.rule ?_)
  by_cases hop : op = .remainder
  · subst hop
    rw [if_pos rfl]
    refine Reads.take ?_
    show percent? ('%' :: rest) = some (['%'], rest)
    unfold percent?
    split
    · rename_i heq
      exact absurd (by rw [(List.cons.inj heq).2]; rfl) (h.remainder rfl)
    · rename_i heq
      rw [(List.cons.inj heq).2]
    · rename_i hno
      exact absurd rfl (hno rest)
  · rw [if_neg hop]
    exact Reads.exactly _ rest

/-- The operator that stands in the text is read, whichever is tried first: one is read, and no other stands there. -/
theorem reads_operator {op : BinaryOp} (hg : Gap ds) (h : OperatorAt (op.symbol.toList ++ rest) op rest) :
    Reads operator (ds ++ op.symbol.toList) op rest := by
  intro c a hc
  have hdrop : c.rest.dropWhile isGap = op.symbol.toList ++ rest := by
    rw [hc, List.append_assoc, dropWhile_gap hg]
    cases op <;> rfl
  rcases hop : operator c a with ⟨_ | ⟨op', c'⟩, a'⟩
  · rcases bind_eq_none.1 hop with hgap | ⟨u, c₁, a₁, hgap, hnone⟩
    · cases hgap
    · have hmem : thisOperator op ∈ operators.map thisOperator := List.mem_map_of_mem (by cases op <;> decide)
      obtain ⟨x, a₂, hsome⟩ := firstOf_succeeds hmem (c := c₁) (fun b => by
        obtain ⟨c₂, b', hx, -⟩ := reads_thisOperator h c₁ b (rest_of_gap hgap ▸ hdrop)
        exact ⟨_, b', hx⟩) a₁
      rw [hsome] at hnone
      cases hnone
  · obtain ⟨rfl, hrest⟩ := (operatorAt_of_operator hop).unique (hdrop ▸ h)
    exact ⟨c', a', rfl, hrest⟩

theorem ends_of_links {l : Links} (h : SpellsLinks cs l) (hrest : Closes rest) : Ends (cs ++ rest) := by
  cases h with
  | nil => exact hrest.ends
  | @cons op g k xs x ls l hg _ _ _ =>
    rw [List.append_assoc]
    refine (Ends.behind_gap hg).2 ?_
    rw [List.append_assoc]
    cases op <;> (rintro _ ⟨⟩; decide)

theorem refuses_link (h : Closes cs) : Refuses (link inner) cs := by
  refine Refuses.bind fun c a hc => ?_
  rcases hop : operator c a with ⟨_ | ⟨op, c'⟩, a'⟩
  · exact ⟨a', rfl⟩
  · exact absurd (operatorAt_of_operator hop) (hc ▸ h).not_operatorAt

theorem reads_links {l : Links} (hin : Complete n inner) (h : SpellsLinks cs l) (hn : cs.length ≤ n)
    (hrest : Closes rest) : ReadsAll (link inner) rest cs (l.map .ok) := by
  induction h with
  | nil => exact .nil (refuses_link hrest)
  | @cons op g k xs x ls l hg hk hx hls ih =>
    simp only [List.length_append] at hn
    have hoperand : Reads (operand inner) (k ++ xs) (.ok x) (ls ++ rest) :=
      reads_operand hin hx hk (by omega) (ends_of_links hls hrest)
    have hoperator : OperatorAt (op.symbol.toList ++ ((k ++ xs) ++ (ls ++ rest))) op ((k ++ xs) ++ (ls ++ rest)) := by
      obtain ⟨d, ds, rfl, hopens⟩ := operand_head hx
      have hnext : NextNot (fun d => d = '=' || d = '\x7b') ((k ++ d :: ds) ++ (ls ++ rest)) := by
        rw [List.append_assoc]
        exact nextNot_behind_gap hk (by decide) (by rintro _ ⟨⟩; simpa using (not_opens hopens).2)
      refine ⟨rfl, fun _ hhead => ?_, fun _ hhead => ?_⟩
      · exact absurd (hnext _ hhead) (by decide)
      · exact absurd (hnext _ hhead) (by decide)
    have hlink : Reads (link inner) ((g ++ op.symbol.toList) ++ (k ++ xs)) (.ok (op, x)) (ls ++ rest) :=
      Reads.bind (reads_operator hg hoperator)
        (Reads.bind_pure (g := fun y : Decoded Operand => y.map fun x => (op, x)) hoperand)
    have hall := ReadsAll.cons (by cases op <;> simp [BinaryOp.symbol]) hlink (ih (by omega))
    simpa using hall

theorem reads_chain (hin : Complete n inner) (h : Stratum.disjunction.Derives cs e) (hn : cs.length ≤ n)
    (hrest : Closes rest) : Reads (chain inner) cs (.ok e) rest := by
  obtain ⟨⟨x, l⟩, xs, ls, rfl, hx, hl, rfl⟩ := Stratum.derives_iff_chain.1 h
  simp only [List.length_append] at hn
  have hlinks := reads_links hin hl (by omega) hrest
  have hoperand := reads_operand hin hx (g := []) (by simp [Gap]) (by omega) (ends_of_links hl hrest)
  refine Reads.bind hoperand ?_
  have hvalue : (do return Chain.tree ⟨← (.ok x : Decoded Operand), ← (l.map .ok).mapM id⟩ : Decoded Expr) =
      .ok (Chain.tree ⟨x, l⟩) := by
    have hall := mapM_id_ok id l
    simp only [id_eq, List.map_id] at hall
    simp [hall, bind, Except.bind, pure, Except.pure]
  exact hvalue ▸ Reads.bind_pure hlinks.many

/-! ### Expressions and whole texts -/

theorem expression_complete (n : Nat) : Complete n (expression n) := by
  induction n with
  | zero => exact ⟨fun _ _ hn => absurd hn (Nat.not_lt_zero _), fun _ c a _ => ⟨a, rfl⟩⟩
  | succ n ih =>
    refine ⟨fun {g cs e rest} hg h hn hrest => ?_, fun {cs} hc => ?_⟩
    · have hgap : NextNot isGap (cs ++ rest) := by
        obtain ⟨d, ds, rfl, hopens⟩ := expression_head h
        rintro _ ⟨⟩
        exact (not_opens hopens).1
      rw [List.length_append] at hn
      exact Reads.bind (Reads.gap hg hgap) (Reads.rule (reads_chain ih h (by omega) hrest))
    · obtain ⟨g, hsplit, hg⟩ := gap_split cs
      have hgap : NextNot isGap (cs.dropWhile isGap) := fun d hd => by
        have := List.head?_dropWhile_not isGap cs
        simpa [Option.mem_def.1 hd] using this
      have hclose : Closes (cs.dropWhile isGap) := (Closes.behind_gap hg).1 (hsplit ▸ hc)
      rw [hsplit]
      refine Reads.bind_refuses (Reads.gap hg hgap) (Refuses.rule (Refuses.bind fun c a hrest => ?_))
      have hfails : (operand (expression n) c a).1 = none := operand_fails (hrest ▸ hclose)
      exact ⟨_, Prod.ext hfails rfl⟩

/-- An expression is read in full. -/
theorem reads_whole (h : Stratum.whole.Derives cs e) : Reads (whole cs.length) cs (.ok e) [] := by
  obtain ⟨g, ds, k, rfl, hg, hderives, hk⟩ := h.of_whole
  have hexpression : Reads (expression ((g ++ (ds ++ k)).length + 1)) (g ++ ds) (.ok e) ((k ++ []) ++ []) := by
    simp only [List.append_nil]
    refine (expression_complete _).reads hg hderives ?_ (List.append_nil k ▸ (Closes.behind_gap hk).2 (Or.inl rfl))
    simp only [List.length_append]
    omega
  have hend : Reads (Parser.rule .endOfInput atEnd) [] () [] :=
    Reads.rule fun c a hc => ⟨c, a, by simp [atEnd, hc], hc⟩
  have hnone : NextNot isGap ([] : List Char) := fun d hd => by cases hd
  have htext : g ++ (ds ++ k) = (g ++ ds) ++ (k ++ []) := by simp
  refine Reads.rule ?_
  rw [htext]
  exact Reads.bind (htext ▸ hexpression) (Reads.bind (Reads.gap hk hnone) (Reads.bind_pure hend))

end Grammar

namespace Expr

/-- The grammar reads a text as the one tree that the strata give it, and refuses any other text. -/
theorem read_eq_ok_iff {source : List Char} {e : Expr} : read source = .ok e ↔ Stratum.whole.Derives source e := by
  constructor
  · intro h
    unfold read at h
    split at h
    · cases h
    · cases h
    · rename_i heq
      cases h
      exact Grammar.whole_spelled heq
  · intro h
    obtain ⟨c', a', hwhole, -⟩ := Grammar.reads_whole h ⟨0, source⟩ {} (List.append_nil source).symm
    unfold read
    rw [hwhole]

/-- A text is read as a tree exactly if it is an expression of the strata with this tree, the scan finds it nested within
the limit and the tree is as deep as the limit at most. -/
theorem parse_eq_ok_iff (limit : Nat) (source : String) (e : Expr) : parse limit source = .ok e ↔
    Nesting.tooDeepAt? limit source.toList = none ∧ e.depth ≤ limit ∧ Stratum.whole.Derives source.toList e := by
  rw [← read_eq_ok_iff]
  unfold parse
  cases hscan : Nesting.tooDeepAt? limit source.toList with
  | some offset => simp
  | none =>
    cases hread : read source.toList with
    | error f => simp [bind, Except.bind]
    | ok e' =>
      simp only [bind, Except.bind, true_and, Except.ok.injEq]
      split
      · rename_i hdeep
        constructor
        · rintro ⟨⟩
        · rintro ⟨hdepth, rfl⟩
          exact absurd hdepth (Nat.not_le.2 hdeep)
      · rename_i hdepth
        constructor
        · rintro ⟨⟩
          exact ⟨Nat.not_lt.1 hdepth, rfl⟩
        · rintro ⟨-, rfl⟩
          rfl

end Expr

/-- A text is an expression in one way at most. -/
theorem Stratum.Derives.unique {cs : List Char} {e e' : Expr} (h : Stratum.whole.Derives cs e)
    (h' : Stratum.whole.Derives cs e') : e = e' := by
  have hread := Expr.read_eq_ok_iff.2 h
  rw [Expr.read_eq_ok_iff.2 h'] at hread
  exact (Except.ok.inj hread).symm

end Rowwise
