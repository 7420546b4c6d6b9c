import Rowwise.Proofs.Parsing.SpelledChain
import Rowwise.Proofs.Parsing.Words

/-!
# Rowwise.Proofs.Parsing.Soundness — what is read is an expression

Each parser of the grammar takes characters that the language allows for what it gives back.  A gap is taken together
with the word behind it, so the gap at the end of an expression is left to what comes next.
-/

namespace Rowwise

namespace Grammar

open Rowwise.Parser Spelling

variable {c c' : Cursor} {a a' : Attempts} {e : Expr} {inner : Parser (Decoded Expr)}

theorem gap_split (cs : List Char) : ∃ g, cs = g ++ cs.dropWhile isGap ∧ Gap g :=
  ⟨cs.takeWhile isGap, List.takeWhile_append_dropWhile.symm, fun _ hc => List.mem_takeWhile_imp hc⟩

theorem gap_spelled {u : Unit} (h : gap c a = (some (u, c'), a')) : ∃ g, c.rest = g ++ c'.rest ∧ Gap g := by
  rw [rest_of_gap h]
  exact gap_split c.rest

theorem symbol_spelled {s : String} {u : Unit} (h : symbol s c a = (some (u, c'), a')) :
    ∃ g, c.rest = g ++ (s.toList ++ c'.rest) ∧ Gap g := by
  rw [← rest_of_symbol h]
  exact gap_split c.rest

/-- What is read is a gap and an expression behind it. -/
def Sound (inner : Parser (Decoded Expr)) : Prop :=
  ∀ {c c' a a' e}, inner c a = (some (.ok e, c'), a') →
    ∃ g cs, c.rest = g ++ (cs ++ c'.rest) ∧ Gap g ∧ Stratum.disjunction.Derives cs e

/-! ### Primaries -/

theorem grouped_spelled (hin : Sound inner) (h : grouped inner c a = (some (.ok e, c'), a')) :
    ∃ w, c.rest = w ++ c'.rest ∧ Stratum.primary.Derives w e := by
  obtain ⟨t, c₁, a₁, hopen, h⟩ := bind_eq_some.1 (rule_eq_some.1 h)
  obtain ⟨x, c₂, a₂, hinner, h⟩ := bind_eq_some.1 h
  obtain ⟨u, c₃, a₃, hclose, h⟩ := bind_eq_some.1 h
  cases h
  have hparen : c.rest = '(' :: c₁.rest := rest_of_exactly hopen
  obtain ⟨g, cs, hcs, hg, hderives⟩ := hin hinner
  obtain ⟨k, hk, hgap⟩ := symbol_spelled hclose
  refine ⟨'(' :: ((g ++ (cs ++ k)) ++ [')']), ?_, .grouped (.whole hg hderives hgap)⟩
  rw [hparen, hcs, hk]
  simp

/-- The characters are expressions with gaps around them and commas between them. -/
def SpellsArguments (cs : List Char) (es : List Expr) : Prop :=
  ∃ args : List (List Char × Expr), args ≠ [] ∧ (∀ x ∈ args, Stratum.whole.Derives x.1 x.2) ∧
    cs = [','].intercalate (args.map Prod.fst) ∧ es = args.map Prod.snd

theorem SpellsArguments.one {cs : List Char} (h : Stratum.whole.Derives cs e) : SpellsArguments cs [e] :=
  ⟨[(cs, e)], by simp, by simpa using h, by simp [List.intercalate], rfl⟩

theorem SpellsArguments.cons {cs ds : List Char} {es : List Expr} (h : Stratum.whole.Derives cs e)
    (hs : SpellsArguments ds es) : SpellsArguments (cs ++ ',' :: ds) (e :: es) := by
  obtain ⟨args, hne, hargs, rfl, rfl⟩ := hs
  cases args with
  | nil => exact absurd rfl hne
  | cons x args =>
    refine ⟨(cs, e) :: x :: args, by simp, ?_, by simp, rfl⟩
    intro y hy
    rcases List.mem_cons.1 hy with rfl | hy
    · exact h
    · exact hargs y hy

/-- Commas and the expressions behind them.  The expression before them and the gap behind them are read elsewhere. -/
theorem commas_spelled (hin : Sound inner) {m : Nat} {xs : List (Decoded Expr)} {es : List Expr} {g cs k rest : List Char}
    (h : upTo m (do symbol ","; inner) c a = (some (xs, c'), a')) (hxs : xs.mapM id = .ok es) (hg : Gap g)
    (he : Stratum.disjunction.Derives cs e) (hk : Gap k) (hrest : c'.rest = k ++ rest) :
    ∃ w, g ++ (cs ++ c.rest) = w ++ rest ∧ SpellsArguments w (e :: es) := by
  induction m generalizing c a xs es g cs e with
  | zero =>
    cases h
    rw [mapM_id_nil hxs, hrest]
    exact ⟨g ++ (cs ++ k), by simp, .one (.whole hg he hk)⟩
  | succ m ih =>
    rcases upTo_succ h with ⟨rfl, rfl, -⟩ | ⟨x, c₁, a₁, ys, hx, hys, rfl⟩
    · rw [mapM_id_nil hxs, hrest]
      exact ⟨g ++ (cs ++ k), by simp, .one (.whole hg he hk)⟩
    · obtain ⟨e₁, es, rfl, hys', rfl⟩ := mapM_id_cons.1 hxs
      obtain ⟨u, c₂, a₂, hcomma, hinner⟩ := bind_eq_some.1 hx
      obtain ⟨k₁, hk₁, hgap⟩ := symbol_spelled hcomma
      obtain ⟨g₁, cs₁, hcs₁, hg₁, he₁⟩ := hin hinner
      obtain ⟨w, hw, hargs⟩ := ih hys hys' hg₁ he₁
      refine ⟨(g ++ (cs ++ k₁)) ++ ',' :: w, ?_, hargs.cons (.whole hg he hgap)⟩
      rw [hk₁, hcs₁, hw]
      simp

/-- The characters of the arguments, with the gap behind them. -/
theorem arguments_spelled (hin : Sound inner) {xs : List (Decoded Expr)} {es : List Expr} {k rest : List Char}
    (h : arguments inner c a = (some (xs, c'), a')) (hxs : xs.mapM id = .ok es) (hk : Gap k)
    (hrest : c'.rest = k ++ rest) :
    ∃ w, c.rest = w ++ rest ∧ (es = [] ∧ Gap w ∨ SpellsArguments w es) := by
  rcases orElse_eq_some.1 h with h | ⟨b, -, h⟩
  · obtain ⟨x, c₁, a₁, hinner, h⟩ := bind_eq_some.1 h
    obtain ⟨ys, c₂, a₂, hmany, h⟩ := bind_eq_some.1 h
    cases h
    obtain ⟨e, es, rfl, hys, rfl⟩ := mapM_id_cons.1 hxs
    obtain ⟨g, cs, hcs, hg, he⟩ := hin hinner
    obtain ⟨w, hw, hargs⟩ := commas_spelled hin hmany hys hg he hk hrest
    exact ⟨w, hcs.trans hw, Or.inr hargs⟩
  · cases h
    exact ⟨k, hrest, Or.inl ⟨mapM_id_nil hxs, hk⟩⟩

theorem call_spelled (hin : Sound inner) (h : call inner c a = (some (.ok e, c'), a')) :
    ∃ w, c.rest = w ++ c'.rest ∧ Stratum.primary.Derives w e := by
  obtain ⟨name, c₁, a₁, hname, h⟩ := bind_eq_some.1 (rule_eq_some.1 h)
  obtain ⟨u, c₂, a₂, hopen, h⟩ := bind_eq_some.1 h
  obtain ⟨xs, c₃, a₃, hargs, h⟩ := bind_eq_some.1 h
  obtain ⟨v, c₄, a₄, hclose, h⟩ := bind_eq_some.1 h
  simp only [pure_apply, Prod.mk.injEq, Option.some.injEq] at h
  obtain ⟨⟨hcall, rfl⟩, rfl⟩ := h
  cases hxs : xs.mapM id with
  | error bad => simp [hxs, bind, Except.bind] at hcall
  | ok es =>
    have he : e = .call (String.ofList name) es := by
      simpa [hxs, bind, Except.bind, pure, Except.pure, eq_comm] using hcall
    subst he
    obtain ⟨hc, hspelled⟩ := name?_spelled (rest_of_take (rule_eq_some.1 hname))
    obtain ⟨g, hg, hgap⟩ := symbol_spelled hopen
    obtain ⟨k, hk, hgap'⟩ := symbol_spelled hclose
    obtain ⟨w, hw, harguments⟩ := arguments_spelled hin hargs hxs hgap' hk
    refine ⟨name ++ (g ++ '(' :: (w ++ [')'])), ?_, ?_⟩
    · rw [hc, hg, hw]
      simp
    · rcases harguments with ⟨rfl, hempty⟩ | ⟨args, hne, hderives, rfl, rfl⟩
      · exact .callEmpty hspelled hgap hempty
      · exact .call hspelled hgap hne hderives

theorem primary_spelled (hin : Sound inner) (h : primary inner c a = (some (.ok e, c'), a')) :
    ∃ w, c.rest = w ++ c'.rest ∧ Stratum.primary.Derives w e := by
  rw [primary_eq] at h
  rcases orElse_eq_some.1 h with h | ⟨_, -, h⟩
  · exact grouped_spelled hin h
  rcases orElse_eq_some.1 h with h | ⟨_, -, h⟩
  · exact call_spelled hin h
  · obtain ⟨w, hw, hword⟩ := (word_of_words h).spelled
    exact ⟨w, hw, .word hword⟩

/-! ### Chains -/

/-- Signs before a primary and the gap between. -/
theorem signs_spelled {m : Nat} {signs : List UnaryOp} {g ps rest : List Char}
    (h : upTo m sign c a = (some (signs, c'), a')) (hg : Gap g) (hp : Stratum.primary.Derives ps e)
    (hrest : c'.rest = g ++ (ps ++ rest)) :
    ∃ k xs, c.rest = k ++ (xs ++ rest) ∧ Gap k ∧ SpellsOperand xs ⟨signs, e⟩ := by
  induction m generalizing c a signs with
  | zero =>
    cases h
    exact ⟨g, ps, hrest, hg, .primary hp⟩
  | succ m ih =>
    rcases upTo_succ h with ⟨rfl, rfl, -⟩ | ⟨op, c₁, a₁, ops, hsign, hops, rfl⟩
    · exact ⟨g, ps, hrest, hg, .primary hp⟩
    · obtain ⟨k, xs, hxs, hk, hoperand⟩ := ih hops
      obtain ⟨k₁, hk₁, hgap⟩ := gap_split c.rest
      refine ⟨k₁, op.symbol.toList ++ (k ++ xs), ?_, hgap, .sign hk hoperand⟩
      rw [hk₁, (signAt_of_sign hsign).symbol, hxs]
      simp

theorem operand_spelled (hin : Sound inner) {x : Operand} (h : operand inner c a = (some (.ok x, c'), a')) :
    ∃ g xs, c.rest = g ++ (xs ++ c'.rest) ∧ Gap g ∧ SpellsOperand xs x := by
  obtain ⟨signs, c₁, a₁, hsigns, h⟩ := bind_eq_some.1 h
  obtain ⟨u, c₂, a₂, hgap, h⟩ := bind_eq_some.1 h
  obtain ⟨y, c₃, a₃, hprimary, h⟩ := bind_eq_some.1 h
  simp only [pure_apply, Prod.mk.injEq, Option.some.injEq] at h
  obtain ⟨⟨hy, rfl⟩, rfl⟩ := h
  cases y with
  | error bad => simp [Except.map] at hy
  | ok e =>
    have hx : x = ⟨signs, e⟩ := by simpa [Except.map, eq_comm] using hy
    subst hx
    obtain ⟨g, hg, hgap⟩ := gap_spelled hgap
    obtain ⟨ps, hps, hderives⟩ := primary_spelled hin hprimary
    exact signs_spelled hsigns hgap hderives (by rw [hg, hps])

theorem link_spelled (hin : Sound inner) {l : BinaryOp × Operand} (h : link inner c a = (some (.ok l, c'), a')) :
    ∃ g k xs, c.rest = g ++ (l.1.symbol.toList ++ (k ++ (xs ++ c'.rest))) ∧ Gap g ∧ Gap k ∧ SpellsOperand xs l.2 := by
  obtain ⟨op, c₁, a₁, hop, h⟩ := bind_eq_some.1 h
  obtain ⟨y, c₂, a₂, hoperand, h⟩ := bind_eq_some.1 h
  simp only [pure_apply, Prod.mk.injEq, Option.some.injEq] at h
  obtain ⟨⟨hy, rfl⟩, rfl⟩ := h
  cases y with
  | error bad => simp [Except.map] at hy
  | ok x =>
    have hl : l = (op, x) := by simpa [Except.map, eq_comm] using hy
    subst hl
    obtain ⟨g, hg, hgap⟩ := gap_split c.rest
    obtain ⟨k, xs, hxs, hk, hspelled⟩ := operand_spelled hin hoperand
    refine ⟨g, k, xs, ?_, hgap, hk, hspelled⟩
    rw [hg, (operatorAt_of_operator hop).symbol, hxs]

theorem links_spelled (hin : Sound inner) {m : Nat} {xs : List (Decoded (BinaryOp × Operand))} {l : Links}
    (h : upTo m (link inner) c a = (some (xs, c'), a')) (hxs : xs.mapM id = .ok l) :
    ∃ ls, c.rest = ls ++ c'.rest ∧ SpellsLinks ls l := by
  induction m generalizing c a xs l with
  | zero =>
    cases h
    rw [mapM_id_nil hxs]
    exact ⟨[], rfl, .nil⟩
  | succ m ih =>
    rcases upTo_succ h with ⟨rfl, rfl, -⟩ | ⟨x, c₁, a₁, ys, hx, hys, rfl⟩
    · rw [mapM_id_nil hxs]
      exact ⟨[], rfl, .nil⟩
    · obtain ⟨⟨op, y⟩, l, rfl, hys', rfl⟩ := mapM_id_cons.1 hxs
      obtain ⟨g, k, zs, hc, hg, hk, hoperand⟩ := link_spelled hin hx
      obtain ⟨ls, hls, hlinks⟩ := ih hys hys'
      refine ⟨_, ?_, .cons hg hk hoperand hlinks⟩
      rw [hc, hls]
      simp

theorem chain_spelled (hin : Sound inner) : Sound (chain inner) := by
  intro c c' a a' e h
  obtain ⟨first, c₁, a₁, hfirst, h⟩ := bind_eq_some.1 h
  obtain ⟨xs, c₂, a₂, hmany, h⟩ := bind_eq_some.1 h
  simp only [pure_apply, Prod.mk.injEq, Option.some.injEq] at h
  obtain ⟨⟨htree, rfl⟩, rfl⟩ := h
  cases first with
  | error bad => simp [bind, Except.bind] at htree
  | ok x =>
    cases hxs : xs.mapM id with
    | error bad => simp [hxs, bind, Except.bind] at htree
    | ok l =>
      have he : e = Chain.tree ⟨x, l⟩ := by simpa [hxs, bind, Except.bind, pure, Except.pure, eq_comm] using htree
      obtain ⟨g, ys, hys, hg, hoperand⟩ := operand_spelled hin hfirst
      obtain ⟨ls, hls, hlinks⟩ := links_spelled hin hmany hxs
      refine ⟨g, ys ++ ls, ?_, hg, Stratum.derives_iff_chain.2 ⟨⟨x, l⟩, ys, ls, rfl, hoperand, hlinks, he⟩⟩
      rw [hys, hls]
      simp

/-! ### Expressions and whole texts -/

theorem expression_spelled (n : Nat) : Sound (expression n) := by
  induction n with
  | zero =>
    intro c c' a a' e h
    cases h
  | succ n ih =>
    intro c c' a a' e h
    obtain ⟨u, c₁, a₁, hgap, hchain⟩ := bind_eq_some.1 h
    obtain ⟨k, hk, hgap⟩ := gap_spelled hgap
    obtain ⟨g, cs, hcs, hg, hderives⟩ := chain_spelled ih (rule_eq_some.1 hchain)
    refine ⟨k ++ g, cs, by rw [hk, hcs]; simp, ?_, hderives⟩
    intro d hd
    exact (List.mem_append.1 hd).elim (hgap d) (hg d)

/-- A text that is read in full is an expression. -/
theorem whole_spelled {length : Nat} (h : whole length c a = (some (.ok e, c'), a')) :
    Stratum.whole.Derives c.rest e := by
  obtain ⟨x, c₁, a₁, hexpression, h⟩ := bind_eq_some.1 (rule_eq_some.1 h)
  obtain ⟨u, c₂, a₂, hgap, h⟩ := bind_eq_some.1 h
  obtain ⟨v, c₃, a₃, hend, h⟩ := bind_eq_some.1 h
  cases h
  obtain ⟨g, cs, hcs, hg, hderives⟩ := expression_spelled _ hexpression
  obtain ⟨k, hk, hgap⟩ := gap_spelled hgap
  rw [hcs, hk, rest_of_atEnd (rule_eq_some.1 hend), List.append_nil]
  exact .whole hg hderives hgap

end Grammar

end Rowwise
