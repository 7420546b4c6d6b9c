import Mathlib.Data.List.DropRight
import Rowwise.Expr.Parse
import Rowwise.Proofs.Parsing.ChainTree
import Rowwise.Proofs.Parsing.Scanning
import Rowwise.Proofs.Parsing.TreeDepth
import Rowwise.Proofs.Parsing.Words

/-!
# Rowwise.Proofs.Parsing.NestingBound — the scan bounds the tree and the descent

Where the scan accepts a text and the grammar reads it as a legible tree, the scan goes along with the grammar from word
to word, and its bound is never below the height of what has been read.  The grammar enters no parentheses that the scan
has not entered, so it reads the same when the expression inside the parentheses below the limit is replaced by any other
parser (`Grammar.expressionOver`).
-/

namespace Rowwise

namespace Grammar

open Rowwise.Parser

/-! ### The grammar with a floor -/

/-- Expressions with parentheses nested at most `n` deep; inside the deepest of them `floor` reads. -/
def expressionOver (floor : Parser (Decoded Expr)) : Nat → Parser (Decoded Expr)
  | 0 => floor
  | n + 1 => do
    gap
    rule .expression (chain (expressionOver floor n))

/-- A whole text, read with a floor. -/
def wholeOver (floor : Parser (Decoded Expr)) (n : Nat) : Parser (Decoded Expr) :=
  rule .whole do
    let e ← expressionOver floor n
    gap
    rule .endOfInput atEnd
    return e

theorem expression_eq_over (n : Nat) : expression n = expressionOver fail n := by
  induction n with
  | zero => rfl
  | succ n ih => simp only [expression, expressionOver, ih]

variable {c c' : Cursor} {a a' : Attempts} {e : Expr} {cs rest : List Char}

/-! ### Signs -/

open Nesting (State Ready Walk)
open Nesting.Budget (total_grown le_total_grown)

variable {limit n j : Nat} {s : State}

theorem walk_signs {m : Nat} {signs : List UnaryOp} (h : upTo m sign c a = (some (signs, c'), a')) (hs : s.Fresh)
    (hr : Ready limit s c.rest) : ∃ s', Walk limit s c.rest signs.length 0 s' c'.rest ∧ s'.Fresh := by
  induction m generalizing c a s signs with
  | zero =>
    cases h
    exact ⟨s, Walk.refl hr, hs⟩
  | succ m ih =>
    rcases upTo_succ h with ⟨rfl, rfl, -⟩ | ⟨op, c₁, a₁, ops, hsign, hops, rfl⟩
    · exact ⟨s, Walk.refl hr, hs⟩
    · obtain ⟨s₁, hw₁, -, hfresh₁⟩ := Nesting.walk_gap hr
      obtain ⟨s₂, hw₂, hfresh₂⟩ := Nesting.walk_unary (signAt_of_sign hsign) (hfresh₁ hs).calm hw₁.ready
      obtain ⟨s₃, hw₃, hfresh₃⟩ := ih hops hfresh₂ hw₂.ready
      refine ⟨s₃, ?_, hfresh₃⟩
      have hw := (hw₁.trans hw₂).trans hw₃
      rwa [Nat.zero_add, Nat.add_comm] at hw

theorem signs_of_closes {m : Nat} {signs : List UnaryOp} (h : upTo m sign c a = (some (signs, c'), a'))
    (hc : Closes c.rest) : c' = c := by
  cases m with
  | zero =>
    cases h
    rfl
  | succ m =>
    rcases upTo_succ h with ⟨-, rfl, -⟩ | ⟨op, c₁, a₁, ops, hsign, -, -⟩
    · rfl
    · exact absurd (signAt_of_sign hsign) hc.not_signAt

/-! ### Expressions in parentheses -/

/-- On texts shorter than `n` and within `j` parentheses, `inner'` reads what `inner` reads of legible trees; the scan
goes along, and its bound is not below the height of the tree. -/
structure Followed (limit n j : Nat) (inner inner' : Parser (Decoded Expr)) : Prop where
  read : ∀ {c c' a a' e} {s : State}, inner c a = (some (.ok e, c'), a') → e.isLegible = true → c.rest.length < n →
    Ready limit s c.rest → s.around.length = j → s.Fresh → Closes c'.rest →
    inner' c a = inner c a ∧ ∃ k d s', Walk limit s c.rest k d s' c'.rest ∧ e.height ≤ k + max d 1
  refused : ∀ {c a}, c.rest.length < n → Closes c.rest → inner' c a = inner c a

variable {inner inner' : Parser (Decoded Expr)}

theorem grouped_read (hin : j + 1 ≤ limit → Followed limit n (j + 1) inner inner')
    (h : grouped inner c a = (some (.ok e, c'), a')) (he : e.isLegible = true) (hn : c.rest.length ≤ n)
    (hr : Ready limit s c.rest) (hj : s.around.length = j) : grouped inner' c a = grouped inner c a ∧
      ∃ d s', Walk limit s c.rest 0 d s' c'.rest ∧ s'.Calm ∧ e.height ≤ max d 1 := by
  obtain ⟨t, c₁, a₁, hopen, hrest⟩ := bind_eq_some.1 (rule_eq_some.1 h)
  obtain ⟨x, c₂, a₂, hinner, hrest⟩ := bind_eq_some.1 hrest
  obtain ⟨u, c₃, a₃, hclose, hrest⟩ := bind_eq_some.1 hrest
  cases hrest
  have hcs : c.rest = '(' :: c₁.rest := rest_of_exactly hopen
  have hgap : c₂.rest.dropWhile isGap = ')' :: c'.rest := rest_of_symbol hclose
  rw [hcs] at hr hn ⊢
  obtain ⟨hle, hready⟩ := hr.inside
  obtain ⟨hsame, k, d, s₂, hw, hheight⟩ := (hin (hj ▸ hle)).read hinner he (Nat.lt_of_succ_le hn) hready
    (by simp [State.inside, hj]) s.fresh_inside (Or.inr (Or.inl (by rw [hgap]; rfl)))
  refine ⟨rule_congr (bind_congr_of_eq_some rfl hopen (bind_congr hsame fun _ _ _ _ => rfl)), ?_⟩
  · obtain ⟨s₃, hw₃, hcalm⟩ := Nesting.walk_parentheses (s := s) hw.ready hw.around hw.shorter hgap
    refine ⟨_, s₃, hw₃, hcalm, ?_⟩
    rw [hw.current, show s.inside.current = {} from rfl, total_grown]
    omega

theorem grouped_refused (h : c.rest.head? ≠ some '(') : grouped inner' c a = grouped inner c a := by
  refine rule_congr (bind_congr rfl fun t c₁ a₁ hopen => ?_)
  rw [rest_of_exactly hopen] at h
  exact absurd rfl h

/-! ### Arguments -/

/-- The scan has gone past arguments of the height `h`. -/
structure Passed (limit : Nat) (s : State) (cs : List Char) (h : Nat) (s' : State) (cs' : List Char) : Prop where
  ready : Ready limit s' cs'
  around : s'.around = s.around
  total : max s.current.total h ≤ s'.current.total
  shorter : cs'.length ≤ cs.length

theorem Passed.refl {cs : List Char} (hr : Ready limit s cs) : Passed limit s cs 0 s cs :=
  ⟨hr, rfl, by rw [Nat.max_zero], Nat.le_refl _⟩

theorem Passed.trans {s' s'' : State} {cs cs' cs'' : List Char} {h h' : Nat} (hp : Passed limit s cs h s' cs')
    (hp' : Passed limit s' cs' h' s'' cs'') : Passed limit s cs (max h h') s'' cs'' := by
  refine ⟨hp'.ready, hp'.around.trans hp.around, ?_, Nat.le_trans hp'.shorter hp.shorter⟩
  have htotal := hp.total
  have htotal' := hp'.total
  omega

theorem Passed.of_walk {s' : State} {cs cs' : List Char} {k d h : Nat} (hw : Walk limit s cs k d s' cs')
    (hh : h ≤ k + max d 1) : Passed limit s cs h s' cs' := by
  refine ⟨hw.ready, hw.around, ?_, hw.shorter⟩
  obtain ⟨htotal, hgrown⟩ := le_total_grown s.current k d
  rw [hw.current]
  omega

/-- An argument ends at a comma. -/
theorem Passed.behindComma {cs : List Char} (hlimit : 1 ≤ limit) (hr : Ready limit s (',' :: cs)) :
    Passed limit s (',' :: cs) 0 s.behindComma cs := by
  refine ⟨hr.behindComma hlimit, rfl, ?_, Nat.le_succ _⟩
  simp only [State.behindComma, Nesting.Budget.nextArgument, Nesting.Budget.total]
  omega

theorem closes_of_comma {xs : List (Decoded Expr)} {m : Nat}
    (h : upTo m (do symbol ","; inner) c a = (some (xs, c'), a'))
    (hend : (c'.rest.dropWhile isGap).head? = some ')') : Closes c.rest := by
  cases m with
  | zero =>
    cases h
    exact Or.inr (Or.inl hend)
  | succ m =>
    rcases upTo_succ h with ⟨-, rfl, -⟩ | ⟨x, c₁, a₁, ys, hx, -, -⟩
    · exact Or.inr (Or.inl hend)
    · obtain ⟨u, c₂, a₂, hcomma, -⟩ := bind_eq_some.1 hx
      refine Or.inr (Or.inr ?_)
      rw [rest_of_symbol hcomma]
      rfl

theorem comma_refused (hend : (c.rest.dropWhile isGap).head? = some ')') :
    (do symbol ","; inner' : Parser (Decoded Expr)) c a = (do symbol ","; inner : Parser (Decoded Expr)) c a := by
  refine bind_congr rfl fun u c₁ a₁ hcomma => ?_
  rw [rest_of_symbol hcomma] at hend
  cases hend

/-- A comma and the argument behind it. -/
theorem comma_read (hin : Followed limit n j inner inner') (hlimit : 1 ≤ limit)
    (h : (do symbol ","; inner : Parser (Decoded Expr)) c a = (some (.ok e, c'), a')) (he : e.isLegible = true)
    (hn : c.rest.length < n) (hr : Ready limit s c.rest) (hj : s.around.length = j) (hc : Closes c'.rest) :
    (do symbol ","; inner' : Parser (Decoded Expr)) c a = (do symbol ","; inner : Parser (Decoded Expr)) c a ∧
      ∃ s', Passed limit s c.rest e.height s' c'.rest := by
  obtain ⟨u, c₁, a₁, hcomma, hinner⟩ := bind_eq_some.1 h
  obtain ⟨s₁, hw₁, -, -⟩ := Nesting.walk_gap hr
  rw [rest_of_symbol hcomma] at hw₁
  have hp₁ : Passed limit s c.rest 0 s₁ (',' :: c₁.rest) := .of_walk hw₁ (Nat.zero_le _)
  have hp₂ := hp₁.trans (.behindComma hlimit hw₁.ready)
  have hshort : c₁.rest.length < c.rest.length := hp₁.shorter
  obtain ⟨hsame, k, d, s₂, hw, hheight⟩ := hin.read hinner he (by omega) hp₂.ready (hp₂.around ▸ hj)
    s₁.fresh_behindComma hc
  refine ⟨bind_congr_of_eq_some rfl hcomma hsame, s₂, ?_⟩
  simpa using hp₂.trans (.of_walk hw hheight)

theorem commas_read {es : List Expr} {xs : List (Decoded Expr)} {m : Nat}
    (hin : Followed limit n j inner inner') (hlimit : 1 ≤ limit)
    (h : upTo m (do symbol ","; inner) c a = (some (xs, c'), a')) (hxs : xs.mapM id = .ok es)
    (he : Expr.areLegible es = true) (hn : c.rest.length < n) (hr : Ready limit s c.rest) (hj : s.around.length = j)
    (hend : (c'.rest.dropWhile isGap).head? = some ')') :
    upTo m (do symbol ","; inner') c a = upTo m (do symbol ","; inner) c a ∧
      ∃ s', Passed limit s c.rest (Expr.heights es) s' c'.rest := by
  induction m generalizing c a s xs es with
  | zero =>
    cases h
    rw [mapM_id_nil hxs]
    exact ⟨by rw [upTo_zero, upTo_zero], s, .refl hr⟩
  | succ m ih =>
    rcases upTo_succ h with ⟨rfl, rfl, hnone⟩ | ⟨x, c₁, a₁, ys, hx, hys, rfl⟩
    · rw [mapM_id_nil hxs]
      exact ⟨upTo_congr_of_eq_none (comma_refused hend) hnone, s, .refl hr⟩
    · obtain ⟨e, es, rfl, hys', rfl⟩ := mapM_id_cons.1 hxs
      simp only [Expr.areLegible, Bool.and_eq_true] at he
      obtain ⟨hsame, s₁, hp₁⟩ := comma_read hin hlimit hx he.1 hn hr hj (closes_of_comma hys hend)
      have hshort := hp₁.shorter
      obtain ⟨hrest, s₂, hp₂⟩ := ih hys hys' he.2 (by omega) hp₁.ready (hp₁.around ▸ hj)
      exact ⟨upTo_congr_of_eq_some hsame hx hrest, s₂, hp₁.trans hp₂⟩

theorem arguments_read {es : List Expr} {xs : List (Decoded Expr)} (hin : Followed limit n j inner inner')
    (hlimit : 1 ≤ limit) (h : arguments inner c a = (some (xs, c'), a')) (hxs : xs.mapM id = .ok es)
    (he : Expr.areLegible es = true) (hn : c.rest.length < n) (hr : Ready limit s c.rest) (hj : s.around.length = j)
    (hs : s.Fresh) (hend : (c'.rest.dropWhile isGap).head? = some ')') :
    arguments inner' c a = arguments inner c a ∧ ∃ s', Passed limit s c.rest (Expr.heights es) s' c'.rest := by
  rcases orElse_eq_some.1 h with hsome | ⟨b, hnone, hempty⟩
  · obtain ⟨x, c₁, a₁, hinner, hrest⟩ := bind_eq_some.1 hsome
    obtain ⟨ys, c₂, a₂, hmany, hrest⟩ := bind_eq_some.1 hrest
    cases hrest
    obtain ⟨e, es, rfl, hys, rfl⟩ := mapM_id_cons.1 hxs
    simp only [Expr.areLegible, Bool.and_eq_true] at he
    obtain ⟨hsame, k, d, s₁, hw, hheight⟩ := hin.read hinner he.1 hn hr hj hs (closes_of_comma hmany hend)
    have hshort := hw.shorter
    obtain ⟨hrest, s₂, hp⟩ := commas_read hin hlimit hmany hys he.2 (by omega) hw.ready (hw.around ▸ hj) hend
    have hfirst : (inner' >>= fun x => many (do symbol ","; inner') >>= fun ys => pure (x :: ys)) c a =
        (inner >>= fun x => many (do symbol ","; inner) >>= fun ys => pure (x :: ys)) c a :=
      bind_congr_of_eq_some hsame hinner (bind_congr hrest fun _ _ _ _ => rfl)
    exact ⟨orElse_congr hfirst fun _ _ => rfl, s₂, (Passed.of_walk hw hheight).trans hp⟩
  · cases hempty
    cases hxs
    have hrefused := hin.refused (a := a) hn (Or.inr (Or.inl hend))
    refine ⟨orElse_congr (bind_congr hrefused fun x c₁ a₁ hx => ?_) fun _ _ => rfl, s, .refl hr⟩
    -- the first argument was refused, since the rest of a list of arguments never fails
    rcases bind_eq_none.1 hnone with hnone | ⟨x, c₂, a₂, -, hrest⟩
    · rw [hrefused, hnone] at hx
      cases hx
    · rcases bind_eq_none.1 hrest with hmany | ⟨_, _, _, -, hpure⟩
      · obtain ⟨ys, c₃, a₃, hsucceeds⟩ := upTo_succeeds (c₂.rest.length + 1) (do symbol ","; inner) c₂ a₂
        rw [many, hsucceeds] at hmany
        cases hmany
      · cases hpure

/-! ### Calls and primaries -/

theorem call_read (hin : j + 1 ≤ limit → Followed limit n (j + 1) inner inner')
    (h : call inner c a = (some (.ok e, c'), a')) (he : e.isLegible = true) (hn : c.rest.length ≤ n)
    (hr : Ready limit s c.rest) (hj : s.around.length = j) (hs : s.Fresh) : call inner' c a = call inner c a ∧
      ∃ d s', Walk limit s c.rest 0 d s' c'.rest ∧ s'.Calm ∧ e.height ≤ max d 1 := by
  obtain ⟨name, c₁, a₁, hname, hrest⟩ := bind_eq_some.1 (rule_eq_some.1 h)
  obtain ⟨u, c₂, a₂, hopen, hrest⟩ := bind_eq_some.1 hrest
  obtain ⟨xs, c₃, a₃, hargs, hrest⟩ := bind_eq_some.1 hrest
  obtain ⟨v, c₄, a₄, hclose, hrest⟩ := bind_eq_some.1 hrest
  simp only [pure_apply, Prod.mk.injEq, Option.some.injEq] at hrest
  obtain ⟨⟨hcall, rfl⟩, rfl⟩ := hrest
  cases hxs : xs.mapM id with
  | error bad => simp [hxs, bind, Except.bind] at hcall
  | ok es =>
    have he' : e = .call (String.ofList name) es := by simpa [hxs, bind, Except.bind, pure, Except.pure, eq_comm] using hcall
    subst he'
    obtain ⟨s₁, hw₁, -⟩ := Nesting.walk_name (rest_of_take (rule_eq_some.1 hname)) hs hr
    obtain ⟨s₂, hw₂, -, -⟩ := Nesting.walk_gap hw₁.ready
    have hgap₁ := rest_of_symbol hopen
    have hgap₂ := rest_of_symbol hclose
    rw [hgap₁] at hw₂
    have hw := hw₁.idle hw₂
    have hshort : c₂.rest.length < c.rest.length := hw.shorter
    obtain ⟨hle, hready⟩ := hw.ready.inside
    have hj₂ : s₂.around.length = j := hw.around ▸ hj
    obtain ⟨hsame, s₃, hp⟩ := arguments_read (hin (hj₂ ▸ hle)) (by omega) hargs hxs
      (by simpa [Expr.isLegible] using he) (by omega) hready (by simp [State.inside, hj₂]) s₂.fresh_inside
      (by rw [hgap₂]; rfl)
    obtain ⟨s₄, hw₄, hcalm⟩ := Nesting.walk_parentheses (s := s₂) hp.ready hp.around hp.shorter hgap₂
    refine ⟨?_, _, s₄, by simpa using hw.trans hw₄, hcalm, ?_⟩
    · refine rule_congr (bind_congr_of_eq_some rfl hname (bind_congr_of_eq_some rfl hopen ?_))
      exact bind_congr hsame fun _ _ _ _ => rfl
    · have htotal := hp.total
      simp only [Expr.height]
      omega

theorem call_refused (h : ∀ taken rest, name? c.rest = some (taken, rest) → Unopened rest) :
    call inner' c a = call inner c a := by
  refine rule_congr (bind_congr rfl fun name c₁ a₁ hname => bind_congr rfl fun u c₂ a₂ hopen => ?_)
  have hunopened := h _ _ (rest_of_take (rule_eq_some.1 hname))
  rw [Unopened, rest_of_symbol hopen] at hunopened
  exact absurd rfl hunopened

theorem primary_refused (h : c.rest.head? = none ∨ c.rest.head? = some ')' ∨ c.rest.head? = some ',') :
    primary inner' c a = primary inner c a := by
  rw [primary_eq, primary_eq]
  have hname : name? c.rest = none := by
    cases hcs : c.rest with
    | nil => rfl
    | cons d cs =>
      rw [hcs] at h
      rcases h with h | h | h
      · cases h
      · cases h
        exact name?_eq_none (by decide)
      · cases h
        exact name?_eq_none (by decide)
  refine orElse_congr (grouped_refused ?_) fun b _ => orElse_congr (call_refused ?_) fun _ _ => rfl
  · intro hopen
    rcases h with h | h | h <;> rw [h] at hopen <;> cases hopen
  · intro taken rest htaken
    rw [hname] at htaken
    cases htaken

theorem primary_fails (h : c.rest.head? = none ∨ c.rest.head? = some ')' ∨ c.rest.head? = some ',') :
    (primary inner c a).1 = none := by
  obtain ⟨offset, cs⟩ := c
  cases cs with
  | nil => rfl
  | cons d cs =>
    rcases h with h | h | h
    · cases h
    · cases h
      rfl
    · cases h
      rfl

theorem primary_read (hin : j + 1 ≤ limit → Followed limit n (j + 1) inner inner')
    (h : primary inner c a = (some (.ok e, c'), a')) (he : e.isLegible = true) (hn : c.rest.length ≤ n)
    (hr : Ready limit s c.rest) (hj : s.around.length = j) (hs : s.Fresh) (hc : Unopened c'.rest) :
    primary inner' c a = primary inner c a ∧
      ∃ d s', Walk limit s c.rest 0 d s' c'.rest ∧ s'.Calm ∧ e.height ≤ max d 1 := by
  rw [primary_eq] at h
  rw [primary_eq, primary_eq]
  rcases orElse_eq_some.1 h with hgrouped | ⟨b, hgrouped, h⟩
  · obtain ⟨hsame, hwalk⟩ := grouped_read hin hgrouped he hn hr hj
    refine ⟨orElse_congr hsame fun b hb => ?_, hwalk⟩
    rw [hsame, hgrouped] at hb
    cases hb
  rcases orElse_eq_some.1 h with hcall | ⟨b', hcall, h⟩
  · obtain ⟨hsame, hwalk⟩ := call_read hin hcall he hn hr hj hs
    have hhead : c.rest.head? ≠ some '(' := by
      obtain ⟨name, c₁, a₁, hname, -⟩ := bind_eq_some.1 (rule_eq_some.1 hcall)
      exact name?_head? (rest_of_take (rule_eq_some.1 hname))
    refine ⟨orElse_congr (grouped_refused hhead) fun d hd => ?_, hwalk⟩
    rw [grouped_refused hhead, hgrouped] at hd
    cases hd
    exact orElse_congr hsame fun _ _ => rfl
  · have hword := word_of_words h
    refine ⟨orElse_congr (grouped_refused hword.head?) fun d hd => orElse_congr (call_refused ?_) fun _ _ => rfl, ?_⟩
    · intro taken rest htaken
      rwa [← hword.rest_of_name htaken]
    · obtain ⟨s', hw, hcalm⟩ := Nesting.walk_word hword he hs hr
      exact ⟨0, s', hw, hcalm, by rw [hword.height]; exact Nat.le_max_right 0 1⟩

/-! ### Chains -/

theorem operand_read {x : Operand} (hin : j + 1 ≤ limit → Followed limit n (j + 1) inner inner')
    (h : operand inner c a = (some (.ok x, c'), a')) (hx : x.primary.isLegible = true) (hn : c.rest.length ≤ n)
    (hr : Ready limit s c.rest) (hj : s.around.length = j) (hs : s.Fresh) (hc : Unopened c'.rest) :
    operand inner' c a = operand inner c a ∧
      ∃ d s', Walk limit s c.rest x.signs.length d s' c'.rest ∧ s'.Calm ∧ x.primary.height ≤ max d 1 := by
  obtain ⟨signs, c₁, a₁, hsigns, hrest⟩ := bind_eq_some.1 h
  obtain ⟨u, c₂, a₂, hgap, hrest⟩ := bind_eq_some.1 hrest
  obtain ⟨y, c₃, a₃, hprimary, hrest⟩ := bind_eq_some.1 hrest
  simp only [pure_apply, Prod.mk.injEq, Option.some.injEq] at hrest
  obtain ⟨⟨hy, rfl⟩, rfl⟩ := hrest
  cases y with
  | error bad => simp [Except.map] at hy
  | ok e =>
    have hx' : x = ⟨signs, e⟩ := by simpa [Except.map, eq_comm] using hy
    subst hx'
    obtain ⟨s₁, hw₁, hfresh₁⟩ := walk_signs hsigns hs hr
    obtain ⟨s₂, hw₂, -, hfresh₂⟩ := Nesting.walk_gap hw₁.ready
    rw [← rest_of_gap hgap] at hw₂
    have hw := hw₁.idle hw₂
    have hshort := hw.shorter
    obtain ⟨hsame, d, s₃, hw₃, hcalm, hheight⟩ := primary_read hin hprimary hx (by omega) hw.ready (hw.around ▸ hj)
      (hfresh₂ hfresh₁) hc
    refine ⟨?_, d, s₃, by simpa using hw.trans hw₃, hcalm, hheight⟩
    refine bind_congr_of_eq_some rfl hsigns (bind_congr_of_eq_some rfl hgap ?_)
    exact bind_congr hsame fun _ _ _ _ => rfl

theorem operand_refused (h : Closes c.rest) : operand inner' c a = operand inner c a := by
  refine bind_congr rfl fun signs c₁ a₁ hsigns => ?_
  rw [signs_of_closes hsigns h]
  refine bind_congr rfl fun u c₂ a₂ hgap => bind_congr (primary_refused ?_) fun _ _ _ _ => rfl
  rw [rest_of_gap hgap]
  exact h

theorem operand_fails (h : Closes c.rest) : (operand inner c a).1 = none := by
  rcases hx : operand inner c a with ⟨_ | ⟨x, c'⟩, a'⟩
  · rfl
  · obtain ⟨signs, c₁, a₁, hsigns, hrest⟩ := bind_eq_some.1 hx
    obtain ⟨u, c₂, a₂, hgap, hrest⟩ := bind_eq_some.1 hrest
    obtain ⟨y, c₃, a₃, hprimary, -⟩ := bind_eq_some.1 hrest
    rw [signs_of_closes hsigns h] at hgap
    have hfails : (primary inner c₂ a₂).1 = none := primary_fails (by rw [rest_of_gap hgap]; exact h)
    rw [hprimary] at hfails
    cases hfails

theorem link_refused (h : Closes c.rest) : link inner' c a = link inner c a :=
  bind_congr rfl fun _ _ _ hop => absurd (operatorAt_of_operator hop) h.not_operatorAt

theorem unopened_of_links {xs : List (Decoded (BinaryOp × Operand))} {m : Nat}
    (h : upTo m (link inner) c a = (some (xs, c'), a')) (hc : Closes c'.rest) : Unopened c.rest := by
  cases m with
  | zero =>
    cases h
    exact hc.unopened
  | succ m =>
    rcases upTo_succ h with ⟨-, rfl, -⟩ | ⟨x, c₁, a₁, ys, hx, -, -⟩
    · exact hc.unopened
    · obtain ⟨op, c₂, a₂, hop, -⟩ := bind_eq_some.1 hx
      obtain ⟨d, hd, hopen, -, -⟩ := (operatorAt_of_operator hop).head?
      rw [Unopened, hd]
      simpa using hopen

/-- A binary operator and the operand behind it. -/
theorem link_read {l : BinaryOp × Operand} (hin : j + 1 ≤ limit → Followed limit n (j + 1) inner inner')
    (h : link inner c a = (some (.ok l, c'), a')) (hl : l.2.primary.isLegible = true) (hn : c.rest.length ≤ n)
    (hr : Ready limit s c.rest) (hj : s.around.length = j) (hs : s.Calm) (hc : Unopened c'.rest) :
    link inner' c a = link inner c a ∧
      ∃ d s', Walk limit s c.rest (l.2.signs.length + 1) d s' c'.rest ∧ s'.Calm ∧ l.2.primary.height ≤ max d 1 := by
  obtain ⟨op, c₁, a₁, hop, hrest⟩ := bind_eq_some.1 h
  obtain ⟨y, c₂, a₂, hoperand, hrest⟩ := bind_eq_some.1 hrest
  simp only [pure_apply, Prod.mk.injEq, Option.some.injEq] at hrest
  obtain ⟨⟨hy, rfl⟩, rfl⟩ := hrest
  cases y with
  | error bad => simp [Except.map] at hy
  | ok x =>
    have hlink : l = (op, x) := by simpa [Except.map, eq_comm] using hy
    subst hlink
    obtain ⟨s₁, hw₁, hcalm₁, -⟩ := Nesting.walk_gap hr
    obtain ⟨s₂, hw₂, hfresh⟩ := Nesting.walk_binary (operatorAt_of_operator hop) (hcalm₁ hs) hw₁.ready
    have hw := hw₁.trans hw₂
    have hshort := hw.shorter
    obtain ⟨hsame, d, s₃, hw₃, hcalm, hheight⟩ := operand_read hin hoperand hl (by omega) hw.ready (hw.around ▸ hj)
      hfresh hc
    refine ⟨bind_congr_of_eq_some rfl hop (bind_congr hsame fun _ _ _ _ => rfl), d, s₃, ?_, hcalm, hheight⟩
    have hwalk := hw.trans hw₃
    rwa [Nat.max_self, Nat.zero_max, Nat.zero_add, Nat.add_comm] at hwalk

theorem links_read {xs : List (Decoded (BinaryOp × Operand))} {links : List (BinaryOp × Operand)} {m : Nat}
    (hin : j + 1 ≤ limit → Followed limit n (j + 1) inner inner')
    (h : upTo m (link inner) c a = (some (xs, c'), a')) (hxs : xs.mapM id = .ok links)
    (he : ∀ l ∈ links, l.2.primary.isLegible = true) (hn : c.rest.length ≤ n) (hr : Ready limit s c.rest)
    (hj : s.around.length = j) (hs : s.Calm) (hc : Closes c'.rest) :
    upTo m (link inner') c a = upTo m (link inner) c a ∧
      ∃ d s', Walk limit s c.rest (Links.count links) d s' c'.rest ∧
        ∀ l ∈ links, l.2.primary.height ≤ max d 1 := by
  induction m generalizing c a s xs links with
  | zero =>
    cases h
    rw [mapM_id_nil hxs]
    exact ⟨by rw [upTo_zero, upTo_zero], 0, s, Walk.refl hr, by simp⟩
  | succ m ih =>
    rcases upTo_succ h with ⟨rfl, rfl, hnone⟩ | ⟨x, c₁, a₁, ys, hx, hys, rfl⟩
    · rw [mapM_id_nil hxs]
      exact ⟨upTo_congr_of_eq_none (link_refused hc) hnone, 0, s, Walk.refl hr, by simp⟩
    · obtain ⟨l, links, rfl, hys', rfl⟩ := mapM_id_cons.1 hxs
      obtain ⟨hsame, d, s₁, hw₁, hcalm, hheight⟩ := link_read hin hx (he l List.mem_cons_self) hn hr hj hs
        (unopened_of_links hys hc)
      have hshort := hw₁.shorter
      obtain ⟨hrest, d', s₂, hw₂, hheights⟩ := ih hys hys' (fun l hl => he l (List.mem_cons_of_mem _ hl)) (by omega)
        hw₁.ready (hw₁.around ▸ hj) hcalm
      refine ⟨upTo_congr_of_eq_some hsame hx hrest, max d d', s₂, ?_, fun m hm => ?_⟩
      · rw [Links.count]
        exact hw₁.trans hw₂
      · rcases List.mem_cons.1 hm with rfl | hm
        · exact Nat.le_trans hheight (by omega)
        · exact Nat.le_trans (hheights m hm) (by omega)

/-- A legible tree passes legibility on to the primaries of its chain. -/
theorem legible_of_tree (ch : Chain) (h : ch.tree.isLegible = true) : ∀ x ∈ ch.operands, x.primary.isLegible = true :=
  ch.forall_of_tree (P := fun e => e.isLegible = true) (fun _ _ he => he)
    (fun _ _ _ he => by simpa [Expr.isLegible] using he) h

theorem chain_read (hin : j + 1 ≤ limit → Followed limit n (j + 1) inner inner')
    (h : chain inner c a = (some (.ok e, c'), a')) (he : e.isLegible = true) (hn : c.rest.length ≤ n)
    (hr : Ready limit s c.rest) (hj : s.around.length = j) (hs : s.Fresh) (hc : Closes c'.rest) :
    chain inner' c a = chain inner c a ∧
      ∃ k d s', Walk limit s c.rest k d s' c'.rest ∧ e.height ≤ k + max d 1 := by
  obtain ⟨first, c₁, a₁, hfirst, hrest⟩ := bind_eq_some.1 h
  obtain ⟨xs, c₂, a₂, hmany, hrest⟩ := bind_eq_some.1 hrest
  simp only [pure_apply, Prod.mk.injEq, Option.some.injEq] at hrest
  obtain ⟨⟨htree, rfl⟩, rfl⟩ := hrest
  cases first with
  | error bad => simp [bind, Except.bind] at htree
  | ok x =>
    cases hxs : xs.mapM id with
    | error bad => simp [hxs, bind, Except.bind] at htree
    | ok links =>
      have he' : e = Chain.tree ⟨x, links⟩ := by
        simpa [hxs, bind, Except.bind, pure, Except.pure, eq_comm] using htree
      subst he'
      have hlegible := legible_of_tree ⟨x, links⟩ he
      obtain ⟨hsame, d, s₁, hw₁, hcalm, hheight⟩ := operand_read hin hfirst (hlegible x (by simp [Chain.operands])) hn hr
        hj hs (unopened_of_links hmany hc)
      have hshort := hw₁.shorter
      obtain ⟨hlinks, d', s₂, hw₂, hheights⟩ := links_read hin hmany hxs
        (fun l hl => hlegible l.2 (List.mem_cons_of_mem _ (List.mem_map_of_mem hl))) (by omega) hw₁.ready
        (hw₁.around ▸ hj) hcalm hc
      have hchain : chain inner' c a = chain inner c a :=
        bind_congr_of_eq_some hsame hfirst (bind_congr hlinks fun _ _ _ _ => rfl)
      refine ⟨hchain, _, _, s₂, hw₁.trans hw₂, Chain.height_tree ⟨x, links⟩ fun y hy => ?_⟩
      rcases List.mem_cons.1 hy with rfl | hy
      · exact Nat.le_trans hheight (by omega)
      · obtain ⟨l, hl, rfl⟩ := List.mem_map.1 hy
        exact Nat.le_trans (hheights l hl) (by omega)

/-! ### Expressions and whole texts -/

/-- The grammar with a floor below the limit follows the grammar, whatever the floor is. -/
theorem expression_followed (floor : Parser (Decoded Expr)) {m : Nat} (hm : m + j = limit + 1) (hj : j ≤ limit) :
    Followed limit n j (expression n) (expressionOver floor m) := by
  induction n generalizing m j with
  | zero => exact ⟨fun _ _ hn => absurd hn (Nat.not_lt_zero _), fun hn => absurd hn (Nat.not_lt_zero _)⟩
  | succ n ih =>
    obtain ⟨m, rfl⟩ : ∃ m', m = m' + 1 := ⟨m - 1, by omega⟩
    have hin : j + 1 ≤ limit → Followed limit n (j + 1) (expression n) (expressionOver floor m) :=
      fun hle => ih (by omega) hle
    refine ⟨fun {c c' a a' e s} h he hn hr hs hfresh hc => ?_, fun {c a} hn hc => ?_⟩
    · obtain ⟨u, c₁, a₁, hgap, hchain⟩ := bind_eq_some.1 h
      obtain ⟨s₁, hw₁, -, hfresh₁⟩ := Nesting.walk_gap hr
      rw [← rest_of_gap hgap] at hw₁
      have hshort := hw₁.shorter
      obtain ⟨hsame, k, d, s₂, hw₂, hheight⟩ := chain_read hin (rule_eq_some.1 hchain) he (by omega) hw₁.ready
        (hw₁.around ▸ hs) (hfresh₁ hfresh) hc
      exact ⟨bind_congr_of_eq_some rfl hgap (rule_congr hsame), k, d, s₂, by simpa using hw₁.trans hw₂, hheight⟩
    · refine bind_congr rfl fun u c₁ a₁ hgap => ?_
      have hc₁ : Closes c₁.rest := by
        rw [Closes, rest_of_gap hgap, List.dropWhile_idempotent]
        exact hc
      refine rule_congr (bind_congr (operand_refused hc₁) fun x c₂ a₂ hx => ?_)
      have hfails : (operand (expressionOver floor m) c₁ a₁).1 = none := operand_fails hc₁
      rw [hx] at hfails
      cases hfails

theorem whole_read {source : List Char} (floor : Parser (Decoded Expr)) (hlimit : 1 ≤ limit)
    (hscan : Nesting.tooDeepAt? limit source = none)
    (h : whole source.length ⟨0, source⟩ a = (some (.ok e, c'), a')) (he : e.isLegible = true) :
    wholeOver floor (limit + 1) ⟨0, source⟩ a = whole source.length ⟨0, source⟩ a ∧ e.height ≤ limit := by
  obtain ⟨x, c₁, a₁, hexpression, hrest⟩ := bind_eq_some.1 (rule_eq_some.1 h)
  obtain ⟨u, c₂, a₂, hgap, hrest⟩ := bind_eq_some.1 hrest
  obtain ⟨v, c₃, a₃, hend, hrest⟩ := bind_eq_some.1 hrest
  cases hrest
  have hnil : c₂.rest = [] := rest_of_atEnd (rule_eq_some.1 hend)
  have hready : Ready limit {} source := ⟨⟨0, hscan⟩, hlimit⟩
  obtain ⟨hsame, k, d, s', hw, hheight⟩ := (expression_followed (n := source.length + 1) floor (m := limit + 1) (j := 0)
    rfl (Nat.zero_le _)).read hexpression he (Nat.lt_succ_self _) hready rfl
    Nesting.State.fresh_start
    (Or.inl (by rw [← rest_of_gap hgap, hnil]; rfl))
  refine ⟨rule_congr (bind_congr hsame fun _ _ _ _ => rfl), ?_⟩
  have hbounded := hw.ready.bounded
  rw [hw.current] at hbounded
  simp only [Nesting.Budget.argument, Nesting.Budget.grown] at hbounded
  omega

end Grammar

namespace Expr

/-- If the scan accepts a text whose tree is legible, the tree is within the limit, no expression is read inside more
parentheses than the limit allows, and the test of the finished tree lets it pass. -/
theorem read_within_limit {limit : Nat} (hlimit : 1 ≤ limit) {source : String} {e : Expr}
    (hscan : Nesting.tooDeepAt? limit source.toList = none) (hread : read source.toList = .ok e)
    (he : e.isLegible = true) :
    e.depth ≤ limit ∧ parse limit source = .ok e ∧
      ∀ floor, Grammar.wholeOver floor (limit + 1) ⟨0, source.toList⟩ {}
        = Grammar.whole source.toList.length ⟨0, source.toList⟩ {} := by
  have hwhole : ∃ c a, Grammar.whole source.toList.length ⟨0, source.toList⟩ {} = (some (.ok e, c), a) := by
    unfold read at hread
    split at hread
    · cases hread
    · cases hread
    · rename_i heq
      cases hread
      exact ⟨_, _, heq⟩
  obtain ⟨c, a, hwhole⟩ := hwhole
  have hdepth : e.depth ≤ limit := by
    rw [depth_eq_height]
    exact (Grammar.whole_read Parser.fail hlimit hscan hwhole he).2
  refine ⟨hdepth, ?_, fun floor => (Grammar.whole_read floor hlimit hscan hwhole he).1⟩
  simp [parse, hscan, hread, bind, Except.bind, Nat.not_lt.2 hdepth]

theorem eq_ok_of_toOption {x : Except Fault Expr} {e : Expr} (h : x.toOption = some e) : x = .ok e := by
  cases x with
  | error f => cases h
  | ok e' =>
    cases h
    rfl

theorem read_within_limit_nested : ∃ e, 1 ≤ 3 ∧ Nesting.tooDeepAt? 3 "f(a, -[b])".toList = none ∧
    read "f(a, -[b])".toList = .ok e ∧ e.isLegible = true ∧ e.depth ≤ 3 ∧ parse 3 "f(a, -[b])" = .ok e := by
  have hscan : Nesting.tooDeepAt? 3 "f(a, -[b])".toList = none := by decide
  have hlegible : (read "f(a, -[b])".toList).toOption.map isLegible = some true := by decide +kernel
  obtain ⟨e, he, hlegible⟩ := Option.map_eq_some_iff.1 hlegible
  have hread := eq_ok_of_toOption he
  obtain ⟨hdepth, hparse, -⟩ := read_within_limit (by decide) hscan hread hlegible
  exact ⟨e, by decide, hscan, hread, hlegible, hdepth, hparse⟩

/-- Behind a reference that ends in a backslash, and behind a name that ends like `1e`, operators are not counted. -/
theorem operators_hidden :
    (Nesting.tooDeepAt? 2 "%\x7b\\\x7d+-x".toList = none ∧
      (read "%\x7b\\\x7d+-x".toList).toOption.map depth = some 3) ∧
    (Nesting.tooDeepAt? 2 "x1e-x1e-x".toList = none ∧
      (read "x1e-x1e-x".toList).toOption.map depth = some 3) := by
  rw [funext depth_eq_height]
  exact ⟨⟨by decide, by decide +kernel⟩, ⟨by decide, by decide +kernel⟩⟩

end Expr

end Rowwise
