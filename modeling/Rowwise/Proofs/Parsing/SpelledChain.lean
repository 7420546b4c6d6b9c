import Rowwise.Proofs.Parsing.ChainTree

/-!
# Rowwise.Proofs.Parsing.SpelledChain — the chain in an expression

Below the outermost stratum an expression is a chain of primaries, and its strata are those of the chain
(`Stratum.derives_iff_chain`).  So an expression can be read flat and grouped afterwards.
-/

namespace Rowwise

open Spelling

/-- The characters are signs with gaps between them and a primary. -/
inductive SpellsOperand : List Char → Operand → Prop where
  | primary {cs e} : Stratum.primary.Derives cs e → SpellsOperand cs ⟨[], e⟩
  | sign {op g cs signs e} : Gap g → SpellsOperand cs ⟨signs, e⟩ →
      SpellsOperand (op.symbol.toList ++ (g ++ cs)) ⟨op :: signs, e⟩

/-- The characters are operands, each with an operator before it and gaps around that. -/
inductive SpellsLinks : List Char → Links → Prop where
  | nil : SpellsLinks [] []
  | cons {op : BinaryOp} {g h xs x ls l} : Gap g → Gap h → SpellsOperand xs x → SpellsLinks ls l →
      SpellsLinks (g ++ (op.symbol.toList ++ (h ++ (xs ++ ls)))) ((op, x) :: l)

theorem SpellsLinks.append {ls ms : List Char} {l m : Links} (h : SpellsLinks ls l) (hm : SpellsLinks ms m) :
    SpellsLinks (ls ++ ms) (l ++ m) := by
  induction h with
  | nil => exact hm
  | cons hg hh hx _ ih => simpa using SpellsLinks.cons hg hh hx ih

theorem SpellsLinks.split {cs : List Char} {l m : Links} (h : SpellsLinks cs (l ++ m)) :
    ∃ ls ms, cs = ls ++ ms ∧ SpellsLinks ls l ∧ SpellsLinks ms m := by
  induction l generalizing cs with
  | nil => exact ⟨[], cs, rfl, .nil, h⟩
  | cons link l ih =>
    cases h with
    | cons hg hh hx hrest =>
      obtain ⟨ls, ms, rfl, hl, hm⟩ := ih hrest
      exact ⟨_, ms, by simp, .cons hg hh hx hl, hm⟩

variable {s : Stratum} {x : Operand} {l : Links} {e : Expr} {cs xs ls : List Char}

/-- An expression is spelled as a chain that its stratum groups. -/
theorem Stratum.Derives.exists_chain (h : s.Derives cs e) (hs : s ≠ .whole) :
    ∃ x l xs ls, cs = xs ++ ls ∧ SpellsOperand xs x ∧ SpellsLinks ls l ∧ Groups s x l e := by
  have hprimary : ∀ {cs e}, Stratum.primary.Derives cs e →
      ∃ x l xs ls, cs = xs ++ ls ∧ SpellsOperand xs x ∧ SpellsLinks ls l ∧ Groups .primary x l e :=
    fun {cs e} h => ⟨⟨[], e⟩, [], cs, [], (List.append_nil cs).symm, .primary h, .nil, .primary⟩
  induction h with
  | whole => exact absurd rfl hs
  | @next s t cs e hnext _ ih =>
    obtain ⟨x, l, xs, ls, hcs, hx, hl, hgroups⟩ := ih (by rintro rfl; cases s <;> cases hnext)
    exact ⟨x, l, xs, ls, hcs, hx, hl, .next hnext hgroups⟩
  | @binary s t op _ g h _ _ _ hnext hop _ hg hh _ ihl ihr =>
    obtain ⟨x, l, xs, ls, rfl, hx, hl, hleft⟩ := ihl hs
    obtain ⟨y, m, ys, ms, rfl, hy, hm, hright⟩ := ihr (by rintro rfl; cases s <;> cases hnext)
    exact ⟨x, l ++ (op, y) :: m, xs, ls ++ (g ++ (op.symbol.toList ++ (h ++ (ys ++ ms)))), by simp, hx,
      hl.append (.cons hg hh hy hm), .binary hnext hop hleft hright⟩
  | @sign op g _ _ hg _ ih =>
    obtain ⟨⟨signs, p⟩, l, xs, ls, rfl, hx, hl, hgroups⟩ := ih hs
    exact ⟨⟨op :: signs, p⟩, l, op.symbol.toList ++ (g ++ xs), ls, by simp, .sign hg hx, hl, .sign hgroups⟩
  | @power ls g h _ left _ hleft hg hh _ _ ihr =>
    obtain ⟨y, m, ys, ms, rfl, hy, hm, hright⟩ := ihr (by decide)
    exact ⟨⟨[], left⟩, (.power, y) :: m, ls, g ++ (BinaryOp.power.symbol.toList ++ (h ++ (ys ++ ms))), rfl,
      .primary hleft, .cons hg hh hy hm, .power hright⟩
  | word hword => exact hprimary (.word hword)
  | grouped hwhole => exact hprimary (.grouped hwhole)
  | callEmpty hname hg hh => exact hprimary (.callEmpty hname hg hh)
  | call hname hg hne hargs => exact hprimary (.call hname hg hne hargs)

/-- A chain that a stratum groups is spelled as an expression of it. -/
theorem Groups.derives (h : Groups s x l e) (hx : SpellsOperand xs x) (hl : SpellsLinks ls l) :
    s.Derives (xs ++ ls) e := by
  induction h generalizing xs ls with
  | next hnext _ ih => exact .next hnext (ih hx hl)
  | binary hnext hop _ _ ihl ihr =>
    obtain ⟨ls, ms, rfl, hleft, hright⟩ := hl.split
    cases hright with
    | cons hg hh hy hm => simpa using Stratum.Derives.binary hnext hop (ihl hx hleft) hg hh (ihr hy hm)
  | sign _ ih =>
    cases hx with
    | sign hg hx => simpa using Stratum.Derives.sign hg (ih hx hl)
  | power _ ih =>
    cases hx with
    | primary hp =>
      cases hl with
      | cons hg hh hy hm => exact .power hp hg hh (ih hy hm)
  | primary =>
    cases hx with
    | primary hp =>
      cases hl
      rwa [List.append_nil]

/-- The expressions of the stratum of disjunctions are the spelled chains, each with the tree of the chain. -/
theorem Stratum.derives_iff_chain : Stratum.disjunction.Derives cs e ↔
    ∃ c xs ls, cs = xs ++ ls ∧ SpellsOperand xs c.first ∧ SpellsLinks ls c.rest ∧ e = Chain.tree c := by
  constructor
  · intro h
    obtain ⟨x, l, xs, ls, hcs, hx, hl, hgroups⟩ := h.exists_chain (by decide)
    exact ⟨⟨x, l⟩, xs, ls, hcs, hx, hl, hgroups.eq_tree⟩
  · rintro ⟨c, xs, ls, rfl, hx, hl, rfl⟩
    exact c.groups_tree.derives hx hl

end Rowwise
