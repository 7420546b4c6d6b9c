import Rowwise.Regex.Pattern

/-!
# Rowwise.Proofs.Patterns.Leaving — what readers of patterns leave

A reader that does not refuse a pattern leaves an end of what was there (`Regex.Shrinks`): it may look ahead and go back, but never
to before where it began.  Readers that begin with a character leave an end of what stands behind it (`Regex.Leaves`), so
reading parts in a row ends.
-/

namespace Rowwise.Regex

open PatternReader

variable {α β : Type} {m : PatternReader α} {f : α → PatternReader β} {s t : PatternState} {cs ds : List Char} {a : α}

/-! ### Running readers -/

theorem bind_apply : (m >>= f) s = (m s).bind fun x => f x.1 x.2 := rfl

theorem bind_of_some (h : m s = some (a, t)) : (m >>= f) s = f a t := by
  rw [bind_apply, h, Option.bind_some]

theorem bind_of_none (h : m s = none) : (m >>= f) s = none := by
  rw [bind_apply, h, Option.bind_none]

theorem bind_eq_some {b : β} {u : PatternState} (h : (m >>= f) s = some (b, u)) :
    ∃ a t, m s = some (a, t) ∧ f a t = some (b, u) := by
  rw [bind_apply, Option.bind_eq_some_iff] at h
  obtain ⟨⟨a, t⟩, hm, hf⟩ := h
  exact ⟨a, t, hm, hf⟩

/-- Readers that go on in the same way from what comes out. -/
theorem bind_congr_some {g : α → PatternReader β} (h : ∀ a t, m s = some (a, t) → f a t = g a t) :
    (m >>= f) s = (m >>= g) s := by
  cases hm : m s with
  | none => rw [bind_of_none hm, bind_of_none hm]
  | some x => rw [bind_of_some hm, bind_of_some hm, h _ _ hm]

@[simp] theorem pure_apply : (pure a : PatternReader α) s = some (a, s) := rfl

@[simp] theorem peek_apply : peek s = some (s.rest.head?, s) := rfl

@[simp] theorem left_apply : left s = some (s.rest, s) := rfl

@[simp] theorem flags_apply : flags s = some (s.flags, s) := rfl

@[simp] theorem goTo_apply : goTo cs s = some ((), { s with rest := cs }) := rfl

@[simp] theorem pass_apply : pass s = some ((), { s with rest := s.rest.drop 1 }) := rfl

theorem need_apply {o : Option α} : need o s = o.map fun a => (a, s) := by
  cases o <;> rfl

/-! ### What is left -/

/-- What the reader leaves, if it does not refuse, is an end of these characters. -/
def Leaves (m : PatternReader α) (s : PatternState) (cs : List Char) : Prop := ∀ a t, m s = some (a, t) → t.rest <:+ cs

/-- The reader leaves an end of what is there. -/
class Shrinks (m : PatternReader α) : Prop where
  leaves : ∀ s, Leaves m s s.rest

theorem Leaves.mono (h : Leaves m s cs) (hcs : cs <:+ ds) : Leaves m s ds := fun a t hm => (h a t hm).trans hcs

/-- Where nothing is left, nothing is left behind. -/
theorem Shrinks.rest_eq_nil (hm : Shrinks m) (hs : s.rest = []) (h : m s = some (a, t)) : t.rest = [] := by
  have ht := hm.leaves s a t h
  rwa [hs, List.suffix_nil] at ht

theorem Leaves.bind (hm : Leaves m s cs) (hf : ∀ a, Shrinks (f a)) : Leaves (m >>= f) s cs := by
  intro b u h
  obtain ⟨a, t, hm', hf'⟩ := bind_eq_some h
  exact ((hf a).leaves t b u hf').trans (hm a t hm')

theorem Leaves.bindAt (hf : ∀ a t, m s = some (a, t) → Leaves (f a) t cs) : Leaves (m >>= f) s cs := by
  intro b u h
  obtain ⟨a, t, hm, hf'⟩ := bind_eq_some h
  exact hf a t hm b u hf'

theorem Leaves.after (hm : m s = some (a, t)) (hf : Leaves (f a) t cs) : Leaves (m >>= f) s cs := by
  rw [Leaves, bind_of_some hm]
  exact hf

theorem leaves_pass {c : Char} (hs : s.rest = c :: cs) : Leaves pass s cs := by
  intro a t h
  rw [pass_apply, hs] at h
  cases h
  exact List.suffix_rfl

theorem leaves_goTo : Leaves (goTo cs) s cs := by
  intro a t h
  cases h
  exact List.suffix_rfl

theorem Shrinks.bind (hm : Shrinks m) (hf : ∀ a, Shrinks (f a)) : Shrinks (m >>= f) :=
  ⟨fun s => (hm.leaves s).bind hf⟩

instance [Shrinks m] [∀ a, Shrinks (f a)] : Shrinks (m >>= f) := .bind inferInstance inferInstance

theorem Shrinks.ite {p : Prop} [Decidable p] {m' : PatternReader α} (hm : Shrinks m) (hm' : Shrinks m') :
    Shrinks (if p then m else m') := by
  split
  · exact hm
  · exact hm'

instance {p : Prop} [Decidable p] {m' : PatternReader α} [Shrinks m] [Shrinks m'] : Shrinks (if p then m else m') :=
  .ite inferInstance inferInstance

/-- A reader that keeps what is there. -/
theorem Shrinks.of_kept (h : ∀ s a t, m s = some (a, t) → t.rest = s.rest) : Shrinks m :=
  ⟨fun s a t hm => (h s a t hm).symm ▸ List.suffix_rfl⟩

theorem Shrinks.modify {g : PatternState → PatternState} (h : ∀ s, (g s).rest = s.rest) :
    Shrinks (modify g : PatternReader Unit) :=
  .of_kept fun s a t hm => by
    cases hm
    exact h s

/-- A reader that takes a character. -/
theorem Shrinks.of_end (hend : ∀ {s}, s.rest = [] → m s = none)
    (hcons : ∀ {s c cs}, s.rest = c :: cs → Leaves m s cs) : Shrinks m where
  leaves s := by
    cases hs : s.rest with
    | nil =>
      intro a t h
      rw [hend hs] at h
      cases h
    | cons c cs => exact (hcons hs).mono (List.suffix_cons c cs)

/-- A reader that looks at all that is there. -/
theorem Shrinks.left {f : List Char → PatternReader β} (h : ∀ s, Leaves (f s.rest) s s.rest) : Shrinks (left >>= f) :=
  ⟨fun s => .after left_apply (h s)⟩

/-- The reader neither looks at the pattern nor changes what has been read. -/
class Still (m : PatternReader α) : Prop where
  still : ∃ o : Option α, ∀ s, m s = o.map fun a => (a, s)

instance : Still (pure a : PatternReader α) := ⟨some a, fun _ => rfl⟩

instance : Still (refuse : PatternReader α) := ⟨none, fun _ => rfl⟩

instance : Still (refuse >>= f) := ⟨none, fun _ => rfl⟩

instance {o : Option α} : Still (need o) := ⟨o, fun _ => need_apply⟩

instance [hm : Still m] [hf : ∀ a, Still (f a)] : Still (m >>= f) := by
  obtain ⟨o, hm⟩ := hm
  cases o with
  | none => exact ⟨none, fun s => bind_of_none (hm s)⟩
  | some a =>
    obtain ⟨o, hf⟩ := hf a
    exact ⟨o, fun s => (bind_of_some (hm s)).trans (hf s)⟩

instance {p : Prop} [Decidable p] {m' : PatternReader α} [hm : Still m] [hm' : Still m'] : Still (if p then m else m') := by
  split
  · exact hm
  · exact hm'

instance (priority := low) [hm : Still m] : Shrinks m := .of_kept fun s a t h => by
  obtain ⟨o, hm⟩ := hm
  rw [hm, Option.map_eq_some_iff] at h
  obtain ⟨_, -, h⟩ := h
  cases h
  rfl

instance : Shrinks peek := .of_kept fun _ _ _ h => by cases h; rfl

instance : Shrinks PatternReader.left := .of_kept fun _ _ _ h => by cases h; rfl

instance : Shrinks flags := .of_kept fun _ _ _ h => by cases h; rfl

instance {f : Flags} : Shrinks (setFlags f) := .of_kept fun _ _ _ h => by cases h; rfl

instance : Shrinks newGroup := .of_kept fun _ _ _ h => by cases h; rfl

instance : Shrinks pass := ⟨fun s a t h => by cases h; exact List.drop_suffix 1 s.rest⟩

instance {γ δ : Type} {xs : List γ} {b : δ} {f : γ → δ → PatternReader (ForInStep δ)} [∀ x b, Shrinks (f x b)] :
    Shrinks (forIn xs b f) := by
  induction xs generalizing b with
  | nil => exact (inferInstance : Shrinks (pure b))
  | cons x xs ih =>
    rw [List.forIn_cons]
    refine .bind inferInstance fun y => ?_
    cases y <;> infer_instance

theorem afterSpace_suffix {comment : Bool} : afterSpace comment cs <:+ cs := by
  induction cs generalizing comment with
  | nil => cases comment <;> exact List.suffix_rfl
  | cons c cs ih =>
    cases comment with
    | true => exact ih.trans (List.suffix_cons c cs)
    | false =>
      rw [afterSpace]
      split
      · exact ih.trans (List.suffix_cons c cs)
      · split
        · exact ih.trans (List.suffix_cons c cs)
        · exact List.suffix_rfl

/-- Behind blanks and comments there are none. -/
theorem afterSpace_afterSpace {comment : Bool} : afterSpace false (afterSpace comment cs) = afterSpace comment cs := by
  induction cs generalizing comment with
  | nil => cases comment <;> rfl
  | cons c cs ih =>
    cases comment with
    | true => exact ih
    | false =>
      rw [afterSpace]
      split
      · exact ih
      · split
        · exact ih
        · rename_i hblank hhash
          rw [afterSpace, if_neg hblank, if_neg hhash]

theorem space_apply : space s = some ((), if s.flags.spaced then { s with rest := afterSpace false s.rest } else s) := rfl

instance : Shrinks space where
  leaves s a t h := by
    rw [space_apply] at h
    cases h
    split
    · exact afterSpace_suffix
    · exact List.suffix_rfl

theorem space_of_none (h : afterSpace false s.rest = s.rest) : space s = some ((), s) := by
  rw [space_apply, h, ite_self]

theorem space_of_space (h : space s = some ((), t)) : space t = some ((), t) := by
  rw [space_apply] at h
  cases h
  rw [space_apply]
  split
  · simp only [afterSpace_afterSpace]
  · rfl

/-- What goes on behind blanks leaves an end of what is there. -/
theorem Shrinks.leaves_of_space {f : Unit → PatternReader β} (hf : Shrinks (space >>= f)) (h : space s = some ((), t)) :
    Leaves (f ()) t t.rest := by
  have hleaves := hf.leaves t
  rwa [Leaves, bind_of_some (space_of_space h)] at hleaves

instance : Shrinks step := inferInstanceAs (Shrinks (pass >>= fun _ => space))

theorem step_of_spaced {c : Char} (hs : s.rest = c :: cs) (hspaced : s.flags.spaced = true) :
    step s = some ((), { s with rest := afterSpace false cs }) := by
  unfold step
  rw [bind_of_some pass_apply, space_apply, if_pos hspaced, hs, List.drop_one, List.tail_cons]

theorem leaves_step {c : Char} (hs : s.rest = c :: cs) : Leaves step s cs := (leaves_pass hs).bind fun _ => inferInstance

instance : Shrinks next := .bind inferInstance fun o => by cases o <;> infer_instance

instance {w : String} : Shrinks (accept w) := .left fun s => by
  cases h : Text.dropPrefix? w.toList s.rest with
  | none => exact ((inferInstance : Shrinks (pure false))).leaves s
  | some rest => exact (leaves_goTo.bind fun _ => inferInstance).mono ⟨_, (Text.dropPrefix?_eq_some_iff.1 h).symm⟩

instance {c : Char} : Shrinks (expect c) := by
  unfold expect
  infer_instance

/-! ### Characters and numbers -/

instance {n : Nat} {taken : List Char} : Shrinks (takeDigits n taken) := by
  induction n generalizing taken with
  | zero => exact inferInstanceAs (Shrinks (pure _))
  | succ n ih => exact .bind inferInstance fun o => by cases o <;> infer_instance

/-- Goes on behind blanks. -/
theorem Shrinks.dropWhile {p : Char → Bool} {f : PatternReader β} (hf : Shrinks f) :
    Shrinks (PatternReader.left >>= fun cs => goTo (cs.dropWhile p) >>= fun _ => f) :=
  .left fun _ => (leaves_goTo.bind fun _ => hf).mono (List.dropWhile_suffix p)

instance : Shrinks passBlanks := .dropWhile inferInstance

instance : Shrinks count := .dropWhile inferInstance

instance {digits : List Char} : Still (characterOf digits) := by
  unfold characterOf
  infer_instance

instance {n : Nat} : Shrinks (takeSome n) := by
  induction n with
  | zero => exact inferInstanceAs (Shrinks (pure _))
  | succ n ih =>
    unfold takeSome
    infer_instance

instance {c : Char} {n : Nat} : Shrinks (takeUntil c n) := by
  induction n with
  | zero => exact inferInstanceAs (Shrinks refuse)
  | succ n ih => exact .bind inferInstance fun o => by cases o <;> infer_instance

instance {width : Nat} : Shrinks (hexCharacter width) := by
  unfold hexCharacter
  infer_instance

/-! ### Escapes -/

/-- The class that a name in braces stands for, and whether its complement is meant. -/
def bracedProperty? (negated : Bool) (name : List Char) : Option (CharClass × Bool) :=
  match Text.splitUnequal? name with
  | some (key, value) => (CharClass.propertyValue? key value).map (·, !negated)
  | none =>
    match (Text.splitAt? ':' name).or (Text.splitAt? '=' name) with
    | some (key, value) => (CharClass.propertyValue? key value).map (·, negated)
    | none => (CharClass.property? name).map (·, negated)

/-- The set of characters that the class of a property has under the flags. -/
def propertySet (f : Flags) (o : Option (CharClass × Bool)) : PatternReader CharClass := do
  let (c, negated) ← need o
  return negatedIf negated (if f.anyCase then .anyCase c else c)

instance {f : Flags} {o : Option (CharClass × Bool)} : Still (propertySet f o) := by
  unfold propertySet
  infer_instance

/-- A property is a letter or a name in braces. -/
theorem propertyClass_eq {negated : Bool} : propertyClass negated = (do
    let f ← flags
    if !f.unicode then refuse
    else do
      let c ← next
      if c = '\x7b' then do
        let cs ← left
        let name ← takeUntil '\x7d' (cs.length + 1)
        propertySet f (bracedProperty? negated name)
      else propertySet f ((CharClass.property? [c]).map (·, negated))) := by
  have hneed {o : Option CharClass} {negated : Bool} {f : Flags} : (do
      let c ← need o
      let (c, negated) ← pure (c, negated)
      pure (negatedIf negated (if f.anyCase then .anyCase c else c))) = propertySet f (o.map (·, negated)) := by
    cases o <;> rfl
  unfold propertyClass
  congr 1
  funext f
  dsimp only
  split
  · rfl
  · congr 1
    funext c
    split
    · congr 1
      funext cs
      congr 1
      funext name
      unfold bracedProperty?
      cases Text.splitUnequal? name with
      | some _ => exact hneed
      | none => cases (Text.splitAt? ':' name).or (Text.splitAt? '=' name) <;> exact hneed
    · exact hneed

instance {negated : Bool} : Shrinks (propertyClass negated) := by
  rw [propertyClass_eq]
  infer_instance

instance {n : Nat} : Shrinks (takeAnchorName n) := by
  induction n with
  | zero => exact inferInstanceAs (Shrinks (pure _))
  | succ n ih => exact .bind inferInstance fun o => by cases o <;> infer_instance

instance : Shrinks wordEdge := by
  unfold wordEdge
  refine .bind inferInstance fun f => .left fun s => ?_
  split
  · exact Shrinks.leaves s
  · refine .bindAt fun a t hstep => ?_
    have ht : t.rest <:+ s.rest := Shrinks.leaves s a t hstep
    refine .after peek_apply ?_
    cases t.rest.head? with
    | none => exact (Shrinks.leaves t).mono ht
    | some c =>
      dsimp only
      split
      · exact leaves_goTo.bind fun _ => inferInstance
      · exact (Shrinks.leaves t).mono ht

theorem leaves_escape {c : Char} (hs : s.rest = c :: cs) : Leaves escape s cs := by
  unfold escape
  refine .after flags_apply (.after peek_apply ?_)
  rw [hs, List.head?_cons]
  refine .after rfl ?_
  split
  · exact (leaves_step hs).bind fun _ => inferInstance
  · split
    · exact (leaves_step hs).bind fun _ => inferInstance
    · refine (leaves_pass hs).bind fun _ => .ite inferInstance ?_
      split <;> infer_instance

theorem escape_of_end (hs : s.rest = []) : escape s = none := by
  rw [escape, bind_of_some flags_apply, bind_of_some peek_apply, hs]
  rfl

instance : Shrinks escape := .of_end escape_of_end fun hs => leaves_escape hs

end Rowwise.Regex
