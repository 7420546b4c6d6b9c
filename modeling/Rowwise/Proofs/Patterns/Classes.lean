import Rowwise.Proofs.Patterns.Ranges

/-!
# Rowwise.Proofs.Patterns.Classes — reading classes with more characters behind a pattern

Classes are read item by item, with operations between them and other classes inside.  They are read the same way with more
characters behind the pattern, until a reader goes astray (`Regex.tracks_class`).
-/

namespace Rowwise.Regex

open PatternReader

variable {s t : PatternState} {T cs ds : List Char}

/-! ### What is left -/

theorem splitAt?_eq_some {c : Char} {name rest : List Char} (h : Text.splitAt? c cs = some (name, rest)) :
    cs = name ++ c :: rest := by
  induction cs generalizing name with
  | nil => simp [Text.splitAt?] at h
  | cons d cs ih =>
    rw [Text.splitAt?] at h
    split at h
    · rename_i hdc
      cases h
      rw [hdc, List.nil_append]
    · obtain ⟨⟨name', rest'⟩, hsplit, heq⟩ := Option.map_eq_some_iff.1 h
      cases heq
      rw [ih hsplit, List.cons_append]

/-- The set of a name that ends at a colon and a bracket. -/
def namedSet? (negated : Bool) (cs : List Char) : Option (CharClass × List Char) := do
  let (name, rest) ← Text.splitAt? ':' cs
  let c ← CharClass.bracketNames.lookup (String.ofList name)
  match rest with
  | ']' :: rest => some (negatedIf negated c, rest)
  | _ => none

theorem bracketName?_of_plain (h : cs.head? ≠ some '^') : bracketName? ('[' :: ':' :: cs) = namedSet? false cs := by
  unfold bracketName?
  split
  · rename_i behind heq
    cases heq
    split
    rename_i hmatch
    split at hmatch
    · exact absurd rfl h
    · cases hmatch
      rfl
  · rename_i hne
    exact absurd rfl (hne cs)

theorem bracketName?_of_other (h : ∀ behind, cs ≠ '[' :: ':' :: behind) : bracketName? cs = none := by
  unfold bracketName?
  split
  · rename_i behind
    exact absurd rfl (h behind)
  · rfl

theorem namedSet?_suffix {negated : Bool} {c : CharClass} {rest : List Char} (h : namedSet? negated cs = some (c, rest)) :
    rest <:+ cs := by
  obtain ⟨⟨name, behind⟩, hsplit, h⟩ := Option.bind_eq_some_iff.1 h
  obtain ⟨d, -, h⟩ := Option.bind_eq_some_iff.1 h
  rw [splitAt?_eq_some hsplit]
  split at h
  · cases h
    exact (List.suffix_cons _ _).trans ((List.suffix_cons _ _).trans (List.suffix_append _ _))
  · cases h

theorem bracketName?_suffix {b : Char} {c : CharClass} {rest : List Char} (h : bracketName? (b :: cs) = some (c, rest)) :
    rest <:+ cs := by
  by_cases hcs : ∃ behind, b :: cs = '[' :: ':' :: behind
  · obtain ⟨behind, hcs⟩ := hcs
    cases hcs
    refine List.IsSuffix.trans ?_ (List.suffix_cons _ _)
    by_cases hnegated : behind.head? = some '^'
    · obtain ⟨name, rfl⟩ := List.head?_eq_some_iff.1 hnegated
      exact (namedSet?_suffix h).trans (List.suffix_cons _ _)
    · rw [bracketName?_of_plain hnegated] at h
      exact namedSet?_suffix h
  · rw [bracketName?_of_other fun behind heq => hcs ⟨behind, heq⟩] at h
    cases h

theorem classOperation?_suffix {b : Char} {op : CharClass → CharClass → CharClass} {rest : List Char}
    (h : classOperation? (b :: cs) = some (op, rest)) : rest <:+ cs := by
  unfold classOperation? at h
  split at h <;> cases h <;> rename_i heq <;> cases heq <;> exact List.suffix_cons _ _

/-- The hyphens or the bracket that stand for themselves at the start of a class. -/
def classHyphens : PatternReader ClassSoFar := do
  let hyphens := (← left).takeWhile (· = '-')
  for _ in hyphens do step
  if hyphens.isEmpty then
    if (← peek) = some ']' then
      step
      return { parts := .single ']' }
    return {}
  return { parts := .single '-' }

instance : Shrinks classHyphens := by
  unfold classHyphens
  infer_instance

/-- A class behind its start. -/
def classBehind (n : Nat) (negated : Bool) (start : ClassSoFar) : PatternReader CharClass := do
  let c ← classRest n start
  let f ← flags
  return negatedIf negated (casesIf f c)

theorem classBody_succ {n : Nat} : classBody (n + 1) = (do
    space
    let o ← peek
    if o = some '^' then
      step
      classHyphens >>= classBehind n true
    else classHyphens >>= classBehind n false) := by
  have hite {γ δ : Type} {p : Prop} [Decidable p] {m m' : PatternReader γ} {k : γ → PatternReader δ} :
      ((if p then m else m') >>= k) = if p then m >>= k else m' >>= k := by
    split <;> rfl
  have hbracket (hyphens : List Char) (k : ClassSoFar → PatternReader CharClass) : (do
      let o ← peek
      if (hyphens.isEmpty && o = some ']') = true then do
        step
        k { parts := .single ']', operation := (if hyphens.isEmpty then {} else { parts := .single '-' } : ClassSoFar).operation }
      else k (if hyphens.isEmpty then {} else { parts := .single '-' })) =
      if hyphens.isEmpty then do
        let o ← peek
        if o = some ']' then do
          step
          k { parts := .single ']' }
        else k {}
      else k { parts := .single '-' } := by
    cases hyphens with
    | nil => simp
    | cons => rfl
  unfold classBody classHyphens
  simp only [bind_assoc, pure_bind, hite]
  refine congrArg _ (funext fun _ => congrArg _ (funext fun o => ite_congr rfl (fun ho => ?_) fun ho => ?_))
  · rw [decide_eq_true ho]
    refine congrArg _ (funext fun _ => congrArg _ (funext fun here => congrArg _ (funext fun _ => ?_)))
    exact hbracket _ (classBehind n true)
  · rw [decide_eq_false ho]
    refine congrArg _ (funext fun here => congrArg _ (funext fun _ => ?_))
    exact hbracket _ (classBehind n false)

instance {n : Nat} {negated : Bool} {start : ClassSoFar} [Shrinks (classRest n start)] :
    Shrinks (classBehind n negated start) := by
  unfold classBehind
  infer_instance

/-- The class with one part more. -/
def ClassSoFar.with (sofar : ClassSoFar) (c : CharClass) : ClassSoFar := { sofar with parts := .union sofar.parts c }

/-- An operation or an item within a class. -/
def classPart (n : Nat) (sofar : ClassSoFar) (here : List Char) : PatternReader CharClass :=
  match classOperation? here with
  | some (op, rest) => do
    goTo rest
    let f ← flags
    classRest n { parts := .nothing, operation := some (op, sofar.set f) }
  | none => do
    let c ← classRange
    classRest n (sofar.with c)

theorem classPart_of_item {n : Nat} {sofar : ClassSoFar} (h : classOperation? cs = none) :
    classPart n sofar cs = classRange >>= fun c => classRest n (sofar.with c) := by
  rw [classPart, h]

/-- A class within a class. -/
def classInside (n : Nat) (sofar : ClassSoFar) (here : List Char) : PatternReader CharClass :=
  match bracketName? here with
  | some (c, rest) => do
    goTo rest
    classRest n (sofar.with c)
  | none => do
    goTo here.tail
    let c ← classBody n
    classRest n (sofar.with c)

/-- The rest of a class with these characters to come. -/
def classOn (n : Nat) (sofar : ClassSoFar) (here : List Char) : PatternReader CharClass :=
  match here.head? with
  | none => refuse
  | some c =>
    if c = ']' then do
      pass
      return sofar.set (← flags)
    else if c = '[' then classInside n sofar here
    else classPart n sofar here

theorem classRest_succ {n : Nat} {sofar : ClassSoFar} :
    classRest (n + 1) sofar = space >>= fun _ => left >>= classOn n sofar := by
  unfold classRest
  refine congrArg _ (funext fun _ => congrArg _ (funext fun here => ?_))
  split
  · rfl
  · rfl
  · rfl
  · rename_i hnil hclose hopen
    cases here with
    | nil => exact absurd rfl hnil
    | cons c cs =>
      have hc : c ≠ ']' := fun heq => hclose cs (by rw [heq])
      have ho : c ≠ '[' := fun heq => hopen cs (by rw [heq])
      rw [classOn, List.head?_cons]
      simp only [if_neg hc, if_neg ho]
      rfl

theorem shrinks_class (n : Nat) : Shrinks (classBody n) ∧ ∀ sofar, Shrinks (classRest n sofar) := by
  induction n with
  | zero =>
    unfold classBody classRest
    exact ⟨inferInstance, fun _ => inferInstance⟩
  | succ n ih =>
    obtain ⟨hbody, hrest⟩ := ih
    constructor
    · rw [classBody_succ]
      infer_instance
    · intro sofar
      rw [classRest_succ]
      refine .bind inferInstance fun _ => .left fun s => ?_
      unfold classOn
      cases hs : s.rest with
      | nil => exact fun _ _ h => by cases h
      | cons c cs =>
        rw [List.head?_cons]
        dsimp only
        split
        · exact hs ▸ Shrinks.leaves s
        · have hcs : cs <:+ c :: cs := List.suffix_cons c cs
          split
          · unfold classInside
            cases hname : bracketName? (c :: cs) with
            | some x => exact (leaves_goTo.bind fun _ => hrest _).mono ((bracketName?_suffix hname).trans hcs)
            | none => exact (leaves_goTo.bind fun _ => .bind hbody fun _ => hrest _).mono hcs
          · unfold classPart
            cases hop : classOperation? (c :: cs) with
            | some x => exact (leaves_goTo.bind fun _ => inferInstance).mono ((classOperation?_suffix hop).trans hcs)
            | none => exact hs ▸ Shrinks.leaves s

instance {n : Nat} : Shrinks (classBody n) := (shrinks_class n).1

instance {n : Nat} {sofar : ClassSoFar} : Shrinks (classRest n sofar) := (shrinks_class n).2 sofar

/-! ### Reading with more behind -/

theorem splitAt?_append {c : Char} (cs ds : List Char) : Text.splitAt? c (cs ++ ds) =
    match Text.splitAt? c cs with
    | some (name, rest) => some (name, rest ++ ds)
    | none => (Text.splitAt? c ds).map fun x => (cs ++ x.1, x.2) := by
  induction cs with
  | nil => cases h : Text.splitAt? c ds <;> simp [Text.splitAt?, h]
  | cons d cs ih =>
    rw [List.cons_append, Text.splitAt?, Text.splitAt?]
    split
    · rfl
    · rw [ih]
      cases Text.splitAt? c cs with
      | none => cases Text.splitAt? c ds <;> rfl
      | some _ => rfl

/-- A name that goes on in `T` has the parenthesis in it. -/
theorem splitAt?_closing {c : Char} {name rest : List Char} (hc : c ≠ ')') (hT : Closing T)
    (h : Text.splitAt? c T = some (name, rest)) : ')' ∈ name ∧ rest <:+ T.tail := by
  obtain ⟨T, rfl⟩ := hT
  rw [Text.splitAt?, if_neg (Ne.symm hc)] at h
  obtain ⟨x, hbehind, h⟩ := Option.map_eq_some_iff.1 h
  cases h
  refine ⟨List.mem_cons_self, ?_⟩
  rw [List.tail_cons, splitAt?_eq_some hbehind]
  exact (List.suffix_cons _ _).trans (List.suffix_append _ _)

theorem bracketNames_closing {name : List Char} (h : ')' ∈ name) : CharClass.bracketNames.lookup (String.ofList name) = none := by
  have hnames : ∀ w ∈ CharClass.bracketNames.map (·.1), ')' ∉ w.toList := by decide
  rw [List.lookup_eq_none_iff]
  intro x hx
  rw [bne_iff_ne]
  intro heq
  refine hnames x.1 (List.mem_map_of_mem hx) ?_
  rw [← heq, String.toList_ofList]
  exact h

theorem namedSet?_append {negated : Bool} (cs : List Char) (hT : Closing T) :
    namedSet? negated (cs ++ T) = (namedSet? negated cs).map fun x => (x.1, x.2 ++ T) := by
  unfold namedSet?
  rw [splitAt?_append]
  cases hsplit : Text.splitAt? ':' cs with
  | none =>
    cases hbehind : Text.splitAt? ':' T with
    | none => rfl
    | some x =>
      have hname := bracketNames_closing (List.mem_append_right cs (splitAt?_closing (by decide) hT hbehind).1)
      simp only [Option.map_some, bind, Option.bind_some, hname, Option.bind_none, Option.map_none]
  | some x =>
    obtain ⟨name, rest⟩ := x
    simp only [bind, Option.bind_some]
    cases CharClass.bracketNames.lookup (String.ofList name) with
    | none => rfl
    | some c =>
      cases rest with
      | nil =>
        obtain ⟨T, rfl⟩ := hT
        rfl
      | cons d rest =>
        simp only [Option.bind_some, List.cons_append]
        by_cases hd : d = ']'
        · subst hd
          rfl
        · simp [hd]

theorem bracketName?_append (cs : List Char) (hT : Closing T) :
    bracketName? (cs ++ T) = (bracketName? cs).map fun x => (x.1, x.2 ++ T) := by
  by_cases hcs : ∃ behind, cs = '[' :: ':' :: behind
  · obtain ⟨behind, rfl⟩ := hcs
    by_cases hnegated : behind.head? = some '^'
    · obtain ⟨name, rfl⟩ := List.head?_eq_some_iff.1 hnegated
      exact namedSet?_append name hT
    · rw [List.cons_append, List.cons_append, bracketName?_of_plain hnegated, bracketName?_of_plain, namedSet?_append _ hT]
      cases behind with
      | nil =>
        rw [List.nil_append, hT.head?]
        decide
      | cons c behind => exact hnegated
  · rw [bracketName?_of_other fun behind heq => hcs ⟨behind, heq⟩, bracketName?_of_other]
    · rfl
    · intro behind heq
      obtain ⟨T, rfl⟩ := hT
      match cs with
      | [] => cases heq
      | [c] => cases heq
      | c :: d :: cs =>
        cases heq
        exact hcs ⟨cs, rfl⟩

theorem classOperation?_append (cs : List Char) (hT : Closing T) :
    classOperation? (cs ++ T) = (classOperation? cs).map fun x => (x.1, x.2 ++ T) := by
  obtain ⟨T, rfl⟩ := hT
  match cs with
  | [] => rfl
  | [c] =>
    simp [classOperation?]
  | c :: d :: cs =>
    simp only [List.cons_append]
    unfold classOperation?
    split <;> simp_all

theorem takeWhile_append {p : Char → Bool} (hp : p ')' = false) (hT : Closing T) :
    (cs ++ T).takeWhile p = cs.takeWhile p := by
  obtain ⟨T, rfl⟩ := hT
  induction cs with
  | nil => simp [hp]
  | cons c cs ih => rw [List.cons_append, List.takeWhile_cons, List.takeWhile_cons, ih]

/-- Behind a hyphen the reader comes to the next one. -/
theorem step_of_hyphens {c : Char} (hs : s.rest = c :: '-' :: cs) : step s = some ((), { s with rest := '-' :: cs }) := by
  unfold step
  rw [bind_of_some pass_apply, space_apply, hs, List.drop_one, List.tail_cons]
  split <;> rfl

theorem tracks_hyphens {hyphens : List Char} (hs : hyphens <+: s.rest) (hall : ∀ c ∈ hyphens, c = '-') :
    Tracks Beyond (forIn hyphens PUnit.unit fun _ _ => step >>= fun _ => pure (ForInStep.yield PUnit.unit))
      (fun _ => forIn hyphens PUnit.unit fun _ _ => step >>= fun _ => pure (ForInStep.yield PUnit.unit)) s := by
  induction hyphens generalizing s with
  | nil => exact (Tracks.still : Tracks Beyond (pure PUnit.unit) (fun _ => pure PUnit.unit) s)
  | cons c hyphens ih =>
    simp only [List.forIn_cons, bind_assoc, pure_bind]
    obtain ⟨behind, hbehind⟩ := hs
    refine (tracks_step hbehind.symm).bind fun _ t hstep => ih ?_ fun d hd => hall d (List.mem_cons_of_mem c hd)
    cases hyphens with
    | nil => exact List.nil_prefix
    | cons d hyphens =>
      obtain rfl := hall d (List.mem_cons_of_mem c List.mem_cons_self)
      rw [step_of_hyphens hbehind.symm] at hstep
      cases hstep
      exact ⟨behind, rfl⟩

theorem tracks_classHyphens : Tracks Beyond classHyphens (fun _ => classHyphens) s := by
  refine .left (.ofEq (n := do
      for _ in s.rest.takeWhile (· = '-') do step
      if (s.rest.takeWhile (· = '-')).isEmpty then
        if (← peek) = some ']' then
          step
          return { parts := .single ']' }
        return {}
      return { parts := .single '-' }) ?_ rfl fun T hT => by rw [takeWhile_append rfl hT])
  have hall : ∀ c ∈ s.rest.takeWhile (· = '-'), c = '-' := fun c hc =>
    of_decide_eq_true (List.all_eq_true.1 List.all_takeWhile c hc)
  refine (tracks_hyphens (List.takeWhile_prefix _) hall).bind fun _ t _ => .ite (fun _ => ?_) fun _ => .still
  have hplain {u : PatternState} : Tracks Beyond (pure ({} : ClassSoFar)) (fun _ => pure {}) u := .still
  refine .peek (fun c cs hs => .ite (fun _ => ?_) fun _ => hplain) fun _ => hplain
  exact (tracks_step hs).bind fun _ _ _ => .still

theorem classRest_of_end {n : Nat} {sofar : ClassSoFar} (hs : s.rest = []) : classRest n sofar s = none := by
  cases n with
  | zero => rfl
  | succ n =>
    have hspace : space s = some ((), s) := space_of_none (by rw [hs]; rfl)
    rw [classRest_succ, bind_of_some hspace, bind_of_some left_apply, hs]
    rfl

theorem classBehind_of_end {n : Nat} {negated : Bool} {start : ClassSoFar} (hs : s.rest = []) :
    classBehind n negated start s = none :=
  bind_of_none (classRest_of_end hs)

theorem classHyphens_of_end (hs : s.rest = []) : classHyphens s = some ({}, s) := by
  unfold classHyphens
  rw [bind_of_some left_apply, hs, List.takeWhile_nil, List.forIn_nil, bind_of_some pure_apply, List.isEmpty_nil, if_pos rfl,
    bind_of_some peek_apply, hs]
  rfl

theorem classOperation?_of_hyphen (h : ∀ ds, cs ≠ '-' :: ds) : classOperation? ('-' :: cs) = none := by
  unfold classOperation?
  split
  · rename_i heq
    cases heq
  · rename_i ds heq
    cases heq
    exact absurd rfl (h ds)
  · rename_i heq
    cases heq
  · rfl

/-- A hyphen that the reader went back to is read as the start of another range, which passes the parenthesis. -/
theorem classRest_of_opensRange {n : Nat} {sofar : ClassSoFar} {c : CharClass} {u : PatternState}
    (hs : OpensRange T s) (h : classRest n sofar s = some (c, u)) : u.rest <:+ T.tail := by
  obtain ⟨cs, hs, hT, hspaced, hcs⟩ := hs
  cases n with
  | zero => cases h
  | succ n =>
    have hspace : space s = some ((), s) := space_of_none (by rw [hs]; rfl)
    have hop : classOperation? ('-' :: cs) = none := by
      refine classOperation?_of_hyphen fun ds hds => ?_
      have hsame : afterSpace false cs = cs := by
        rw [hds]
        rfl
      have := hT.length_le
      have := hcs.length_le
      rw [hsame, List.length_tail] at this
      have : cs.length = ds.length + 1 := by rw [hds, List.length_cons]
      omega
    rw [classRest_succ, bind_of_some hspace, bind_of_some left_apply, hs] at h
    have hpart : classPart n sofar ('-' :: cs) s = some (c, u) := h
    rw [classPart_of_item hop, classRange_eq, bind_assoc, bind_of_some (classItem_of_plain hs (by decide)), rangeBehind,
      bind_assoc] at hpart
    have hbehind : space { s with rest := cs } = some ((), { s with rest := afterSpace false cs }) := by
      rw [space_apply, if_pos hspaced]
    rw [bind_of_some hbehind] at hpart
    exact (Shrinks.leaves _ c u hpart).trans hcs

section Class

variable {k : Nat} {k' : List Char → Nat} (hk' : ∀ T, k ≤ k' T)
  (hrest : ∀ (sofar : ClassSoFar) (s : PatternState), 2 * s.rest.length + 1 ≤ k →
    Tracks Beyond (classRest k sofar) (fun T => classRest (k' T) sofar) s)
  {sofar : ClassSoFar}

include hrest

theorem tracks_classPart {c : Char} (hs : s.rest = c :: cs) (hk : 2 * cs.length + 2 ≤ k) :
    Tracks Beyond (classPart k sofar (c :: cs)) (fun T => classPart (k' T) sofar (c :: cs ++ T)) s := by
  cases hop : classOperation? (c :: cs) with
  | some x =>
    obtain ⟨op, rest⟩ := x
    have hlength := (classOperation?_suffix hop).length_le
    have hon : Tracks Beyond
        (goTo rest >>= fun _ => flags >>= fun f => classRest k { parts := .nothing, operation := some (op, sofar.set f) })
        (fun T => goTo (rest ++ T) >>= fun _ => flags >>= fun f =>
          classRest (k' T) { parts := .nothing, operation := some (op, sofar.set f) }) s :=
      .goTo (.flags (hrest _ _ (by dsimp only; omega)))
    refine hon.ofEq (by rw [classPart, hop]) fun T hT => ?_
    rw [classPart, classOperation?_append _ hT, hop]
    rfl
  | none =>
    have hon : Tracks Beyond (classRange >>= fun c => classRest k (sofar.with c))
        (fun T => classRange >>= fun c => classRest (k' T) (sofar.with c)) s := by
      refine tracks_classRange.bindOr (fun T d t _ hE b u h => ?_) (fun d t ht => hrest _ _ ?_)
        (fun d t _ ht T => by rw [classRest_of_end ht, classRest_of_end ht]) inferInstance
      · rcases hE with hbeyond | hopens
        · exact (Shrinks.leaves t b u h).trans hbeyond
        · exact classRest_of_opensRange hopens h
      · have := (leaves_classRange hs d t ht).length_le
        omega
    refine hon.ofEq (classPart_of_item hop) fun T hT => classPart_of_item ?_
    rw [classOperation?_append _ hT, hop]
    rfl

theorem tracks_classInside {c : Char} (hk : 2 * cs.length + 2 ≤ k)
    (hbody : ∀ s : PatternState, 2 * s.rest.length + 2 ≤ k → Tracks Beyond (classBody k) (fun T => classBody (k' T)) s) :
    Tracks Beyond (classInside k sofar (c :: cs)) (fun T => classInside (k' T) sofar (c :: cs ++ T)) s := by
  cases hname : bracketName? (c :: cs) with
  | some x =>
    obtain ⟨d, rest⟩ := x
    have hlength := (bracketName?_suffix hname).length_le
    have hon : Tracks Beyond (goTo rest >>= fun _ => classRest k (sofar.with d))
        (fun T => goTo (rest ++ T) >>= fun _ => classRest (k' T) (sofar.with d)) s :=
      .goTo (hrest _ _ (by dsimp only; omega))
    refine hon.ofEq (by rw [classInside, hname]) fun T hT => ?_
    rw [classInside, bracketName?_append _ hT, hname]
    rfl
  | none =>
    have hon : Tracks Beyond (goTo cs >>= fun _ => classBody k >>= fun c => classRest k (sofar.with c))
        (fun T => goTo (cs ++ T) >>= fun _ => classBody (k' T) >>= fun c => classRest (k' T) (sofar.with c)) s := by
      refine .goTo ((hbody _ hk).bindWith (fun d t ht => hrest _ _ ?_) fun d t _ ht T => ?_)
      · have := (Shrinks.leaves _ d t ht).length_le
        dsimp only at this
        omega
      · rw [classRest_of_end ht, classRest_of_end ht]
    refine hon.ofEq (by rw [classInside, hname]; rfl) fun T hT => ?_
    rw [classInside, bracketName?_append _ hT, hname]
    rfl

theorem tracks_classOn (hk : 2 * s.rest.length ≤ k)
    (hbody : ∀ s : PatternState, 2 * s.rest.length + 2 ≤ k → Tracks Beyond (classBody k) (fun T => classBody (k' T)) s) :
    Tracks Beyond (classOn k sofar s.rest) (fun T => classOn (k' T) sofar (s.rest ++ T)) s := by
  cases hs : s.rest with
  | nil =>
    refine .of_end hs rfl fun T u hu => ?_
    have hpart : classOn (k' (')' :: T)) sofar ([] ++ ')' :: T) =
      classRange >>= fun c => classRest (k' (')' :: T)) (sofar.with c) := rfl
    rw [hpart]
    exact (leaves_classRange hu).bind fun _ => inferInstance
  | cons c cs =>
    rw [hs, List.length_cons] at hk
    refine .ite (fun _ => .pass hs (.flags .still)) fun _ => .ite (fun _ => ?_) fun _ => ?_
    · exact tracks_classInside hrest (by omega) hbody
    · exact tracks_classPart hrest hs (by omega)

theorem tracks_classHyphens_behind {negated : Bool} (hk : 2 * s.rest.length + 1 ≤ k) :
    Tracks Beyond (classHyphens >>= classBehind k negated) (fun T => classHyphens >>= classBehind (k' T) negated) s := by
  refine tracks_classHyphens.bindWith (fun start t ht => ?_) fun start t _ ht T => ?_
  · have := (Shrinks.leaves s start t ht).length_le
    exact (hrest start t (by omega)).bind fun _ _ _ => .flags .still
  · rw [classBehind_of_end ht, classBehind_of_end ht]

end Class

theorem tracks_class (n : Nat) :
    (∀ (s : PatternState) (n' : List Char → Nat), 2 * s.rest.length + 2 ≤ n → (∀ T, n ≤ n' T) →
      Tracks Beyond (classBody n) (fun T => classBody (n' T)) s) ∧
    (∀ (sofar : ClassSoFar) (s : PatternState) (n' : List Char → Nat), 2 * s.rest.length + 1 ≤ n → (∀ T, n ≤ n' T) →
      Tracks Beyond (classRest n sofar) (fun T => classRest (n' T) sofar) s) := by
  induction n with
  | zero => exact ⟨fun _ _ hn => absurd hn (by omega), fun _ _ _ hn => absurd hn (by omega)⟩
  | succ n ih =>
    obtain ⟨hbody, hrest⟩ := ih
    constructor
    · intro s n' hn hn'
      obtain ⟨k', rfl, hk'⟩ := exists_succ hn'
      have hrest (sofar : ClassSoFar) (s : PatternState) (hs : 2 * s.rest.length + 1 ≤ n) := hrest sofar s k' hs hk'
      simp only [classBody_succ]
      refine .space (classBody_succ ▸ inferInstance) (fun T => classBody_succ ▸ inferInstance) (fun t ht => ?_) fun t ht hnil T => ?_
      · have htn := (Shrinks.leaves s _ t ht).length_le
        have hplain : Tracks Beyond (classHyphens >>= classBehind n false)
            (fun T => classHyphens >>= classBehind (k' T) false) t := tracks_classHyphens_behind hrest (by omega)
        refine .peek (fun c cs hs => .ite (fun _ => ?_) fun _ => hplain) fun _ => hplain
        refine (tracks_step hs).bindWith (fun _ u hu => ?_) fun _ u _ hu T => ?_
        · have := length_lt_of_step hs hu
          exact tracks_classHyphens_behind hrest (by omega)
        · rw [bind_of_some (classHyphens_of_end hu), bind_of_some (classHyphens_of_end hu), classBehind_of_end hu,
            classBehind_of_end hu]
      · rw [bind_of_some peek_apply, bind_of_some peek_apply, hnil, List.head?_nil, if_neg (by decide), if_neg (by decide),
          bind_of_some (classHyphens_of_end hnil), bind_of_some (classHyphens_of_end hnil), classBehind_of_end hnil,
          classBehind_of_end hnil]
    · intro sofar s n' hn hn'
      obtain ⟨k', rfl, hk'⟩ := exists_succ hn'
      simp only [classRest_succ]
      refine .space (classRest_succ ▸ inferInstance) (fun T => classRest_succ ▸ inferInstance) (fun t ht => .left ?_)
        fun t ht hnil T => ?_
      · have htn := (Shrinks.leaves s _ t ht).length_le
        exact tracks_classOn (fun sofar s hs => hrest sofar s k' hs hk') (by omega) fun s hs => hbody s k' hs hk'
      · rw [bind_of_some left_apply, bind_of_some left_apply, hnil]
        rfl

end Rowwise.Regex
