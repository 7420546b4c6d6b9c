import Rowwise.Proofs.Patterns.Leaving

/-!
# Rowwise.Proofs.Patterns.Tracking — reading a pattern with more characters behind it

Behind a pattern there may be more characters, the first of them a closing parenthesis.  A reader of the longer text goes the same
way as a reader of the pattern, or it goes astray: it passes the parenthesis, since the pattern ends within one of its parts, or
loses it in a comment at the end of the pattern (`Regex.Tracks`).  Which of the two it is depends on the pattern only.
-/

namespace Rowwise.Regex

open PatternReader

/-- A closing parenthesis stands in front. -/
def Closing (T : List Char) : Prop := ∃ cs, T = ')' :: cs

/-- The state with more characters behind those left. -/
def PatternState.before (s : PatternState) (T : List Char) : PatternState := { s with rest := s.rest ++ T }

/-- The reader has passed the first character of `T`. -/
def Beyond {α : Type} (T : List Char) (_ : α) (t : PatternState) : Prop := t.rest <:+ T.tail

/-- The second reader, with `T` behind what there is, goes the same way as the first one, or it goes astray: where it does not
refuse, its outcome is one of `E`, and the first reader refuses or comes to the end and does not notice `T` if that is one line. -/
inductive Tracks {α : Type} (E : List Char → α → PatternState → Prop) (m : PatternReader α)
    (m' : List Char → PatternReader α) (s : PatternState) : Prop where
  | same (h : ∀ T, Closing T → m' T (s.before T) = (m s).map fun x => (x.1, x.2.before T))
  | astray (hE : ∀ T, Closing T → ∀ a t, m' T (s.before T) = some (a, t) → E T a t)
      (hend : ∀ a t, m s = some (a, t) →
        t.rest = [] ∧ ∀ T, Closing T → '\n' ∉ T → m' T (s.before T) = some (a, t))

variable {α β : Type} {E : List Char → α → PatternState → Prop} {E' : List Char → β → PatternState → Prop}
  {m n : PatternReader α} {m' n' : List Char → PatternReader α} {f : α → PatternReader β}
  {f' : List Char → α → PatternReader β} {s t : PatternState} {T cs : List Char} {a : α}

/-! ### Rules -/

@[simp] theorem PatternState.before_rest : (s.before T).rest = s.rest ++ T := rfl

@[simp] theorem PatternState.before_flags : (s.before T).flags = s.flags := rfl

theorem PatternState.before_rest_of_end (hs : s.rest = []) : (s.before T).rest = T := by
  rw [before_rest, hs, List.nil_append]

theorem Closing.head? (h : Closing T) : T.head? = some ')' := by
  obtain ⟨cs, rfl⟩ := h
  rfl

theorem Closing.eq_cons_tail (h : Closing T) : T = ')' :: T.tail := by
  obtain ⟨cs, rfl⟩ := h
  rfl

namespace Tracks

theorem congr {u : PatternState} (hn : Tracks E n n' u) (h : m s = n u)
    (h' : ∀ T, Closing T → m' T (s.before T) = n' T (u.before T)) : Tracks E m m' s := by
  cases hn with
  | same hsame => exact .same fun T hT => by rw [h' T hT, h, hsame T hT]
  | astray hE hend =>
    refine .astray (fun T hT a t hm => hE T hT a t (h' T hT ▸ hm)) fun a t hm => ?_
    obtain ⟨ht, hline⟩ := hend a t (h ▸ hm)
    exact ⟨ht, fun T hT hnl => (h' T hT).trans (hline T hT hnl)⟩

theorem ofEq (hn : Tracks E n n' s) (h : m = n) (h' : ∀ T, Closing T → m' T = n' T) : Tracks E m m' s :=
  hn.congr (by rw [h]) fun T hT => by rw [h' T hT]

theorem mono {D : List Char → α → PatternState → Prop} (hm : Tracks E m m' s)
    (hD : ∀ T a t, Closing T → E T a t → D T a t) : Tracks D m m' s := by
  cases hm with
  | same hsame => exact .same hsame
  | astray hE hend => exact .astray (fun T hT a t h => hD T a t hT (hE T hT a t h)) hend

/-- One reader after another.  Outcomes that went astray may be carried on by the second reader, and where nothing is left it does
not matter which reader goes on. -/
theorem bindOr (hm : Tracks E m m' s)
    (hcarry : ∀ T a t, Closing T → E T a t → ∀ b u, f' T a t = some (b, u) → E' T b u)
    (hf : ∀ a t, m s = some (a, t) → Tracks E' (f a) (fun T => f' T a) t)
    (hend : ∀ a t, m s = some (a, t) → t.rest = [] → ∀ T, f' T a t = f a t)
    (hshrinks : ∀ a, Shrinks (f a)) : Tracks E' (m >>= f) (fun T => m' T >>= f' T) s := by
  cases hm with
  | same hsame =>
    cases hs : m s with
    | none =>
      refine .same fun T hT => ?_
      rw [bind_of_none hs, bind_of_none (by rw [hsame T hT, hs]; rfl)]
      rfl
    | some x =>
      obtain ⟨a, t⟩ := x
      have hs' : ∀ T, Closing T → m' T (s.before T) = some (a, t.before T) := fun T hT => by
        rw [hsame T hT, hs]
        rfl
      exact (hf a t hs).congr (bind_of_some hs) fun T hT => bind_of_some (hs' T hT)
  | astray hE hline =>
    refine .astray (fun T hT b u h => ?_) fun b u h => ?_
    · obtain ⟨a, t, hm', hf'⟩ := bind_eq_some h
      exact hcarry T a t hT (hE T hT a t hm') b u hf'
    · obtain ⟨a, t, hm, hu⟩ := bind_eq_some h
      obtain ⟨ht, hm'⟩ := hline a t hm
      exact ⟨(hshrinks a).rest_eq_nil ht hu, fun T hT hnl => by rw [bind_of_some (hm' T hT hnl), hend a t hm ht, hu]⟩

theorem bindWith [hshrinks : ∀ a, Shrinks (f a)] [∀ T a, Shrinks (f' T a)] (hm : Tracks Beyond m m' s)
    (hf : ∀ a t, m s = some (a, t) → Tracks Beyond (f a) (fun T => f' T a) t)
    (hend : ∀ a t, m s = some (a, t) → t.rest = [] → ∀ T, f' T a t = f a t) :
    Tracks Beyond (m >>= f) (fun T => m' T >>= f' T) s := by
  refine hm.bindOr (fun T a t _ hbeyond b u hu => ?_) hf hend hshrinks
  exact (Shrinks.leaves t b u hu).trans hbeyond

theorem bind [∀ a, Shrinks (f a)] (hm : Tracks Beyond m m' s)
    (hf : ∀ a t, m s = some (a, t) → Tracks Beyond (f a) (fun _ => f a) t) :
    Tracks Beyond (m >>= f) (fun T => m' T >>= f) s :=
  hm.bindWith hf fun _ _ _ _ _ => rfl

theorem ite {p : Prop} [Decidable p] {n : PatternReader α} {n' : List Char → PatternReader α}
    (hm : p → Tracks E m m' s) (hn : ¬p → Tracks E n n' s) :
    Tracks E (if p then m else n) (fun T => if p then m' T else n' T) s := by
  split
  · rename_i hp
    exact hm hp
  · rename_i hp
    exact hn hp

/-- At the end of the pattern the longer text has a closing parenthesis. -/
theorem peek {f : Option Char → PatternReader β} {f' : List Char → Option Char → PatternReader β}
    (hcons : ∀ c cs, s.rest = c :: cs → Tracks E' (f (some c)) (fun T => f' T (some c)) s)
    (hnil : s.rest = [] → Tracks E' (f none) (fun T => f' T (some ')')) s) :
    Tracks E' (PatternReader.peek >>= f) (fun T => PatternReader.peek >>= f' T) s := by
  cases hs : s.rest with
  | nil =>
    refine (hnil hs).congr (bind_of_some ?_) fun T hT => bind_of_some ?_
    · rw [peek_apply, hs, List.head?_nil]
    · rw [peek_apply, PatternState.before_rest_of_end hs, hT.head?]
  | cons c cs =>
    refine (hcons c cs hs).congr (bind_of_some ?_) fun T hT => bind_of_some ?_
    · rw [peek_apply, hs, List.head?_cons]
    · rw [peek_apply, PatternState.before_rest, hs, List.cons_append, List.head?_cons]

theorem left {f : List Char → PatternReader β} {f' : List Char → List Char → PatternReader β}
    (h : Tracks E' (f s.rest) (fun T => f' T (s.rest ++ T)) s) :
    Tracks E' (PatternReader.left >>= f) (fun T => PatternReader.left >>= f' T) s :=
  h.congr rfl fun _ _ => rfl

theorem flags {f : Flags → PatternReader β} {f' : List Char → Flags → PatternReader β}
    (h : Tracks E' (f s.flags) (fun T => f' T s.flags) s) :
    Tracks E' (PatternReader.flags >>= f) (fun T => PatternReader.flags >>= f' T) s :=
  h.congr rfl fun _ _ => rfl

theorem pass {c : Char} (hs : s.rest = c :: cs) {f : Unit → PatternReader β} {f' : List Char → Unit → PatternReader β}
    (h : Tracks E' (f ()) (fun T => f' T ()) { s with rest := cs }) :
    Tracks E' (PatternReader.pass >>= f) (fun T => PatternReader.pass >>= f' T) s := by
  refine h.congr (bind_of_some ?_) fun T _ => bind_of_some ?_
  · rw [pass_apply, hs, List.drop_one, List.tail_cons]
  · rw [pass_apply, PatternState.before_rest, hs, List.cons_append, List.drop_one, List.tail_cons]
    rfl

theorem goTo {f : Unit → PatternReader β} {f' : List Char → Unit → PatternReader β}
    (h : Tracks E' (f ()) (fun T => f' T ()) { s with rest := cs }) :
    Tracks E' (PatternReader.goTo cs >>= f) (fun T => PatternReader.goTo (cs ++ T) >>= f' T) s :=
  h.congr rfl fun _ _ => rfl

theorem need (h : Tracks E' (f a) (fun T => f' T a) s) :
    Tracks E' (PatternReader.need (some a) >>= f) (fun T => PatternReader.need (some a) >>= f' T) s :=
  h.congr rfl fun _ _ => rfl

theorem needNone {f : α → PatternReader β} {f' : List Char → α → PatternReader β} :
    Tracks E' (PatternReader.need none >>= f) (fun T => PatternReader.need none >>= f' T) s :=
  .same fun _ _ => rfl

/-- A part that the pattern ends within: where the longer text goes on, the parenthesis is passed. -/
theorem of_end (hs : s.rest = []) (hm : m s = none)
    (hm' : ∀ T u, u.rest = ')' :: T → Leaves (m' (')' :: T)) u T) : Tracks Beyond m m' s := by
  refine .astray (fun T hT a t h => ?_) fun a t h => ?_
  · obtain ⟨T, rfl⟩ := hT
    exact hm' T _ (PatternState.before_rest_of_end hs) a t h
  · rw [hm] at h
    cases h

theorem still [hm : Still m] : Tracks E m (fun _ => m) s := by
  obtain ⟨o, hm⟩ := hm
  refine .same fun T _ => ?_
  rw [hm, hm, Option.map_map]
  rfl

end Tracks

/-! ### Moving on -/

variable {D : List Char → Unit → PatternState → Prop}

theorem tracks_modify {g : PatternState → PatternState} (h : ∀ T, g (s.before T) = (g s).before T) :
    Tracks D (modify g : PatternReader Unit) (fun _ => modify g) s :=
  .same fun T _ => congrArg (fun u => some ((), u)) (h T)

theorem tracks_flags {E : List Char → Flags → PatternState → Prop} : Tracks E flags (fun _ => flags) s := .same fun _ _ => rfl

theorem tracks_goTo : Tracks D (goTo cs) (fun T => goTo (cs ++ T)) s := .same fun _ _ => rfl

theorem tracks_setFlags {f : Flags} : Tracks D (setFlags f) (fun _ => setFlags f) s := tracks_modify fun _ => rfl

theorem tracks_newGroup {E : List Char → Nat → PatternState → Prop} : Tracks E newGroup (fun _ => newGroup) s :=
  .same fun _ _ => rfl

theorem tracks_pass {c : Char} (hs : s.rest = c :: cs) : Tracks D pass (fun _ => pass) s := by
  refine tracks_modify fun T => ?_
  simp only [PatternState.before, hs, List.cons_append, List.drop_succ_cons, List.drop_zero]

theorem afterSpace_comment_of_line (h : '\n' ∉ cs) : afterSpace true cs = [] := by
  induction cs with
  | nil => rfl
  | cons c cs ih =>
    rw [List.mem_cons, not_or] at h
    obtain ⟨hc, hcs⟩ := h
    rw [afterSpace, bne_iff_ne.2 (Ne.symm hc), ih hcs]

/-- The text ends within a comment. -/
def EndsInComment (comment : Bool) (cs : List Char) : Prop :=
  afterSpace comment cs = [] ∧ ∀ T, Closing T →
    afterSpace comment (cs ++ T) <:+ T.tail ∧ ('\n' ∉ T → afterSpace comment (cs ++ T) = [])

/-- Behind blanks and comments there is the parenthesis, unless it is in a comment. -/
theorem afterSpace_append (comment : Bool) (cs : List Char) :
    (∀ T, Closing T → afterSpace comment (cs ++ T) = afterSpace comment cs ++ T) ∨ EndsInComment comment cs := by
  induction cs generalizing comment with
  | nil =>
    cases comment with
    | false =>
      left
      rintro _ ⟨T, rfl⟩
      rfl
    | true =>
      refine Or.inr ⟨rfl, ?_⟩
      rintro _ ⟨T, rfl⟩
      have hpass : afterSpace true (')' :: T) = afterSpace true T := rfl
      rw [List.nil_append, hpass, List.mem_cons, not_or]
      exact ⟨afterSpace_suffix, fun hnl => afterSpace_comment_of_line hnl.2⟩
  | cons c cs ih =>
    cases comment with
    | true => exact ih (c != '\n')
    | false =>
      simp only [EndsInComment, List.cons_append, afterSpace]
      split
      · exact ih false
      · split
        · exact ih true
        · exact Or.inl fun _ _ => rfl

theorem tracks_space : Tracks Beyond space (fun _ => space) s := by
  by_cases hspaced : s.flags.spaced = true
  · rcases afterSpace_append false s.rest with hsame | ⟨hend, hbeyond⟩
    · refine .same fun T hT => ?_
      simp only [space_apply, PatternState.before, hspaced, if_true, hsame T hT, Option.map_some]
    · refine .astray (fun T hT a t h => ?_) fun a t h => ?_
      · rw [space_apply, PatternState.before_flags, if_pos hspaced] at h
        cases h
        exact (hbeyond T hT).1
      · rw [space_apply, if_pos hspaced, hend] at h
        cases h
        refine ⟨rfl, fun T hT hnl => ?_⟩
        rw [space_apply, PatternState.before_flags, if_pos hspaced, PatternState.before_rest, (hbeyond T hT).2 hnl]
        rfl
  · refine .same fun T _ => ?_
    rw [space_apply, space_apply, PatternState.before_flags, if_neg hspaced, if_neg hspaced, Option.map_some]

/-- Goes on behind blanks.  The readers as a whole leave an end of what is there, and so do they behind the blanks. -/
theorem Tracks.space {f : Unit → PatternReader β} {f' : List Char → Unit → PatternReader β}
    (hshrinks : Shrinks (space >>= f)) (hshrinks' : ∀ T, Shrinks (space >>= f' T))
    (h : ∀ t, space s = some ((), t) → Tracks Beyond (f ()) (fun T => f' T ()) t)
    (hend : ∀ t, space s = some ((), t) → t.rest = [] → ∀ T, f' T () t = f () t) :
    Tracks Beyond (PatternReader.space >>= f) (fun T => PatternReader.space >>= f' T) s := by
  cases tracks_space (s := s) with
  | same hsame =>
    have hspace := space_apply (s := s)
    refine (h _ hspace).congr (bind_of_some hspace) fun T hT => bind_of_some (a := ()) ?_
    rw [hsame T hT, hspace]
    rfl
  | astray hE hline =>
    refine .astray (fun T hT b u h => ?_) fun b u h => ?_
    · obtain ⟨_, t, ht, hu⟩ := bind_eq_some h
      exact ((hshrinks' T).leaves_of_space ht b u hu).trans (hE T hT _ t ht)
    · obtain ⟨_, t, ht, hu⟩ := bind_eq_some h
      obtain ⟨hrest, hsame⟩ := hline _ t ht
      have hu' := hshrinks.leaves_of_space ht b u hu
      rw [hrest, List.suffix_nil] at hu'
      exact ⟨hu', fun T hT hnl => by rw [bind_of_some (hsame T hT hnl), hend t ht hrest T, hu]⟩

theorem tracks_step {c : Char} (hs : s.rest = c :: cs) : Tracks Beyond step (fun _ => step) s :=
  (tracks_pass hs).bind fun _ _ _ => tracks_space

theorem tracks_next : Tracks Beyond next (fun _ => next) s := by
  refine .peek (fun c cs hs => ?_) fun hs => ?_
  · exact (tracks_step hs).bind fun _ _ _ => .still
  · exact .of_end hs rfl fun T u hu => (leaves_step hu).bind fun _ => inferInstance

theorem tracks_expect {c : Char} : Tracks Beyond (expect c) (fun _ => expect c) s := by
  refine .peek (fun d cs hs => ?_) fun hs => ?_
  · exact .ite (fun _ => tracks_pass hs) fun _ => .still
  · refine .of_end hs rfl fun T u hu => ?_
    split
    · exact leaves_pass hu
    · exact fun _ _ h => by cases h

theorem dropPrefix?_append {w : List Char} (hw : ')' ∉ w) (hT : Closing T) :
    Text.dropPrefix? w (cs ++ T) = (Text.dropPrefix? w cs).map (· ++ T) := by
  induction w generalizing cs with
  | nil => rfl
  | cons c w ih =>
    rw [List.mem_cons, not_or] at hw
    obtain ⟨hc, hw⟩ := hw
    cases cs with
    | nil =>
      obtain ⟨T, rfl⟩ := hT
      exact if_neg (Ne.symm hc)
    | cons d cs =>
      rw [List.cons_append, Text.dropPrefix?, Text.dropPrefix?]
      split
      · exact ih hw
      · rfl

theorem tracks_accept {E : List Char → Bool → PatternState → Prop} {w : String} (hw : ')' ∉ w.toList) :
    Tracks E (accept w) (fun _ => accept w) s := by
  refine .left (.same fun T hT => ?_)
  rw [dropPrefix?_append hw hT]
  cases Text.dropPrefix? w.toList s.rest <;> rfl

/-! ### Characters and numbers -/

theorem takeDigits_of_other {n : Nat} {taken : List Char} (h : ∀ c, s.rest.head? = some c → c.isDigit = false) :
    takeDigits n taken s = some (taken.reverse, s) := by
  cases n with
  | zero => rfl
  | succ n =>
    rw [takeDigits, bind_of_some peek_apply]
    cases hs : s.rest.head? with
    | none => rfl
    | some c =>
      simp only [h c hs]
      rfl

/-- More rounds than the longer text needs change nothing. -/
theorem exists_succ {n : Nat} {n' : List Char → Nat} (hn' : ∀ T, n + 1 ≤ n' T) :
    ∃ k' : List Char → Nat, n' = (fun T => k' T + 1) ∧ ∀ T, n ≤ k' T :=
  ⟨fun T => n' T - 1, funext fun T => (Nat.sub_add_cancel (Nat.le_trans (Nat.le_add_left 1 n) (hn' T))).symm,
    fun T => Nat.le_sub_one_of_lt (hn' T)⟩

theorem length_lt_of_step {c : Char} (hs : s.rest = c :: cs) (h : step s = some ((), t)) : t.rest.length < s.rest.length := by
  rw [hs]
  exact Nat.lt_succ_of_le (leaves_step hs () t h).length_le

/-- A reader that stops at a parenthesis does so at the end of the pattern. -/
theorem Tracks.of_stop {p : Char → Bool} (hp : p ')' = false) (hs : s.rest = [])
    (hm : ∀ t, (∀ c, t.rest.head? = some c → p c = false) → m t = some (a, t))
    (hm' : ∀ T t, (∀ c, t.rest.head? = some c → p c = false) → m' T t = some (a, t)) : Tracks E m m' s := by
  refine .same fun T hT => ?_
  rw [hm s (by simp [hs]), hm' T]
  · rfl
  · rw [PatternState.before_rest_of_end hs, hT.head?]
    rintro _ ⟨⟩
    exact hp

theorem tracks_takeDigits {n : Nat} {n' : List Char → Nat} {taken : List Char} (hn : s.rest.length ≤ n)
    (hn' : ∀ T, n ≤ n' T) : Tracks Beyond (takeDigits n taken) (fun T => takeDigits (n' T) taken) s := by
  induction n generalizing s n' taken with
  | zero =>
    have hs : s.rest = [] := List.length_eq_zero_iff.1 (Nat.le_zero.1 hn)
    exact .of_stop (p := Char.isDigit) rfl hs (fun _ => takeDigits_of_other) fun _ _ => takeDigits_of_other
  | succ n ih =>
    obtain ⟨k', rfl, hk'⟩ := exists_succ hn'
    refine .peek (fun c cs hs => .ite (fun _ => ?_) fun _ => .still) fun hs => ?_
    · refine (tracks_step hs).bindWith (fun _ t hstep => ?_) fun _ t _ ht T => ?_
      · have := length_lt_of_step hs hstep
        exact ih (by omega) hk'
      · rw [takeDigits_of_other, takeDigits_of_other] <;> simp [ht]
    · exact .still

theorem dropWhile_append {p : Char → Bool} (hp : p ')' = false) (hT : Closing T) :
    (cs ++ T).dropWhile p = cs.dropWhile p ++ T := by
  obtain ⟨T, rfl⟩ := hT
  induction cs with
  | nil => simp [hp]
  | cons c cs ih =>
    rw [List.cons_append, List.dropWhile_cons, List.dropWhile_cons, ih]
    split <;> rfl

theorem tracks_dropWhile {p : Char → Bool} (hp : p ')' = false) {f : PatternReader β}
    (hf : ∀ t, Tracks E' f (fun _ => f) t) :
    Tracks E' (PatternReader.left >>= fun cs => goTo (cs.dropWhile p) >>= fun _ => f)
      (fun _ => PatternReader.left >>= fun cs => goTo (cs.dropWhile p) >>= fun _ => f) s := by
  refine (hf { s with rest := s.rest.dropWhile p }).congr rfl fun T hT => ?_
  rw [bind_of_some left_apply, bind_of_some goTo_apply, PatternState.before_rest, dropWhile_append hp hT]
  rfl

theorem tracks_passBlanks : Tracks Beyond passBlanks (fun _ => passBlanks) s :=
  tracks_dropWhile rfl fun _ => tracks_space

theorem tracks_count : Tracks Beyond count (fun _ => count) s := by
  refine tracks_dropWhile rfl fun t => .left ?_
  refine (tracks_takeDigits (Nat.le_refl _) fun T => ?_).bind fun digits _ _ => tracks_passBlanks.bind fun _ _ _ => .still
  simp

theorem tracks_takeSome {n : Nat} : Tracks Beyond (takeSome n) (fun _ => takeSome n) s := by
  induction n generalizing s with
  | zero => exact (Tracks.still : Tracks Beyond (pure []) (fun _ => pure []) s)
  | succ n ih => exact tracks_next.bind fun _ _ _ => ih.bind fun _ _ _ => .still

theorem takeUntil_of_end {close : Char} {n : Nat} (hs : s.rest = []) : takeUntil close n s = none := by
  cases n with
  | zero => rfl
  | succ n =>
    rw [takeUntil, bind_of_some peek_apply, hs]
    rfl

theorem tracks_takeUntil {close : Char} {n : Nat} {n' : List Char → Nat} (hn : s.rest.length < n) (hn' : ∀ T, n ≤ n' T) :
    Tracks Beyond (takeUntil close n) (fun T => takeUntil close (n' T)) s := by
  induction n generalizing s n' with
  | zero => exact absurd hn (Nat.not_lt_zero _)
  | succ n ih =>
    obtain ⟨k', rfl, hk'⟩ := exists_succ hn'
    refine .peek (fun c cs hs => .ite (fun _ => ?_) fun _ => ?_) fun hs => .of_end hs rfl fun T u hu => ?_
    · exact (tracks_pass hs).bind fun _ _ _ => .still
    · refine (tracks_step hs).bindWith (fun _ t hstep => ?_) fun _ t _ ht T => ?_
      · have := length_lt_of_step hs hstep
        exact (ih (by omega) hk').bind fun _ _ _ => .still
      · rw [bind_of_none (takeUntil_of_end ht), bind_of_none (takeUntil_of_end ht)]
    · dsimp only
      split
      · exact (leaves_pass hu).bind fun _ => inferInstance
      · exact (leaves_step hu).bind fun _ => inferInstance

/-- A name in braces, read with as many rounds as there are characters. -/
theorem tracks_braced {f : List Char → PatternReader β} (hf : ∀ name, Still (f name)) :
    Tracks Beyond (PatternReader.left >>= fun cs => takeUntil '\x7d' (cs.length + 1) >>= f)
      (fun _ => PatternReader.left >>= fun cs => takeUntil '\x7d' (cs.length + 1) >>= f) s := by
  refine .left ((tracks_takeUntil (Nat.lt_succ_self _) fun T => ?_).bind fun _ _ _ => .still)
  simp

theorem tracks_hexCharacter {width : Nat} : Tracks Beyond (hexCharacter width) (fun _ => hexCharacter width) s := by
  have hplain {t : PatternState} : Tracks Beyond (takeSome width >>= characterOf) (fun _ => takeSome width >>= characterOf) t :=
    tracks_takeSome.bind fun _ _ _ => .still
  refine .peek (fun c cs hs => .ite (fun _ => ?_) fun _ => hplain) fun _ => hplain
  exact (tracks_step hs).bind fun _ _ _ => tracks_braced fun digits => inferInstance

/-! ### Escapes -/

theorem tracks_propertyClass {negated : Bool} : Tracks Beyond (propertyClass negated) (fun _ => propertyClass negated) s := by
  rw [propertyClass_eq]
  refine tracks_flags.bind fun f _ _ => .ite (fun _ => .still) fun _ => tracks_next.bind fun c _ _ => ?_
  exact .ite (fun _ => tracks_braced fun name => inferInstance) fun _ => .still

theorem takeAnchorName_of_other {n : Nat} (h : ∀ c, s.rest.head? = some c → isAnchorName c = false) :
    takeAnchorName n s = some ([], s) := by
  cases n with
  | zero => rfl
  | succ n =>
    rw [takeAnchorName, bind_of_some peek_apply]
    cases hs : s.rest.head? with
    | none => rfl
    | some c =>
      simp only [h c hs]
      rfl

theorem tracks_takeAnchorName {n : Nat} {n' : List Char → Nat} (hn : s.rest.length ≤ n)
    (hn' : ∀ T, n ≤ n' T) : Tracks Beyond (takeAnchorName n) (fun T => takeAnchorName (n' T)) s := by
  induction n generalizing s n' with
  | zero =>
    have hs : s.rest = [] := List.length_eq_zero_iff.1 (Nat.le_zero.1 hn)
    exact .of_stop (p := isAnchorName) rfl hs (fun _ => takeAnchorName_of_other) fun _ _ => takeAnchorName_of_other
  | succ n ih =>
    obtain ⟨k', rfl, hk'⟩ := exists_succ hn'
    refine .peek (fun c cs hs => .ite (fun _ => ?_) fun _ => .still) fun hs => ?_
    · refine (tracks_step hs).bindWith (fun _ t hstep => ?_) fun _ t _ ht T => ?_
      · have := length_lt_of_step hs hstep
        exact (ih (by omega) hk').bind fun _ _ _ => .still
      · rw [bind_of_some, bind_of_some] <;> rw [takeAnchorName_of_other] <;> simp [ht]
    · exact .still

/-- The name of an edge of a word behind a brace; without one the reader goes back to `here`. -/
def namedEdge (ascii : Bool) (here : List Char) : PatternReader Anchor := do
  match ← peek with
  | none => refuse
  | some c =>
    if !isAnchorName c then
      goTo here
      return .wordEdge ascii
    let name ← takeAnchorName (← left).length
    expect '\x7d'
    need (wordAnchor? ascii name)

theorem wordEdge_eq : wordEdge = (do
    let f ← flags
    let here ← left
    if here.head? ≠ some '\x7b' then return .wordEdge (!f.unicode)
    step
    namedEdge (!f.unicode) here) := rfl

/-- A brace with nothing between it and `T` that has a meaning. -/
def OpensBrace (T : List Char) (t : PatternState) : Prop := t.rest.head? = some '\x7b' ∧ Leaves step t T

theorem step_apply : ∃ cs, step s = some ((), { s with rest := cs }) := by
  unfold step
  rw [bind_of_some pass_apply, space_apply]
  split <;> exact ⟨_, rfl⟩

theorem tracks_namedEdge {ascii : Bool} {here : List Char} (hs : s.rest ≠ []) :
    Tracks Beyond (namedEdge ascii here) (fun T => namedEdge ascii (here ++ T)) s := by
  refine .peek (fun c cs hc => .ite (fun _ => ?_) fun _ => .left ?_) fun hnil => absurd hnil hs
  · exact tracks_goTo.bind fun _ _ _ => .still
  · refine (tracks_takeAnchorName (Nat.le_refl _) fun T => ?_).bind fun name _ _ => tracks_expect.bind fun _ _ _ => .still
    simp

/-- Where the pattern ends behind the brace, the longer text has no name there, or the reader goes astray. -/
theorem namedEdge_of_end {ascii : Bool} {here : List Char} {b : Anchor} {u : PatternState} (hT : Closing T)
    (hs : s.rest <:+ T) (h : namedEdge ascii here s = some (b, u)) : u.rest <:+ T.tail ∨ u = { s with rest := here } := by
  rw [namedEdge, bind_of_some peek_apply] at h
  cases hhead : s.rest.head? with
  | none =>
    rw [hhead] at h
    cases h
  | some c =>
    simp only [hhead] at h
    split at h
    · cases h
      exact Or.inr rfl
    · rename_i hname
      left
      have hu : u.rest <:+ s.rest := Shrinks.leaves s b u h
      rw [hT.eq_cons_tail, List.suffix_cons_iff] at hs
      rcases hs with hs | hs
      · rw [hs, List.head?_cons] at hhead
        cases hhead
        exact absurd rfl hname
      · exact hu.trans hs

/-- A brace that the pattern ends behind is taken for a name or a repetition: both ends up astray. -/
theorem tracks_step_namedEdge {ascii : Bool} (hs : s.rest = '\x7b' :: cs) :
    Tracks (fun T _ t => t.rest <:+ T.tail ∨ OpensBrace T t) (step >>= fun _ => namedEdge ascii s.rest)
      (fun T => step >>= fun _ => namedEdge ascii (s.rest ++ T)) s := by
  obtain ⟨ds, hstep⟩ := step_apply (s := s)
  have htracks := tracks_step hs
  by_cases hds : ds = []
  · refine .astray (fun T hT b t h => ?_) fun b t h => ?_
    · obtain ⟨_, v, hv, hnamed⟩ := bind_eq_some h
      have hrest : v.rest <:+ T := by
        cases htracks with
        | same hsame =>
          rw [hsame T hT, hstep] at hv
          cases hv
          simp [hds]
        | astray hE _ => exact (hE T hT _ _ hv).trans (List.tail_suffix T)
      refine (namedEdge_of_end hT hrest hnamed).imp_right fun ht => ?_
      obtain ⟨es, hes⟩ := step_apply (s := s.before T)
      rw [hv] at hes
      cases hes
      subst ht
      refine ⟨by simp [hs], fun _ w hw => ?_⟩
      have hback : step (s.before T) = some ((), w) := hw
      rw [hv] at hback
      cases hback
      exact hrest
    · rw [bind_of_some hstep, namedEdge, bind_of_some peek_apply, hds] at h
      cases h
  · cases htracks with
    | same hsame =>
      have hthere : Tracks Beyond (namedEdge ascii s.rest) (fun T => namedEdge ascii (s.rest ++ T)) { s with rest := ds } :=
        tracks_namedEdge hds
      refine (hthere.mono fun _ _ _ _ => Or.inl).congr (bind_of_some hstep) fun T hT => bind_of_some (a := ()) ?_
      rw [hsame T hT, hstep]
      rfl
    | astray _ hend => exact absurd (hend _ _ hstep).1 hds

theorem tracks_wordEdge : Tracks (fun T _ t => t.rest <:+ T.tail ∨ OpensBrace T t) wordEdge (fun _ => wordEdge) s := by
  rw [wordEdge_eq]
  refine .flags (.left ?_)
  by_cases hbrace : s.rest.head? = some '\x7b'
  · obtain ⟨cs, hs⟩ := List.head?_eq_some_iff.1 hbrace
    refine (tracks_step_namedEdge hs).ofEq (if_neg fun h => h hbrace) fun T _ => if_neg fun h => h ?_
    rw [hs]
    rfl
  · refine Tracks.still.ofEq (if_pos hbrace) fun T hT => if_pos ?_
    cases hs : s.rest with
    | nil =>
      rw [List.nil_append, hT.head?]
      decide
    | cons c cs => rwa [hs] at hbrace

/-- Only an edge of a word may go astray without passing the parenthesis. -/
theorem tracks_escape : Tracks (fun T e t => t.rest <:+ T.tail ∨ (∃ a, e = .anchor a) ∧ OpensBrace T t) escape
    (fun _ => escape) s := by
  cases hs : s.rest with
  | nil => exact (Tracks.of_end hs (escape_of_end hs) fun T u hu => leaves_escape hu).mono fun _ _ _ _ => Or.inl
  | cons c cs =>
    refine .flags (.peek (fun d ds hd => .need (.ite (fun _ => ?_) fun _ => .ite (fun _ => ?_) fun _ => ?_)) fun hnil => ?_)
    · refine Tracks.mono ?_ fun _ _ _ _ => Or.inl
      exact (tracks_step hd).bind fun _ _ _ => tracks_hexCharacter.bind fun _ _ _ => .still
    · refine Tracks.mono ?_ fun _ _ _ _ => Or.inl
      exact (tracks_step hd).bind fun _ _ _ => tracks_propertyClass.bind fun _ _ _ => .still
    · refine .pass hd (.ite (fun _ => .still) fun _ => ?_)
      split
      all_goals try exact .still
      refine tracks_wordEdge.bindOr (fun T a t _ hE b u h => ?_) (fun _ _ _ => .still) (fun _ _ _ _ _ => rfl) inferInstance
      cases h
      exact hE.imp_right fun hbrace => ⟨⟨a, rfl⟩, hbrace⟩
    · rw [hs] at hnil
      cases hnil

end Rowwise.Regex
