import Rowwise.Proofs.Texts.Limit

/-!
# Rowwise.Proofs.Texts.Counting — a budget of texts and a count of open texts

Reading hands a budget down, from which each text takes one.  The same is read by a program that counts the open texts instead
and compares the count with the limit (`Context.readCounted`): the count is what is missing from the budget, and every run
leaves it as it was, however it ends (`Context.parseCounted_eq`).
-/

namespace Rowwise

open Run Node

variable {c : Context}

/-- What folding evaluates opens no text. -/
theorem Node.fold_nesting (n : Node) : Meets (.nesting 0) (n.fold c) fun _ => True := by
  unfold fold
  split
  · rename_i hfold
    have hvalue := @foldable_simulates (fun k {_} x y => Approximates k 1 x y) _ c (fun _ _ => throw .exhausted)
      (fun _ _ => throw .exhausted) 0 ((Approximates.simulation 1).evaluates c) n hfold
    exact hvalue.meets.bind fun _ _ => Meets.pure trivial
  · exact Meets.pure trivial

namespace Run

/-- A relation that relates each run to itself that opens no text is kept by all ways to build nodes. -/
theorem Relates.builds_of_quiet {rel : {α : Type} → Run α → Run α → (α → Prop) → Prop} (S : Relates rel)
    (hquiet : ∀ {α : Type} {x : Run α} {Q : α → Prop}, Meets (.nesting 0) x Q → rel x x Q)
    {read read' : String → Run Node} (hread : ∀ s, rel (read s) (read' s) fun _ => True) :
    c.Builds rel (fun _ => True) (fun _ => True) (fun _ _ => True) read read' := by
  have hcolumn : ∀ s, Meets (.nesting 0) (Node.columnOf? s) fun _ => True := fun s =>
    (Meets.columnOf? (P := fun _ => True) fun _ _ _ _ _ => trivial).mono fun _ _ => trivial
  exact S.builds hread (fun s => hquiet (hcolumn s)) (fun n => hquiet n.fold_nesting) fun _ _ =>
    hquiet (Meets.note ((Contract.plain_nesting 0).note rfl) trivial)

/-- In every world with `d` open texts the two runs are the same, and leave as many open. -/
def SameAt (d : Int) {α : Type} (x y : Run α) (Q : α → Prop) : Prop :=
  ∀ w, openTexts w.events = d →
    y.exec w = x.exec w ∧ openTexts (x.exec w).2.events = d ∧ Outcome (fun _ => True) Q (x.exec w).1

namespace SameAt

variable {α β : Type} {d : Int} {x y : Run α} {f g : α → Run β} {P Q : α → Prop} {R : β → Prop}

theorem of_nesting {k : Nat} (h : Meets (.nesting k) x Q) : SameAt d x x Q := by
  intro w hw
  obtain ⟨-, hnested, houtcome⟩ := h w trivial
  exact ⟨rfl, by rw [World.Nested.openTexts_eq hnested, hw], houtcome.imp (fun _ _ => trivial) fun _ => id⟩

theorem bind (hx : SameAt d x y P) (hf : ∀ a, P a → SameAt d (f a) (g a) R) : SameAt d (x >>= f) (y >>= g) R := by
  intro w hw
  obtain ⟨hsame, hopen, hresult⟩ := hx w hw
  rw [exec_bind, exec_bind, hsame]
  rcases hr : exec x w with ⟨h | a, v⟩
  · rw [hr] at hopen
    exact ⟨rfl, hopen, trivial⟩
  · rw [hr] at hopen hresult
    exact hf a hresult v hopen

theorem mono (hx : SameAt d x y P) (h : ∀ a, P a → Q a) : SameAt d x y Q := by
  intro w hw
  obtain ⟨hsame, hopen, hresult⟩ := hx w hw
  exact ⟨hsame, hopen, hresult.imp (fun _ => id) h⟩

theorem nested (hx : SameAt d x y Q) (function : String) : SameAt d (Run.nested function x) (Run.nested function y) Q := by
  intro w hw
  obtain ⟨hsame, hopen, hresult⟩ := hx w hw
  rw [exec_nested, exec_nested, hsame]
  exact ⟨rfl, hopen, hresult.mapError fun _ => id⟩

/-- Within a text one more is open, and after it as many as before, also after a halt. -/
theorem inText (hx : SameAt (d + 1) x y Q) : SameAt d (Run.inText x) (Run.inText y) Q := by
  intro w hw
  obtain ⟨hsame, hopen, hresult⟩ := hx w.opening (by simp [World.opening, Event.opens, hw, Int.add_comm])
  rw [exec_inText, exec_inText, hsame]
  refine ⟨rfl, ?_, hresult⟩
  rw [World.closing, openTexts_cons, hopen, Event.opens]
  omega

/-- The second run may count the texts that are open. -/
theorem count {g : World → Run α} (h : ∀ w, openTexts w.events = d → SameAt d x (g w) Q) : SameAt d x (world >>= g) Q :=
  fun w hw => h w hw w hw

theorem relates (d : Int) : Run.Relates (SameAt d) where
  pure h := of_nesting (k := 0) (Meets.pure h)
  fail _ := of_nesting (k := 0) (Meets.fail nofun)
  bind := bind
  mono := mono
  within function hx := hx.nested function
  scope? _ := of_nesting (k := 0) Meets.scope?
  newStream _ := of_nesting (Meets.newStream (Contract.plain_nesting 0).usual)

theorem poll : SameAt d c.poll c.poll fun _ => True := of_nesting (Meets.poll (Contract.plain_nesting 0).usual trivial)

theorem builds {read read' : String → Run Node} (hread : ∀ s, SameAt d (read s) (read' s) fun _ => True) :
    c.Builds (SameAt d) (fun _ => True) (fun _ => True) (fun _ _ => True) read read' :=
  (relates d).builds_of_quiet of_nesting hread

end SameAt

end Run

namespace Context

/-- Reads a text within an expression unless as many are open as the limit says. -/
def readCounted (c : Context) : (fuel : Nat) → String → Run Node
  | 0, _ => throw .exhausted
  | fuel + 1, s => do
    c.poll
    if openTexts (← Run.world).events + 1 > c.options.textLimit then
      Run.fail (.value Builtin.eval.name (.nestedTooDeep c.options.textLimit))
    else Run.inText (c.readWith (c.readCounted fuel) s)

/-- Parses a text and counts the texts within it. -/
def parseCounted (c : Context) (fuel : Nat) (s : String) : Run Expression := do
  return ⟨← c.readWith (c.readCounted fuel) s⟩

/-- The budget is what the open texts leave of the limit. -/
theorem readCounted_same {d : Int} {budget fuel : Nat} (hbudget : d + budget = c.options.textLimit) (hfuel : budget < fuel)
    (s : String) : SameAt d (c.readNested budget s) (c.readCounted fuel s) fun _ => True := by
  induction budget generalizing d fuel s with
  | zero =>
    obtain ⟨fuel, rfl⟩ := Nat.exists_eq_add_of_le' hfuel
    refine SameAt.poll.bind fun _ _ => .count fun w hw => ?_
    rw [if_pos (by omega)]
    exact (SameAt.relates d).fail rfl
  | succ budget ih =>
    obtain ⟨fuel, rfl⟩ := Nat.exists_eq_add_of_le' (Nat.lt_of_le_of_lt (Nat.zero_le _) hfuel)
    refine SameAt.poll.bind fun _ _ => .count fun w hw => ?_
    rw [if_neg (by omega)]
    have hread : ∀ s, SameAt (d + 1) (c.readNested budget s) (c.readCounted fuel s) fun _ => True :=
      ih (by omega) (by omega)
    exact .inText ((SameAt.builds hread).readWith_related s)

/-- Where no text is open parsing with a budget is parsing with a count. -/
theorem parseCounted_eq {w : World} (hw : openTexts w.events = 0) {fuel : Nat} (hfuel : c.options.textLimit < fuel)
    (s : String) : (c.parseCounted fuel s).exec w = (c.parse s).exec w := by
  have hread := ((SameAt.builds (c := c) (readCounted_same (d := 0) (Int.zero_add _) hfuel)).readWith_related s).bind
    fun n _ => (SameAt.relates 0).pure (a := Expression.mk n) (Q := fun _ => True) trivial
  exact (hread w hw).1

end Context

end Rowwise
