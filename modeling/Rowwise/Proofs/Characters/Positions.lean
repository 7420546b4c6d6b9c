import Rowwise.Function.Text
import Rowwise.Proofs.Characters.Search
import Rowwise.Proofs.Numbers.Integers

/-!
# Rowwise.Proofs.Characters.Positions — positions in texts

Positions and lengths count characters from zero, whatever number of bytes the characters have.  A whole number that is not
negative is taken for the count that it is, or for the greatest position, which no text reaches, if it is beyond all
(`characterCount_eq`).  So each function is an operation on the list of characters (`TextFunction.cut_run` and its siblings), and
they agree on positions: a cut and what stands before and behind it make up the text, a character is a cut of one, a search finds
the first cut that is the text searched for, and a text starts and ends with its first and last characters
(`TextFunction.positions_coherent`).
-/

namespace Rowwise

variable {s p : String} {v w u : Value} {i n : Nat} {x : Float}

/-- The value is a number, and it is this count. -/
def Value.IsCount (v : Value) (n : Nat) : Prop := ∃ x, v.number? = some x ∧ Double.IsInt x n

theorem Value.IsCount.number (h : v.IsCount n) : Double.IsInt v.toNumber n := by
  obtain ⟨x, hv, hx⟩ := h
  cases v <;> cases hv <;> exact hx

theorem Value.IsCount.isMissing (h : v.IsCount n) : v.isMissing = false := by
  obtain ⟨x, hv, hx⟩ := h
  cases v <;> cases hv <;> exact hx.isMissing

/-- Counts beyond the greatest position are pulled to it. -/
theorem characterCount_eq (what : String) (hx : Double.IsInt x n) : characterCount what x = .ok (min n maxPosition) := by
  obtain ⟨q, hq, hfraction, hcount⟩ := Double.isInt_iff.1 hx
  have hnat : Double.toNat64 x = min n maxPosition := by
    rw [Double.toNat64, Double.saturate, hq]
    simp only [hcount]
    unfold Double.clamp maxPosition twoTo
    omega
  rw [characterCount, hq]
  simp only
  rw [if_pos ⟨hfraction, hcount ▸ Int.natCast_nonneg n⟩, hnat]

theorem Value.ofChars_eq_text_iff {cs : List Char} : ofChars cs = .text (some s) ↔ cs = s.toList := by
  simp [ofChars, String.ext_iff]

namespace TextFunction

/-! ### Operations on characters -/

theorem run_counted {f : TextFunction} {vs : List Value} (hf : f ≠ .text) (hf' : f ≠ .parse)
    (hvs : ∀ v ∈ vs, v.isMissing = false) : f.run (.text (some s) :: vs) = f.runPresent (.text (some s) :: vs) := by
  have hany : (Value.text (some s) :: vs).any Value.isMissing = false := by
    rw [List.any_cons, List.any_eq_false.2 fun v hv => Bool.eq_false_iff.1 (hvs v hv)]
    rfl
  unfold run
  split
  · exact absurd rfl hf
  · exact absurd rfl hf'
  · rw [hany]
    rfl

theorem first_run (hs : s.length < maxPosition) (hv : v.IsCount i) :
    first.run [.text (some s), v] = .ok (.ofChars (s.toList.take i)) := by
  have hrun : first.run [.text (some s), v] =
      characterCount "length" v.toNumber >>= fun n => .ok (.ofChars (s.toList.take n)) :=
    run_counted (by decide) (by decide) (by simp [hv.isMissing])
  have htake : s.toList.take (min i maxPosition) = s.toList.take i := by
    rw [List.take_eq_take_iff, String.length_toList]
    omega
  rw [hrun, characterCount_eq _ hv.number, ← htake]
  rfl

theorem last_run (hs : s.length < maxPosition) (hv : v.IsCount n) :
    last.run [.text (some s), v] = .ok (.ofChars (s.toList.drop (s.length - n))) := by
  have hrun : last.run [.text (some s), v] =
      characterCount "length" v.toNumber >>= fun n => .ok (.ofChars (s.toList.drop (s.length - n))) :=
    run_counted (by decide) (by decide) (by simp [hv.isMissing])
  have hdrop : s.length - min n maxPosition = s.length - n := by omega
  rw [hrun, characterCount_eq _ hv.number, ← hdrop]
  rfl

theorem cut_run (hs : s.length < maxPosition) (hv : v.IsCount i) (hw : w.IsCount n) :
    cut.run [.text (some s), v, w] =
      if i + n ≤ s.length then .ok (.ofChars ((s.toList.drop i).take n))
      else .error (.cutOutside (min i maxPosition) (min (i + n) maxPosition) s.length) := by
  have hrun : cut.run [.text (some s), v, w] = cutAt s v.toNumber w.toNumber :=
    run_counted (by decide) (by decide) (by simp [hv.isMissing, hw.isMissing])
  have hfinish : min (min i maxPosition + min n maxPosition) maxPosition = min (i + n) maxPosition := by omega
  have hsteps : cutAt s v.toNumber w.toNumber =
      if s.length < min (i + n) maxPosition then
        .error (.cutOutside (min i maxPosition) (min (i + n) maxPosition) s.length)
      else .ok (.ofChars ((s.toList.drop (min i maxPosition)).take (min n maxPosition))) := by
    rw [cutAt, characterCount_eq _ hv.number, characterCount_eq _ hw.number, ← hfinish]
    rfl
  rw [hrun, hsteps]
  by_cases h : i + n ≤ s.length
  · rw [if_pos h, if_neg (by omega), Nat.min_eq_left (by omega), Nat.min_eq_left (by omega)]
  · rw [if_neg h, if_pos (by omega)]

theorem char_run (hs : s.length < maxPosition) (hv : v.IsCount i) :
    char.run [.text (some s), v] =
      match s.toList[i]? with
      | some c => .ok (.ofChars [c])
      | none => .error (.indexOutside (min i maxPosition) s.length) := by
  have hrun : char.run [.text (some s), v] = charAt s v.toNumber :=
    run_counted (by decide) (by decide) (by simp [hv.isMissing])
  have hchar : s.toList[min i maxPosition]? = s.toList[i]? := by
    rcases Nat.le_total i maxPosition with hle | hle
    · rw [Nat.min_eq_left hle]
    · rw [List.getElem?_eq_none (by rw [String.length_toList]; omega),
        List.getElem?_eq_none (by rw [String.length_toList]; omega)]
  rw [hrun, charAt, characterCount_eq _ hv.number, ← hchar]
  rfl

/-! ### Agreement -/

/-- A cut is there if all its characters are. -/
theorem exists_cut_iff (hs : s.length < maxPosition) (hv : v.IsCount i) (hw : w.IsCount n) :
    (∃ r, cut.run [.text (some s), v, w] = .ok r) ↔ i + n ≤ s.length := by
  rw [cut_run hs hv hw]
  by_cases h : i + n ≤ s.length
  · rw [if_pos h]
    exact iff_of_true ⟨_, rfl⟩ h
  · rw [if_neg h]
    exact iff_of_false (fun ⟨_, hr⟩ => nomatch hr) h

/-- It stands between the characters in front of it and those that remain. -/
theorem cut_parts (hs : s.length < maxPosition) (hv : v.IsCount i) (hw : w.IsCount n) (hu : u.IsCount (s.length - i - n))
    (h : i + n ≤ s.length) : ∃ a b c, first.run [.text (some s), v] = .ok (.text (some a)) ∧
      cut.run [.text (some s), v, w] = .ok (.text (some b)) ∧ last.run [.text (some s), u] = .ok (.text (some c)) ∧
      a ++ b ++ c = s := by
  have hcut := cut_run hs hv hw
  rw [if_pos h] at hcut
  refine ⟨_, _, _, first_run hs hv, hcut, last_run hs hu, ?_⟩
  have hrest : s.length - (s.length - i - n) = i + n := by omega
  rw [hrest, ← String.ofList_append, ← String.ofList_append, ← List.drop_drop, List.append_assoc, List.take_append_drop,
    List.take_append_drop, String.ofList_toList]

/-- A character is a cut of one. -/
theorem char_eq_cut (hs : s.length < maxPosition) (hv : v.IsCount i) (hw : w.IsCount 1) (r : Value) :
    char.run [.text (some s), v] = .ok r ↔ cut.run [.text (some s), v, w] = .ok r := by
  rw [char_run hs hv, cut_run hs hv hw]
  by_cases h : i < s.toList.length
  · have hlast : i + 1 ≤ s.length := by rwa [← String.length_toList]
    rw [if_pos hlast, List.getElem?_eq_getElem h, List.drop_eq_getElem_cons h]
    rfl
  · have hbeyond : ¬ i + 1 ≤ s.length := by rwa [← String.length_toList]
    rw [if_neg hbeyond, List.getElem?_eq_none (Nat.le_of_not_lt h)]
    exact iff_of_false nofun nofun

/-- A cut as long as a text is that text if it occurs there. -/
theorem cut_eq_iff (hs : s.length < maxPosition) (hv : v.IsCount i) (hw : w.IsCount p.length) :
    cut.run [.text (some s), v, w] = .ok (.text (some p)) ↔ i + p.length ≤ s.length ∧ p.toList <+: s.toList.drop i := by
  rw [cut_run hs hv hw]
  by_cases h : i + p.length ≤ s.length
  · rw [if_pos h, and_iff_right h, Except.ok.injEq, Value.ofChars_eq_text_iff, List.prefix_iff_eq_take, String.length_toList,
      eq_comm]
  · rw [if_neg h]
    exact iff_of_false nofun fun hin => h hin.1

/-- The search of `s` for `p` says whether it is there and where: at the least position of a cut that is `p`.  It may go over
the bytes of the texts, if the characters in front of what it finds are counted. -/
structure Finds (s p : String) (there : Bool) (position : Int) : Prop where
  contains_run : contains.run [.text (some s), .text (some p)] = .ok (.ofBool there)
  index_run : index.run [.text (some s), .text (some p)] = .ok (.ofInt position)
  exact_double : s.length ≤ 2 ^ 53 → Double.IsInt (Double.ofInt position) position
  there_iff : there = true ↔ 0 ≤ position
  reached : ∀ (v w : Value) (i : Nat), v.IsCount i → w.IsCount p.length → (i : Int) = position →
    cut.run [.text (some s), v, w] = .ok (.text (some p))
  least : ∀ (v w : Value) (i : Nat), v.IsCount i → w.IsCount p.length →
    cut.run [.text (some s), v, w] = .ok (.text (some p)) → 0 ≤ position ∧ position ≤ i
  over_bytes : ∀ i : Nat, position = i ↔ ∃ b, Text.FirstAt p.toByteArray.data.toList s.toByteArray.data.toList b ∧
    i ≤ s.length ∧ (String.ofList (s.toList.take i)).utf8ByteSize = b

/-- `f` tells of a text whether the characters that `g` takes, as many as `p` has, are `p`. -/
def TellsBy (f g : TextFunction) (s p : String) : Prop :=
  ∃ b, f.run [.text (some s), .text (some p)] = .ok (.ofBool b) ∧ ∀ w : Value, w.IsCount p.length →
    (b = true ↔ g.run [.text (some s), w] = .ok (.text (some p)) ∧ p.length ≤ s.length)

theorem contains_eq (s p : String) : contains.run [.text (some s), .text (some p)] =
    .ok (.ofBool (Text.indexOf? p.toList s.toList).isSome) := rfl

theorem index_eq (s p : String) : index.run [.text (some s), .text (some p)] =
    .ok (.ofInt (match Text.indexOf? p.toList s.toList with
      | some i => (i : Int)
      | none => -1)) := rfl

theorem exists_finds (hs : s.length < maxPosition) : ∃ there position, Finds s p there position := by
  cases hindex : Text.indexOf? p.toList s.toList with
  | none =>
    refine ⟨false, -1, by rw [contains_eq, hindex]; rfl, by rw [index_eq, hindex],
      fun _ => Double.isInt_ofInt (by decide), by decide, fun _ _ _ _ _ => nofun, fun v w i hv hw hcut => ?_, fun i => ?_⟩
    · exact absurd ((cut_eq_iff hs hv hw).1 hcut).2 (Text.indexOf?_eq_none_iff.1 hindex i)
    · rw [← Text.indexOf?_eq_some_iff_kept, hindex]
      exact iff_of_false (by omega) (by simp)
  | some k =>
    have hfirst : Text.FirstAt p.toList s.toList k := Text.indexOf?_eq_some_iff.1 hindex
    have hend : k + p.length ≤ s.length := by
      have hfits := hfirst.add_length_le
      rwa [String.length_toList, String.length_toList] at hfits
    refine ⟨true, k, by rw [contains_eq, hindex]; rfl, by rw [index_eq, hindex],
      fun hlength => Double.isInt_ofInt (by omega), by simp, fun v w i hv hw hik => ?_, fun v w i hv hw hcut => ?_,
      fun i => ?_⟩
    · obtain rfl := Int.ofNat_inj.1 hik
      exact (cut_eq_iff hs hv hw).2 ⟨hend, hfirst.1⟩
    · have hle : k ≤ i := Nat.le_of_not_lt fun hless => hfirst.2 i hless ((cut_eq_iff hs hv hw).1 hcut).2
      omega
    · rw [← Text.indexOf?_eq_some_iff_kept, hindex, Option.some_inj, Int.natCast_inj]

theorem starts_by_first (hs : s.length < maxPosition) : TellsBy starts first s p := by
  refine ⟨_, rfl, fun w hw => ?_⟩
  rw [Text.startsWith_iff, first_run hs hw, Except.ok.injEq, Value.ofChars_eq_text_iff, List.prefix_iff_eq_take,
    String.length_toList, eq_comm]
  refine (and_iff_left_of_imp fun h => ?_).symm
  have hlength := congrArg List.length h
  simp only [List.length_take, String.length_toList] at hlength
  omega

theorem ends_by_last (hs : s.length < maxPosition) : TellsBy ends last s p := by
  refine ⟨_, rfl, fun w hw => ?_⟩
  rw [Text.endsWith_iff, last_run hs hw, Except.ok.injEq, Value.ofChars_eq_text_iff, List.suffix_iff_eq_drop,
    String.length_toList, String.length_toList, eq_comm]
  refine (and_iff_left_of_imp fun h => ?_).symm
  have hlength := congrArg List.length h
  simp only [List.length_drop, String.length_toList] at hlength
  omega

/-- The functions of positions in `s` and of the search for `p` in it agree on what a position is. -/
structure Coherent (s p : String) : Prop where
  /-- Lengths count characters. -/
  counted : ∀ t ∈ [s, p], length.run [.text (some t)] = .ok (.ofInt t.length) ∧
    (t.length ≤ 2 ^ 53 → (Value.ofInt t.length).IsCount t.length)
  /-- A cut is there if all its characters are. -/
  cut_there : ∀ (v w : Value) (i n : Nat), v.IsCount i → w.IsCount n →
    ((∃ r, cut.run [.text (some s), v, w] = .ok r) ↔ i + n ≤ s.length)
  /-- The text is what stands in front of the cut, the cut and what remains. -/
  parts : ∀ (v w u : Value) (i n : Nat), v.IsCount i → w.IsCount n → u.IsCount (s.length - i - n) → i + n ≤ s.length →
    ∃ a b c, first.run [.text (some s), v] = .ok (.text (some a)) ∧ cut.run [.text (some s), v, w] = .ok (.text (some b)) ∧
      last.run [.text (some s), u] = .ok (.text (some c)) ∧ a ++ b ++ c = s
  /-- A character is a cut of one. -/
  char_cut : ∀ (v w : Value) (i : Nat), v.IsCount i → w.IsCount 1 →
    ∀ r, char.run [.text (some s), v] = .ok r ↔ cut.run [.text (some s), v, w] = .ok r
  /-- A search finds the first cut that is the text searched for, if there is one. -/
  search : ∃ there position, Finds s p there position
  /-- What the text starts with are its first characters. -/
  start : TellsBy starts first s p
  /-- What it ends with are its last. -/
  finish : TellsBy ends last s p

/-- Positions mean the same to all functions of texts, for every text that ends before the greatest position, as all texts in
memory do. -/
theorem positions_coherent (hs : s.length < maxPosition) : Coherent s p where
  counted _ _ := ⟨rfl, fun ht => ⟨_, rfl, Double.isInt_ofInt ht⟩⟩
  cut_there _ _ _ _ hv hw := exists_cut_iff hs hv hw
  parts _ _ _ _ _ hv hw hu h := cut_parts hs hv hw hu h
  char_cut _ _ _ hv hw := char_eq_cut hs hv hw
  search := exists_finds hs
  start := starts_by_first hs
  finish := ends_by_last hs

/-- Seven bytes, five characters. -/
theorem positions_coherent_umlauts : Coherent "grüße" "ß" ∧
    ∃ a b c, first.run [.text (some "grüße"), .integer 1] = .ok (.text (some a)) ∧
      cut.run [.text (some "grüße"), .integer 1, .double 3] = .ok (.text (some b)) ∧
      last.run [.text (some "grüße"), .integer 1] = .ok (.text (some c)) ∧ a ++ b ++ c = "grüße" := by
  have hlength : "grüße".length < maxPosition := by decide
  have hone : (Value.integer 1).IsCount 1 := ⟨1, rfl, by decide +kernel⟩
  have hthree : (Value.double 3).IsCount 3 := ⟨3, rfl, by decide +kernel⟩
  have hcoherent : Coherent "grüße" "ß" := positions_coherent hlength
  exact ⟨hcoherent, hcoherent.parts _ _ _ 1 3 hone hthree hone (by decide)⟩

end TextFunction

end Rowwise
