/-!
# Rowwise.Value.TextSet — sets of texts

A set of texts is its elements in ascending order of their characters, so that two sets with the same elements are
equal.
-/

namespace Rowwise

/-- A set of texts: its elements in ascending order. -/
structure TextSet where
  toList : List String
  sorted : toList.Pairwise (· < ·)
deriving DecidableEq

instance : Repr TextSet := ⟨fun s n => Repr.addAppParen ("TextSet.ofList " ++ reprArg s.toList) n⟩

namespace TextSet

/-- Puts a text in its place in an ascending list, unless it is there. -/
def insertSorted (s : String) : List String → List String
  | [] => [s]
  | t :: ts => if s < t then s :: t :: ts else if s = t then t :: ts else t :: insertSorted s ts

theorem mem_insertSorted {s x : String} {ts : List String} : x ∈ insertSorted s ts ↔ x = s ∨ x ∈ ts := by
  induction ts with
  | nil => simp [insertSorted]
  | cons t ts ih =>
    simp only [insertSorted]
    split
    · simp
    · split
      · rename_i h; subst h; simp
      · simp only [List.mem_cons, ih]; grind

theorem sorted_insertSorted (s : String) {ts : List String} (h : ts.Pairwise (· < ·)) :
    (insertSorted s ts).Pairwise (· < ·) := by
  induction ts with
  | nil => simp [insertSorted]
  | cons t ts ih =>
    obtain ⟨ht, hts⟩ := List.pairwise_cons.1 h
    simp only [insertSorted]
    split
    · rename_i hs
      exact List.pairwise_cons.2 ⟨fun x hx => by
        rcases List.mem_cons.1 hx with rfl | hx
        · exact hs
        · exact String.lt_trans hs (ht x hx), h⟩
    · split
      · exact h
      · rename_i hs hne
        refine List.pairwise_cons.2 ⟨fun x hx => ?_, ih hts⟩
        rcases mem_insertSorted.1 hx with rfl | hx
        · exact Decidable.byContradiction fun h' =>
            hne (String.le_antisymm (String.not_lt.1 h') (String.not_lt.1 hs))
        · exact ht x hx

/-- The empty set. -/
def empty : TextSet := ⟨[], List.Pairwise.nil⟩

/-- The set with one more element. -/
def insert (s : String) (set : TextSet) : TextSet := ⟨insertSorted s set.toList, sorted_insertSorted s set.sorted⟩

/-- The set of the elements of a list. -/
def ofList (ss : List String) : TextSet := ss.foldr insert empty

theorem mem_ofList {s : String} {ss : List String} : s ∈ (ofList ss).toList ↔ s ∈ ss := by
  induction ss with
  | nil => simp [ofList, empty]
  | cons t ss ih =>
    show s ∈ insertSorted t (ofList ss).toList ↔ _
    rw [mem_insertSorted, ih, List.mem_cons]

end TextSet

end Rowwise
