import Rowwise.Context.Entry
import Rowwise.Value.TextSet

/-!
# Rowwise.Context.MacroStore — texts that the host names

A store has a text for each name that is set.  Predefined names are known even while they are not set.
-/

namespace Rowwise

/-- Names, some of them set to a text. -/
structure MacroStore where
  predefined : List String := []
  values : List (String × String) := []
deriving DecidableEq, Repr

namespace MacroStore

/-- The text of a name. -/
def get? (s : MacroStore) (name : String) : Option String := s.values.lookup name

/-- Sets a name. -/
def set (s : MacroStore) (name value : String) : MacroStore :=
  { s with values := (name, value) :: s.values.filter fun p => p.1 ≠ name }

/-- Removes the text of a name. -/
def erase (s : MacroStore) (name : String) : MacroStore :=
  { s with values := s.values.filter fun p => p.1 ≠ name }

/-- True for the names that are set or predefined. -/
def knows (s : MacroStore) (name : String) : Bool := (s.get? name).isSome || s.predefined.any (· = name)

/-- The entries of all names in ascending order. -/
def entries (s : MacroStore) : List Entry :=
  (TextSet.ofList (s.values.map (·.1) ++ s.predefined)).toList.map fun name =>
    ⟨name, .whole, "macros", .text, none⟩

end MacroStore

/-- The text of a name in the first store that has it set.  The outcome tells a name that no store knows from one that
is not set. -/
def scopeText (known : Bool) (name : String) : List MacroStore → Option (Option String)
  | [] => if known then some none else none
  | s :: ss =>
    match s.get? name with
    | some text => some (some text)
    | none => scopeText (known || s.knows name) name ss

end Rowwise
