import Rowwise.Proofs.Evaluation.Reading
import Rowwise.Proofs.Tables.Listings
import Rowwise.Proofs.Texts.Limit

/-!
# Rowwise.Proofs.Tables.Schemas — type checks without data

A schema has the names and types of columns and no cells.  Reading a text looks at nothing else of a source, so a text is read
against the schema of a table as it is against the table (`Context.parse_against_schema`), and reading it against the table
touches neither cells nor readers.
-/

namespace Rowwise

/-! ### Sources of the same types -/

/-- The source as a schema of what it lists. -/
def Source.listed (s : Source) : Source := .schema s.entries

theorem Source.type?_listed (s : Source) (name : String) : s.listed.type? name = s.type? name := (s.type?_eq name).symm

/-- What a new table lists is the schema of the table. -/
theorem Source.schemaOf_eq_listed (t : Table) : schemaOf t = (Source.table { table := t }).listed := by
  have hkept : (t.columns.filter fun c => !([] : List Column).any fun d => d.name = c.name) = t.columns :=
    List.filter_eq_self.2 fun _ _ => rfl
  rw [schemaOf, listed, entries, TableSource.entries, hkept, List.map_nil, List.append_nil]

/-- A source may be taken for another one of the same types, wherever it stands. -/
theorem sourceOf?_replace {s s' : Source} (h : ∀ name, s'.type? name = s.type? name) (before after : List Source)
    (name : String) (i : Nat) : sourceOf? name i (before ++ s' :: after) = sourceOf? name i (before ++ s :: after) := by
  induction before generalizing i with
  | nil => simp only [List.nil_append, sourceOf?, h]
  | cons u before ih => simp only [List.cons_append, sourceOf?, ih]

theorem World.sameTypes_listed (w : World) (s : Source) (before after : List Source) :
    (w.withSources (before ++ s :: after)).SameTypes (before ++ s.listed :: after) :=
  fun name => sourceOf?_replace s.type?_listed before after name 0

/-! ### Type checks -/

namespace Context

/-- A text is read against a source as it is against the schema of what the source lists. -/
theorem parse_against_listed (c : Context) (s : Source) (before after : List Source) (text : String) (w : World) :
    ((c.parse text).exec (w.withSources (before ++ s.listed :: after))).1 =
      ((c.parse text).exec (w.withSources (before ++ s :: after))).1 := by
  have houtcome := congrArg Prod.fst ((c.parse_sees_types text).same (w.sameTypes_listed s before after))
  exact houtcome

/-- Against a table and against its schema a text is read to one expression, or fails with one fault, whatever other sources,
macros, variables and functions there are.  Against the table no cell is read and no reader moves. -/
theorem parse_against_schema (c : Context) (t : Table) (before after : List Source) (text : String) (w : World) :
    let atTable := (c.parse text).exec (w.withSources (before ++ .table { table := t } :: after))
    let atSchema := (c.parse text).exec (w.withSources (before ++ .schemaOf t :: after))
    ((∃ e, atTable.1 = .ok e ∧ atSchema.1 = .ok e) ∨
      ∃ f, atTable.1 = .error (.fault f) ∧ atSchema.1 = .error (.fault f)) ∧
    atTable.2.sources = before ++ .table { table := t } :: after ∧
    ∃ es, atTable.2.events = es ++ w.events ∧ ∀ source name storage row, .read source name storage row ∉ es := by
  intro atTable atSchema
  have hsame : atSchema.1 = atTable.1 := by
    have hlisted := c.parse_against_listed (.table { table := t }) before after text w
    rwa [← Source.schemaOf_eq_listed] at hlisted
  have hread := c.parse_readInto text (w.withSources (before ++ .table { table := t } :: after))
  refine ⟨?_, hread.sources, ?_⟩
  · rw [hsame]
    cases hresult : atTable.1 with
    | ok e => exact Or.inl ⟨e, rfl, rfl⟩
    | error halt =>
      cases halt with
      | fault f => exact Or.inr ⟨f, rfl, rfl⟩
      | exhausted => exact absurd hresult (parse_not_exhausted text _)
  · obtain ⟨es, hes, hnone⟩ := hread.events
    refine ⟨es, hes, fun source name storage row hmem => ?_⟩
    cases hnone _ hmem

end Context

end Rowwise
