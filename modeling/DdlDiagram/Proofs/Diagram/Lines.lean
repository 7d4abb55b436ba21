import DdlDiagram.Diagram
import DdlDiagram.Proofs.Text.IdentifierChar
import DdlDiagram.Proofs.Text.Split

/-!
# The lines of a diagram

Behind its header a diagram has four kinds of lines: one that opens a table, one for each column,
one that closes the table, and one for each relationship. Single spaces separate the fields of a
line. The fields tell the kind of a line and what it shows, whatever the names are: a column starts
with two empty fields more than the others, and these differ in the number of their fields.
-/

namespace DdlDiagram
namespace Diagram

@[ext] structure ShownColumn where
  type : Text
  name : Text
  role : KeyRole
  deriving DecidableEq, Repr

@[ext] structure ShownTable where
  name : Text
  columns : List ShownColumn
  deriving DecidableEq, Repr

@[ext] structure ShownRelationship where
  source : Text
  cardinality : Text
  target : Text
  label : Text
  deriving DecidableEq, Repr

structure Shown where
  tables : List ShownTable
  relationships : List ShownRelationship
  deriving DecidableEq, Repr

/-- A line of a diagram behind its header. -/
inductive Line where
  | opening (name : Text)
  | column (column : ShownColumn)
  | closing
  | relationship (relationship : ShownRelationship)
  deriving DecidableEq, Repr

/-- Texts that can be a field of a line. -/
structure IsField (t : Text) : Prop where
  ne_nil : t ≠ []
  isBlank : ∀ c ∈ t, isBlank c = false

instance (t : Text) : Decidable (IsField t) :=
  decidable_of_iff (t ≠ [] ∧ t.all (!isBlank ·) = true)
    ⟨fun ⟨hne, hblank⟩ => ⟨hne, by simpa using hblank⟩,
      fun h => ⟨h.ne_nil, by simpa using h.isBlank⟩⟩

variable {t name : Text}

theorem IsField.not_mem (h : IsField t) {c : Char} (hc : DdlDiagram.isBlank c = true) : c ∉ t := by
  intro hmem
  rw [h.isBlank c hmem] at hc
  exact Bool.false_ne_true hc

theorem IsField.feed_not_mem (h : IsField t) : '\n' ∉ t := h.not_mem (by decide)

namespace Line

/-- The mark of a column as a field of its own, if there is one. -/
def marksOf (role : KeyRole) : List Text := if role = .none then [] else [role.mark]

def text : Line → Text
  | opening name => "  ".toList ++ name ++ " \x7b".toList
  | column c => "    ".toList ++ c.type ++ ' ' :: (c.name ++ (marksOf c.role).flatMap (' ' :: ·))
  | closing => "  \x7d".toList
  | relationship r => "  ".toList ++ r.source ++ ' ' :: (r.cardinality ++ ' ' :: (r.target ++
      " : \"".toList ++ r.label ++ "\"".toList))

/-- Lines whose names are fields and whose label stays in the line. -/
def IsWritable : Line → Prop
  | opening name => IsField name
  | column c => IsField c.type ∧ IsField c.name
  | closing => True
  | relationship r => IsField r.source ∧ IsField r.cardinality ∧ IsField r.target ∧ '\n' ∉ r.label

def fields (line : Line) : List Text := line.text.splitAll (· == ' ')

end Line

def ShownTable.lines (table : ShownTable) : List Line :=
  .opening table.name :: (table.columns.map .column ++ [.closing])

def Shown.lines (shown : Shown) : List Line :=
  shown.tables.flatMap ShownTable.lines ++ shown.relationships.map .relationship

end Diagram
end DdlDiagram
