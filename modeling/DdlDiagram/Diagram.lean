import DdlDiagram.Schema.Basic

/-!
# Diagram text

A schema is written as an entity-relationship diagram in Mermaid's form: a header line, then for
each table a block with a line per column, then a line per relationship. Names are written as
they are. Only a label is changed: a double quote in it would end it, so the entity code of the
quote takes its place.
-/

namespace DdlDiagram
namespace Diagram

/-- The type of a column whose type has no letters or digits. -/
def unknownType : Text := "UNKNOWN".toList

/-- The type token of a column, or the word for an unknown type if the token is empty. -/
def shownType (token : Text) : Text := if token.isEmpty then unknownType else token

def columnLine (table : Table) (column : Column) : Text :=
  let role := table.keyRole column.name
  "    ".toList ++ shownType column.typeToken ++ [' '] ++ column.name ++
    (if role = .none then [] else ' ' :: role.mark) ++ ['\n']

def tableBlock (table : Table) : Text :=
  "  ".toList ++ table.name ++ " \x7b\n".toList ++ table.columns.flatMap (columnLine table) ++
    "  \x7d\n".toList

/-- A label with the entity code for each double quote. -/
def shownLabel (label : Text) : Text := label.replaceChar '"' "#quot;".toList

theorem shownLabel_cons (c : Char) (label : Text) :
    shownLabel (c :: label) = (if c = '"' then "#quot;".toList else [c]) ++ shownLabel label := rfl

def relationshipLine (relationship : Relationship) : Text :=
  "  ".toList ++ relationship.source ++ [' '] ++ relationship.cardinality ++ [' '] ++
    relationship.target ++ " : \"".toList ++ shownLabel relationship.label ++ "\"\n".toList

end Diagram

def Schema.diagram (schema : Schema) : Text :=
  "erDiagram\n".toList ++ schema.tables.flatMap Diagram.tableBlock ++
    schema.relationships.flatMap Diagram.relationshipLine

/-- The diagram of nothing is its header. -/
@[simp] theorem Schema.diagram_nil : Schema.diagram ⟨[], []⟩ = "erDiagram\n".toList := rfl

end DdlDiagram
