import DdlDiagram.Keyword
import DdlDiagram.Proofs.Schema.NameSet
import DdlDiagram.Schema.Basic

/-!
# Scripts

A script is a list of tables to be declared, in terms of names only: columns with a type and the
modifiers the reader knows, then key clauses. A script is printed in one canonical form, a line
for each table, and it describes a schema. Nothing keeps a table or a type from having the name
of a keyword; only a column may not be named after a word that starts a clause or a statement.
-/

namespace DdlDiagram
namespace Script

def isNameChar (c : Char) : Bool := c.isAlphanum || c == '_'

structure Name where
  text : Text
  ne_nil : text ≠ []
  plain : text.all isNameChar = true

/-- The words that no column is named after. -/
def reserved : List Keyword :=
  [.create, .primary, .foreign, .constraint, .key, .unique, .index, .fulltext, .spatial, .check]

structure ColumnName extends Name where
  free : ∀ k ∈ reserved, k.is text = false

structure Names where
  first : Name
  others : List Name

structure TypeSpec where
  head : Name
  parameters : List Name

structure Reference where
  table : Name
  column : Name

structure ColumnSpec where
  name : ColumnName
  type : TypeSpec
  notNull : Bool
  primaryKey : Bool
  references : Option Reference

inductive KeyClause where
  | primaryKey (columns : Names)
  | foreignKey (columns : Names) (target : Name) (targetColumns : Names)

structure TableSpec where
  name : Name
  columns : List ColumnSpec
  clauses : List KeyClause

/-- What stands between two commas of a table body. -/
inductive Item where
  | column (column : ColumnSpec)
  | clause (clause : KeyClause)

namespace Names

def toList (names : Names) : List Text := (names.first :: names.others).map (·.text)

/-- `(a, b)` -/
def print (names : Names) : Text := '(' :: (Text.join ", ".toList names.toList ++ [')'])

end Names

namespace TypeSpec

/-- `TYPE` or `TYPE(p,q)` -/
def print (type : TypeSpec) : Text :=
  type.head.text ++
    if type.parameters.isEmpty then []
    else '(' :: (Text.join [','] (type.parameters.map (·.text)) ++ [')'])

end TypeSpec

namespace Reference

/-- `table(column)` -/
def print (reference : Reference) : Text :=
  reference.table.text ++ '(' :: (reference.column.text ++ [')'])

end Reference

namespace ColumnSpec

/-- `name TYPE NOT NULL PRIMARY KEY REFERENCES table(column)`, the modifiers being optional -/
def print (c : ColumnSpec) : Text :=
  c.name.text ++ ' ' :: c.type.print ++ (if c.notNull then " NOT NULL".toList else []) ++
    (if c.primaryKey then " PRIMARY KEY".toList else []) ++
    c.references.toList.flatMap fun reference => " REFERENCES ".toList ++ reference.print

end ColumnSpec

namespace KeyClause

/-- `PRIMARY KEY (a, b)` or `FOREIGN KEY (a, b) REFERENCES table(c, d)` -/
def print : KeyClause → Text
  | primaryKey columns => "PRIMARY KEY ".toList ++ columns.print
  | foreignKey columns target targetColumns =>
    "FOREIGN KEY ".toList ++ columns.print ++ " REFERENCES ".toList ++ target.text ++
      targetColumns.print

theorem print_foreignKey (columns : Names) (target : Name) (targetColumns : Names) :
    (foreignKey columns target targetColumns).print = "FOREIGN KEY ".toList ++ columns.print ++
      " REFERENCES ".toList ++ target.text ++ targetColumns.print := rfl

end KeyClause

namespace Item

def print : Item → Text
  | column c => c.print
  | clause k => k.print

end Item

namespace TableSpec

def items (table : TableSpec) : List Item :=
  table.columns.map .column ++ table.clauses.map .clause

/-- `CREATE TABLE name (item, item);` and a line feed -/
def print (table : TableSpec) : Text :=
  "CREATE TABLE ".toList ++ table.name.text ++ " (".toList ++
    Text.join ", ".toList (table.items.map Item.print) ++ ");\n".toList

end TableSpec

/-- A script, one table after the other. -/
def print (tables : List TableSpec) : Text := tables.flatMap TableSpec.print

/-- The columns of a foreign key and the table they refer to. -/
structure ForeignKey where
  columns : List Text
  target : Text
  deriving DecidableEq, Repr

def ForeignKey.relationship (key : ForeignKey) (source : Text) : Relationship where
  source := source
  target := key.target
  cardinality := manyToOne
  label := "FK: ".toList ++ Text.join ", ".toList key.columns
  origin := .structural

namespace Item

def columns : Item → List Column
  | column c => [⟨c.name.text, c.type.print, !c.notNull⟩]
  | clause _ => []

def primaryKey : Item → List Text
  | column c => if c.primaryKey then [c.name.text] else []
  | clause (.primaryKey columns) => columns.toList
  | clause (.foreignKey ..) => []

def foreignKeys : Item → List ForeignKey
  | column c => c.references.toList.map fun reference => ⟨[c.name.text], reference.table.text⟩
  | clause (.primaryKey _) => []
  | clause (.foreignKey columns target _) => [⟨columns.toList, target.text⟩]

end Item

namespace TableSpec

def foreignKeys (table : TableSpec) : List ForeignKey := table.items.flatMap Item.foreignKeys

/-- The table as a schema has it, with the columns of each key in the order in which they are
first named. -/
def toTable (table : TableSpec) : Table where
  name := table.name.text
  columns := table.items.flatMap Item.columns
  primaryKey := .ofList (table.items.flatMap Item.primaryKey)
  foreignKeys := .ofList (table.foreignKeys.flatMap ForeignKey.columns)

def relationships (table : TableSpec) : List Relationship :=
  table.foreignKeys.map (·.relationship table.name.text)

end TableSpec

/-- The schema that a script describes. -/
def schema (tables : List TableSpec) : Schema where
  tables := tables.map TableSpec.toTable
  relationships := tables.flatMap TableSpec.relationships

end Script
end DdlDiagram
