import DdlDiagram.Schema.NameSet
import DdlDiagram.Schema.TypeToken

/-!
# Schemas

A schema is what a diagram shows: tables with their columns and keys, and the relationships
between tables. Relationships name their ends; nothing asks that a table of that name exists,
nor that the columns of a key are columns of the table.
-/

namespace DdlDiagram

structure Column where
  name : Text
  /-- The type as declared. -/
  rawType : Text
  nullable : Bool
  deriving DecidableEq, Repr

def Column.typeToken (c : Column) : Text := DdlDiagram.typeToken c.rawType

/-- A table with its columns in the order of their declaration. The keys hold names of columns. -/
structure Table where
  name : Text
  columns : List Column
  primaryKey : NameSet
  foreignKeys : NameSet
  deriving DecidableEq, Repr

inductive KeyRole where
  | none
  | primary
  | foreign
  | primaryAndForeign
  deriving DecidableEq, Repr

def KeyRole.mark : KeyRole → Text
  | none => []
  | primary => "PK".toList
  | foreign => "FK".toList
  | primaryAndForeign => "PK,FK".toList

namespace Table

def column? (table : Table) (name : Text) : Option Column :=
  table.columns.find? (·.name = name)

def keyRole (table : Table) (name : Text) : KeyRole :=
  match table.primaryKey.contains name, table.foreignKeys.contains name with
  | true, true => .primaryAndForeign
  | true, false => .primary
  | false, true => .foreign
  | false, false => .none

end Table

/-- Where a relationship comes from. -/
inductive Origin where
  /-- A foreign key of a table. -/
  | structural
  /-- A directive. -/
  | manual
  deriving DecidableEq, Repr

/-- A line between two tables, which are given by their names. -/
structure Relationship where
  source : Text
  target : Text
  cardinality : Text
  label : Text
  origin : Origin
  deriving DecidableEq, Repr

/-- The cardinality of a foreign key: many rows of the source to one row of the target. -/
def manyToOne : Text := "\x7do--||".toList

/-- The tables in the order of their declaration, and the relationships, structural ones before
manual ones. -/
structure Schema where
  tables : List Table
  relationships : List Relationship
  deriving DecidableEq, Repr

namespace Schema

def table? (schema : Schema) (name : Text) : Option Table :=
  schema.tables.find? (·.name = name)

def tableNames (schema : Schema) : List Text := schema.tables.map (·.name)

end Schema
end DdlDiagram
