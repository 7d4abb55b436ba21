import DdlDiagram.Directive
import DdlDiagram.Schema.Basic

/-!
# Drafts

A schema is put together table by table. A draft holds the finished tables and the
relationships found so far, structural and manual ones apart, so that manual relationships come
last in the schema wherever they stood. A table under construction holds the relationships of
its foreign keys until it is finished.
-/

namespace DdlDiagram

/-- A table under construction, with the relationships of its foreign keys. -/
structure TableDraft where
  table : Table
  relationships : List Relationship
  deriving DecidableEq, Repr

namespace TableDraft

def named (name : Text) : TableDraft where
  table := { name, columns := [], primaryKey := .empty, foreignKeys := .empty }
  relationships := []

def withColumn (draft : TableDraft) (column : Column) : TableDraft :=
  { draft with table := { draft.table with columns := draft.table.columns ++ [column] } }

def withPrimaryKey (draft : TableDraft) (columns : List Text) : TableDraft :=
  { draft with
    table := { draft.table with primaryKey := draft.table.primaryKey.insertAll columns } }

def relationshipOf (source : Text) (columns : List Text) (target : Text) : Relationship where
  source := source
  target := target
  cardinality := manyToOne
  label := "FK: ".toList ++ Text.join ", ".toList columns
  origin := .structural

def withForeignKey (draft : TableDraft) (columns : List Text) (target : Text) : TableDraft where
  table := { draft.table with foreignKeys := draft.table.foreignKeys.insertAll columns }
  relationships := draft.relationships ++ [relationshipOf draft.table.name columns target]

@[simp] theorem name_named (name : Text) : (named name).table.name = name := rfl

@[simp] theorem name_withColumn (draft : TableDraft) (column : Column) :
    (draft.withColumn column).table.name = draft.table.name := rfl

@[simp] theorem name_withPrimaryKey (draft : TableDraft) (columns : List Text) :
    (draft.withPrimaryKey columns).table.name = draft.table.name := rfl

@[simp] theorem name_withForeignKey (draft : TableDraft) (columns : List Text) (target : Text) :
    (draft.withForeignKey columns target).table.name = draft.table.name := rfl

end TableDraft

structure SchemaDraft where
  tables : List Table
  structural : List Relationship
  manual : List Relationship
  deriving DecidableEq, Repr

namespace SchemaDraft

def empty : SchemaDraft := ⟨[], [], []⟩

def holds (draft : SchemaDraft) (name : Text) : Bool := draft.tables.any (·.name = name)

def withTable (draft : SchemaDraft) (table : TableDraft) : SchemaDraft :=
  { draft with
    tables := draft.tables ++ [table.table]
    structural := draft.structural ++ table.relationships }

/-- The relationship that a directive gives. -/
def relationshipOf (directive : Directive) : Relationship where
  source := directive.source
  target := directive.target
  cardinality := directive.cardinality
  label := directive.label
  origin := .manual

def withDirective (draft : SchemaDraft) (directive : Directive) : SchemaDraft :=
  { draft with manual := draft.manual ++ [relationshipOf directive] }

def toSchema (draft : SchemaDraft) : Schema where
  tables := draft.tables
  relationships := draft.structural ++ draft.manual

theorem holds_iff {draft : SchemaDraft} {name : Text} :
    draft.holds name = true ↔ ∃ table ∈ draft.tables, table.name = name := by
  simp [holds]

end SchemaDraft
end DdlDiagram
