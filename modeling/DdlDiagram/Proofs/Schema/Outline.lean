import DdlDiagram.Diagram
import DdlDiagram.Proofs.Schema.TypeToken
import DdlDiagram.Reading
import Mathlib.Data.List.Basic
import Mathlib.Data.List.Forall2

/-!
# Outlines

Of the type of a column a diagram shows only the token. The outline of a schema has the tokens in
place of the types, so two schemas with the same outline have the same diagram. Outlines go along
with every step of drafting a schema.
-/

namespace DdlDiagram

/-- The column with the token of its type in place of the type. -/
def Column.outline (c : Column) : Column := { c with rawType := c.typeToken }

def Table.outline (table : Table) : Table :=
  { table with columns := table.columns.map Column.outline }

def Schema.outline (schema : Schema) : Schema :=
  { schema with tables := schema.tables.map Table.outline }

namespace Diagram

theorem columnLine_outline (table : Table) (c : Column) :
    columnLine table.outline c.outline = columnLine table c := by
  have htoken : c.outline.typeToken = c.typeToken := typeToken_typeToken c.rawType
  have hrole : table.outline.keyRole c.outline.name = table.keyRole c.name := rfl
  unfold columnLine
  rw [htoken, hrole]
  rfl

theorem tableBlock_outline (table : Table) : tableBlock table.outline = tableBlock table := by
  have hlines : table.outline.columns.flatMap (columnLine table.outline) =
      table.columns.flatMap (columnLine table) := by
    rw [Table.outline, List.flatMap_map]
    exact List.flatMap_congr fun c _ => columnLine_outline table c
  unfold tableBlock
  rw [hlines]
  rfl

end Diagram

/-- A schema has the diagram of its outline. -/
theorem Schema.diagram_outline (schema : Schema) : schema.outline.diagram = schema.diagram := by
  have hblocks : schema.outline.tables.flatMap Diagram.tableBlock =
      schema.tables.flatMap Diagram.tableBlock := by
    rw [outline, List.flatMap_map]
    exact List.flatMap_congr fun table _ => Diagram.tableBlock_outline table
  unfold diagram
  rw [hblocks]
  rfl

/-- The declaration without the texts that no diagram shows. -/
def Declaration.outline : Declaration → Declaration
  | .column c => .column { c with rawType := typeToken c.rawType }
  | .unknown _ => .unknown []
  | declaration => declaration

def TableDraft.outline (draft : TableDraft) : TableDraft :=
  { draft with table := draft.table.outline }

def SchemaDraft.outline (draft : SchemaDraft) : SchemaDraft :=
  { draft with tables := draft.tables.map Table.outline }

namespace SchemaDraft

@[simp] theorem holds_outline (draft : SchemaDraft) (name : Text) :
    draft.outline.holds name = draft.holds name := by
  rw [holds, holds, outline, List.any_map]
  rfl

theorem outline_withTable (draft : SchemaDraft) (table : TableDraft) :
    (draft.withTable table).outline = draft.outline.withTable table.outline := by
  simp [outline, withTable, TableDraft.outline]

end SchemaDraft

namespace Reading

variable {draft draft' : TableDraft} {schema schema' : SchemaDraft}

/-- What a declaration adds to the outline of a table is known from its own outline. -/
theorem outline_declare (draft : TableDraft) (declaration : Declaration) :
    (declare draft declaration).1.outline =
      (declare draft.outline declaration.outline).1 := by
  have hcolumn : ∀ (draft : TableDraft) (c : Column),
      (draft.withColumn c).outline = draft.outline.withColumn c.outline := by
    intro draft c
    simp [TableDraft.outline, TableDraft.withColumn, Table.outline]
  cases declaration with
  | column c =>
      have hkeys : ∀ draft : TableDraft, (declare draft (.column c)).1.outline =
          (declare draft.outline (.column { c with rawType := typeToken c.rawType })).1 := by
        intro draft
        rw [declare, declare, hcolumn]
        cases c.primaryKey <;> cases c.references <;> rfl
      exact hkeys draft
  | primaryKey columns => rfl
  | foreignKey columns target => rfl
  | ignored => rfl
  | unknown text => rfl

theorem outline_declareAll {lines lines' : List Text}
    (h : List.Forall₂ (fun line line' => (Declaration.ofText line').outline =
      (Declaration.ofText line).outline) lines lines')
    (hdraft : draft'.outline = draft.outline) :
    (declareAll draft' lines').1.outline = (declareAll draft lines).1.outline := by
  induction h generalizing draft draft' with
  | nil => exact hdraft
  | cons hline _ ih =>
      rw [declareAll, declareAll]
      apply ih
      rw [outline_declare, outline_declare, hline, hdraft]

theorem outline_tableOf {body body' : TableBody} (hname : body'.name = body.name)
    (h : List.Forall₂ (fun line line' => (Declaration.ofText line').outline =
      (Declaration.ofText line).outline) body.declarations body'.declarations) :
    (tableOf body').1.outline = (tableOf body).1.outline := by
  apply outline_declareAll h
  rw [hname]

/-- Chunks that add the same to the outline of every draft. -/
def SameChunk (chunk chunk' : Text) : Prop := ∀ (schema schema' : SchemaDraft) (index : Nat),
  schema'.outline = schema.outline →
    (addChunk schema' index chunk').1.outline = (addChunk schema index chunk).1.outline

theorem outline_addChunks {chunks chunks' : List Text}
    (h : List.Forall₂ SameChunk chunks chunks') (index : Nat)
    (hschema : schema'.outline = schema.outline) :
    (addChunks schema' index chunks').1.outline = (addChunks schema index chunks).1.outline := by
  induction h generalizing schema schema' index with
  | nil => exact hschema
  | cons hchunk _ ih =>
      rw [addChunks, addChunks]
      exact ih (index + 1) (hchunk _ _ index hschema)

end Reading
end DdlDiagram
