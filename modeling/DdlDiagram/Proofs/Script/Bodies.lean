import DdlDiagram.Proofs.Reading.Shares
import DdlDiagram.Proofs.Script.Items
import DdlDiagram.Proofs.TableBody.Names

/-!
# Reading the table bodies of a script

The items of a printed body are its declarations, and their shares are the columns and keys they
were printed for, in order. So the chunk of a printed table is read as the table.
-/

namespace DdlDiagram

open Nesting Reading

namespace Script

/-- The share of an item in its table is what it declares. -/
theorem ofDeclaration_item (table : Text) (item : Item) :
    Share.ofDeclaration table item.declaration =
      { columns := item.columns
        primaryKey := item.primaryKey
        foreignKeys := item.foreignKeys.flatMap ForeignKey.columns
        relationships := item.foreignKeys.map (·.relationship table)
        warnings := [] } := by
  cases item with
  | column c =>
      rcases c with ⟨name, type, notNull, primaryKey, references⟩
      cases references <;> rfl
  | clause k =>
      cases k with
      | primaryKey columns => rfl
      | foreignKey columns target targetColumns => simp [Item.declaration, Share.ofDeclaration,
          Share.empty, Item.columns, Item.primaryKey, Item.foreignKeys, ForeignKey.relationship,
          TableDraft.relationshipOf]

/-- Declaring the items of a table gives the table and its relationships. -/
theorem tableOf_items (table : TableSpec) :
    Reading.tableOf ⟨table.name.text, table.items.map Item.print⟩ =
      (⟨table.toTable, table.relationships⟩, []) := by
  have hshare : TableBody.share ⟨table.name.text, table.items.map Item.print⟩ =
      { columns := table.items.flatMap Item.columns
        primaryKey := table.items.flatMap Item.primaryKey
        foreignKeys := table.foreignKeys.flatMap ForeignKey.columns
        relationships := table.relationships
        warnings := [] } := by
    simp [TableBody.share, sharesOf, Share.all, ofText_print, ofDeclaration_item,
      TableSpec.foreignKeys, TableSpec.relationships, List.flatMap_map, List.map_flatMap,
      List.flatMap_assoc]
  rw [tableOf_eq, TableBody.toTable, hshare]
  rfl

namespace TableSpec

variable (table : TableSpec)

def body : Text := Text.join ", ".toList (table.items.map Item.print)

/-- What follows the words `CREATE TABLE` in a printed table. -/
def chunk : Text := ' ' :: (table.name.text ++ " (".toList ++ table.body ++ ");\n".toList)

theorem balanced_body : Balanced table.body := by
  have hsep : Balanced ", ".toList := .of_all (by decide)
  refine hsep.join ?_
  rw [List.forall_mem_map]
  exact fun item _ => (uncut_print item).balanced

/-- The declarations of a body are its items. -/
theorem declarationsOf_body : TableBody.declarationsOf table.body = table.items.map Item.print := by
  by_cases hne : table.items.map Item.print = []
  · rw [body, hne]
    rfl
  · have hitems : ∀ t ∈ table.items.map Item.print, t.IsTight ∧ Uncut (· == ',') t := by
      rw [List.forall_mem_map]
      exact fun item _ => ⟨isTight_print item, uncut_print item⟩
    rw [TableBody.declarationsOf, body, Text.map_trim_partsBetween_join hne hitems,
      List.filter_eq_self]
    intro t ht
    simp [(hitems t ht).1.ne_nil]

/-- A table may be named after the words that may stand before the name. -/
theorem ofChunk_chunk :
    TableBody.ofChunk table.chunk = .ok ⟨table.name.text, table.items.map Item.print⟩ := by
  have hname := TableBody.ofChunk_append (.single table.name.spells) Text.isGap_space
    table.balanced_body ";\n".toList
  have hchunk : table.chunk = [' '] ++ (table.name.text ++ ([' '] ++ '(' :: (table.body ++
      ')' :: ";\n".toList))) := by
    rw [chunk, List.append_assoc, List.append_assoc]
    rfl
  rw [hchunk, TableBody.ofChunk_gap_append Text.isGap_space, hname, declarationsOf_body]

end TableSpec

end Script
end DdlDiagram
