import DdlDiagram.Proofs.Cleaned.Unmarked
import DdlDiagram.Proofs.Script.Statements

/-!
# Scripts are read as what they describe

Reading a printed script gives its schema and no warning, whatever words mark a directive: a
script has no comments. The tables come in order, and so do the columns of a table, the columns of
its keys in the order in which they are first named, and the relationships of its foreign keys.
-/

namespace DdlDiagram
namespace Script

open Cleaned

theorem unremarkable_join (sep : Text) (hsep : Unremarkable sep) {ts : List Text}
    (hts : ∀ t ∈ ts, Unremarkable t) : Unremarkable (Text.join sep ts) := by
  induction ts with
  | nil => rfl
  | cons t others ih =>
      obtain ⟨ht, hothers⟩ := List.forall_mem_cons.1 hts
      by_cases hne : others = []
      · rw [hne]
        exact ht
      · rw [Text.join_cons_of_ne_nil hne]
        exact (ht.append hsep).append (ih hothers)

theorem Name.unremarkable (name : Name) : Unremarkable name.text := by
  rw [unremarkable_iff]
  intro c hc
  exact ⟨isQuote_eq_false_of_isIdentifierChar (name.isBare c hc), name.ne_of_mem hc (by decide),
    name.ne_of_mem hc (by decide)⟩

theorem unremarkable_parenthesized {t : Text} (ht : Unremarkable t) :
    Unremarkable ('(' :: (t ++ [')'])) := by
  have hopen : Unremarkable ['('] := rfl
  exact hopen.append (ht.append rfl)

theorem Names.unremarkable (names : Names) : Unremarkable names.print := by
  refine unremarkable_parenthesized (unremarkable_join ", ".toList rfl ?_)
  exact names.forall_mem_toList Name.unremarkable

theorem TypeSpec.unremarkable (type : TypeSpec) : Unremarkable type.print := by
  refine type.head.unremarkable.append ?_
  split
  · rfl
  · refine unremarkable_parenthesized (unremarkable_join [','] rfl ?_)
    rw [List.forall_mem_map]
    exact fun name _ => name.unremarkable

theorem Item.unremarkable (item : Item) : Unremarkable item.print := by
  rw [item.print_eq_join]
  refine unremarkable_join [' '] rfl (forall_mem_words Name.unremarkable
    TypeSpec.unremarkable Names.unremarkable ?_ ?_ item)
  · exact fun reference =>
      reference.table.unremarkable.append (unremarkable_parenthesized reference.column.unremarkable)
  · exact fun name names => name.unremarkable.append names.unremarkable

theorem TableSpec.unremarkable (table : TableSpec) : Unremarkable table.print := by
  have hbody : Unremarkable table.body := by
    refine unremarkable_join ", ".toList rfl ?_
    rw [List.forall_mem_map]
    exact fun item _ => item.unremarkable
  have hstart : Unremarkable "CREATE TABLE ".toList := rfl
  have hopen : Unremarkable " (".toList := rfl
  have hclose : Unremarkable ");\n".toList := rfl
  exact (((hstart.append table.name.unremarkable).append hopen).append hbody).append hclose

theorem unmarked_print (tables : List TableSpec) : Unmarked none (print tables) := by
  refine Unremarkable.unmarked (unremarkable_iff.2 fun c hc => ?_)
  obtain ⟨table, -, hmem⟩ := List.mem_flatMap.1 hc
  exact unremarkable_iff.1 table.unremarkable c hmem

/-- The tables of a script are added to a draft that holds none of their names. -/
theorem addChunks_chunks (draft : SchemaDraft) (index : Nat) (tables : List TableSpec)
    (hnodup : (tables.map (·.name.text)).Nodup)
    (hnew : ∀ table ∈ tables, draft.holds table.name.text = false) :
    Reading.addChunks draft index (tables.map TableSpec.chunk) =
      ({ draft with
        tables := draft.tables ++ tables.map TableSpec.toTable
        structural := draft.structural ++ tables.flatMap TableSpec.relationships }, []) := by
  induction tables generalizing draft index with
  | nil => simp [Reading.addChunks]
  | cons table rest ih =>
      obtain ⟨hfresh, hrest⟩ := List.nodup_cons.1 hnodup
      obtain ⟨hhead, htail⟩ := List.forall_mem_cons.1 hnew
      have hadd : Reading.addChunk draft index table.chunk =
          (draft.withTable ⟨table.toTable, table.relationships⟩, []) := by
        rw [Reading.addChunk, table.ofChunk_chunk]
        simp only [hhead, Bool.false_eq_true, if_false, tableOf_items]
      have hother : ∀ other ∈ rest,
          (draft.withTable ⟨table.toTable, table.relationships⟩).holds other.name.text = false := by
        intro other hmem
        have hne : table.name.text ≠ other.name.text := by
          intro heq
          exact hfresh (List.mem_map.2 ⟨other, hmem, heq.symm⟩)
        have hold := htail other hmem
        simp only [SchemaDraft.holds, SchemaDraft.withTable, List.any_append] at hold ⊢
        simp [hold, TableSpec.toTable, hne]
      rw [List.map_cons, Reading.addChunks, hadd, ih _ _ hrest hother]
      simp [SchemaDraft.withTable]

/-- A printed script with at least one table and no two tables of the same name is read as the
schema it describes, and nothing in it is left out. -/
theorem ofText?_print (marks : List Text) (tables : List TableSpec) (hne : tables ≠ [])
    (hnodup : (tables.map (·.name.text)).Nodup) :
    Reading.ofText? marks (print tables) = some ⟨schema tables, []⟩ := by
  obtain ⟨htext, hdirectives⟩ := (unmarked_print tables).ofText_eq marks
  have hchunks : (tables.map TableSpec.chunk).isEmpty = false := by
    simpa using hne
  have hadd := addChunks_chunks .empty 0 tables hnodup fun _ _ => rfl
  rw [Reading.ofText?]
  simp only [htext, hdirectives, chunks_print, hchunks, Bool.false_eq_true, if_false,
    Reading.ofParts, hadd, Reading.addDirectives]
  simp [SchemaDraft.toSchema, SchemaDraft.empty, schema]

/-- A table named `IF` and one named `TABLE`, with types named `CREATE` and `INDEX`. -/
def sample : List TableSpec :=
  let a : Name := ⟨['a'], by decide, by decide⟩
  let b : Name := ⟨['b'], by decide, by decide⟩
  let number : Name := ⟨['2'], by decide, by decide⟩
  [{ name := .ofKeyword .ifWord
     columns :=
      [⟨⟨a, by decide⟩, ⟨.ofKeyword .create, []⟩, true, true, none⟩,
       ⟨⟨b, by decide⟩, ⟨.ofKeyword .index, [number, number]⟩, false, false,
        some ⟨.ofKeyword .notWord, a⟩⟩]
     clauses := [.primaryKey ⟨b, [a]⟩, .foreignKey ⟨a, [b]⟩ (.ofKeyword .table) ⟨b, [a]⟩] },
   { name := .ofKeyword .table, columns := [], clauses := [] }]

theorem ofText?_print_sample : sample ≠ [] ∧ (sample.map (·.name.text)).Nodup ∧
    print sample = ("CREATE TABLE IF (a CREATE NOT NULL PRIMARY KEY, b INDEX(2,2) " ++
      "REFERENCES NOT(a), PRIMARY KEY (b, a), FOREIGN KEY (a, b) REFERENCES TABLE(b, a));\n" ++
      "CREATE TABLE TABLE ();\n").toList ∧
    Reading.ofText? Directive.defaultMarks (print sample) = some ⟨schema sample, []⟩ :=
  ⟨by decide, by decide, by decide +kernel, ofText?_print _ sample (by decide) (by decide)⟩

end Script
end DdlDiagram
