import Mathlib.Algebra.Ring.Nat
import DdlDiagram.Proofs.Cleaned.Lines
import DdlDiagram.Proofs.Diagram.Fidelity
import DdlDiagram.Proofs.Reading.Account

/-!
# The number of lines of a diagram

A diagram has a header line, two lines and one for each column for a table, and one line for each
relationship. Names are written as they are, so a line feed in a name adds a line, and so does one
in the label of a foreign key, which lists names. Nothing else that is taken from a text does:
type tokens have letters, digits and underscores only, and a directive is a part of one line.
-/

namespace DdlDiagram

section

variable {α : Type} {f : α → Text} {p : α → List Text} {n : α → Nat} {l : List α} {c : Char}

/-- A character in texts that are written one after the other, where each of them has it a known
number of times besides those within its parts. -/
theorem Text.count_flatMap (h : ∀ x ∈ l, (f x).count c = n x + (p x).flatten.count c) :
    (l.flatMap f).count c = (l.map n).sum + (l.flatMap p).flatten.count c := by
  induction l with
  | nil => rfl
  | cons x rest ih =>
      obtain ⟨hx, hrest⟩ := List.forall_mem_cons.1 h
      simp only [List.flatMap_cons, List.map_cons, List.sum_cons, List.flatten_append,
        List.count_append, hx, ih hrest]
      omega

end

def Table.names (table : Table) : List Text := table.name :: table.columns.map (·.name)

def Relationship.texts (r : Relationship) : List Text :=
  [r.source, r.cardinality, r.target, r.label]

/-- The texts of a relationship that are names or list names. Those of a manual relationship are
parts of a line. -/
def Relationship.names (r : Relationship) : List Text :=
  match r.origin with
  | .structural => [r.source, r.target, r.label]
  | .manual => []

/-- The names of a schema that come from the declarations of its tables. -/
def Schema.names (schema : Schema) : List Text :=
  schema.tables.flatMap Table.names ++ schema.relationships.flatMap Relationship.names

/-- The number of lines that the diagram of a schema has besides those within names. -/
def Schema.lineCount (schema : Schema) : Nat :=
  1 + (schema.tables.map fun table => 2 + table.columns.length).sum + schema.relationships.length

namespace Diagram

theorem count_feed_columnLine (table : Table) (c : Column) :
    (columnLine table c).count '\n' = 1 + c.name.count '\n' := by
  have htype : (shownType c.typeToken).count '\n' = 0 :=
    List.count_eq_zero.2 (isField_shownType c).feed_not_mem
  have hmark : (if table.keyRole c.name = .none then [] else
      ' ' :: (table.keyRole c.name).mark).count '\n' = 0 := by
    cases table.keyRole c.name <;> rfl
  have hindent : "    ".toList.count '\n' = 0 := rfl
  have hspace : [' '].count '\n' = 0 := rfl
  have hfeed : ['\n'].count '\n' = 1 := rfl
  unfold columnLine
  simp only [List.count_append, htype, hmark, hindent, hspace, hfeed]
  omega

theorem count_feed_tableBlock (table : Table) :
    (tableBlock table).count '\n' = 2 + table.columns.length + table.names.flatten.count '\n' := by
  have hcolumns := Text.count_flatMap (f := columnLine table) (p := fun c => [c.name])
    (n := fun _ => 1) (l := table.columns) fun c _ => by
      rw [count_feed_columnLine, List.flatten_singleton]
  have hindent : "  ".toList.count '\n' = 0 := rfl
  have hopening : " \x7b\n".toList.count '\n' = 1 := rfl
  have hclosing : "  \x7d\n".toList.count '\n' = 1 := rfl
  rw [List.map_const', List.sum_replicate_nat, Nat.mul_one] at hcolumns
  have hnames : table.names.flatten.count '\n' = table.name.count '\n' +
      (table.columns.flatMap fun c => [c.name]).flatten.count '\n' := by
    rw [Table.names, List.map_eq_flatMap, List.flatten_cons, List.count_append]
  unfold tableBlock
  simp only [List.count_append, hcolumns, hindent, hopening, hclosing, hnames]
  omega

theorem count_feed_shownLabel (label : Text) :
    (shownLabel label).count '\n' = label.count '\n' := by
  induction label with
  | nil => rfl
  | cons c rest ih =>
      rw [shownLabel_cons, List.count_append, ih]
      split
      · rename_i hc
        simp [hc]
      · rw [← List.count_append, List.singleton_append]

theorem count_feed_relationshipLine (r : Relationship) :
    (relationshipLine r).count '\n' = 1 + r.texts.flatten.count '\n' := by
  have hindent : "  ".toList.count '\n' = 0 := rfl
  have hspace : [' '].count '\n' = 0 := rfl
  have hopening : " : \"".toList.count '\n' = 0 := rfl
  have hclosing : "\"\n".toList.count '\n' = 1 := rfl
  unfold relationshipLine Relationship.texts
  simp only [List.count_append, List.flatten_cons, List.flatten_nil, List.append_nil, hindent,
    hspace, hopening, hclosing, count_feed_shownLabel]
  omega

end Diagram

open Diagram in
/-- If the relationships have line feeds in names only, then so has the diagram, besides those of
its format. -/
theorem Schema.count_feed_diagram {schema : Schema}
    (h : ∀ r ∈ schema.relationships, r.texts.flatten.count '\n' = r.names.flatten.count '\n') :
    schema.diagram.count '\n' = schema.lineCount + schema.names.flatten.count '\n' := by
  have hheader : "erDiagram\n".toList.count '\n' = 1 := rfl
  have htables := Text.count_flatMap (l := schema.tables) fun table _ => count_feed_tableBlock table
  have hrelationships := Text.count_flatMap (f := relationshipLine) (p := Relationship.names)
    (n := fun _ => 1) (l := schema.relationships) fun r hr => by
      rw [count_feed_relationshipLine, h r hr]
  rw [List.map_const', List.sum_replicate_nat, Nat.mul_one] at hrelationships
  unfold diagram lineCount names
  rw [List.count_append, List.count_append, hheader, htables, hrelationships, List.flatten_append,
    List.count_append]
  omega

namespace Reading

variable {marks : List Text} {t : Text} {r : Reading}

/-- The parts of a directive are parts of its line. -/
theorem feed_not_mem_of_mem_manualOf {bodies : List Text} (h : ∀ body ∈ bodies, '\n' ∉ body)
    {relationship : Relationship} (hmem : relationship ∈ manualOf bodies) :
    '\n' ∉ relationship.texts.flatten := by
  obtain ⟨directive, hdirective, rfl⟩ := List.mem_map.1 hmem
  obtain ⟨body, hbody, hparts⟩ := List.mem_filterMap.1 hdirective
  obtain ⟨hsource, hcardinality, htarget, hlabel⟩ := Directive.subset_of_ofBody? hparts
  intro hfeed
  apply h body hbody
  simp only [Relationship.texts, SchemaDraft.relationshipOf, List.flatten_cons, List.flatten_nil,
    List.append_nil, List.mem_append] at hfeed
  rcases hfeed with hfeed | hfeed | hfeed | hfeed
  · exact hsource hfeed
  · exact hcardinality hfeed
  · exact htarget hfeed
  · exact hlabel hfeed

/-- What is shown of a relationship has no line feeds but those of names. -/
theorem count_feed_texts (h : ofText? marks t = some r) {relationship : Relationship}
    (hmem : relationship ∈ r.schema.relationships) :
    relationship.texts.flatten.count '\n' = relationship.names.flatten.count '\n' := by
  obtain ⟨-, rfl⟩ := ofText?_eq_some_iff.1 h
  rw [ofParts_eq_fatesOf] at hmem
  rcases List.mem_append.1 hmem with hstructural | hmanual
  · obtain ⟨body, -, hbody⟩ := List.mem_flatMap.1 hstructural
    obtain ⟨columns, target, rfl⟩ := exists_of_mem_relationships hbody
    have hcardinality : manyToOne.count '\n' = 0 := by decide
    simp [Relationship.texts, Relationship.names, TableDraft.relationshipOf, hcardinality]
  · have horigin := origin_manualOf _ relationship hmanual
    have hfeed := feed_not_mem_of_mem_manualOf
      (fun body => Cleaned.feed_not_mem_of_mem_directives) hmanual
    rw [List.count_eq_zero.2 hfeed, Relationship.names, horigin]
    rfl

/-- A diagram has the lines of its format, and one more for each line feed in a name. So it has
just those exactly if no name has a line feed. -/
theorem count_feed_diagram_ofText? (h : ofText? marks t = some r) :
    r.schema.diagram.count '\n' = r.schema.lineCount + r.schema.names.flatten.count '\n' ∧
    (r.schema.diagram.count '\n' = r.schema.lineCount ↔ ∀ name ∈ r.schema.names, '\n' ∉ name) := by
  have hcount := Schema.count_feed_diagram fun relationship => count_feed_texts h
  refine ⟨hcount, ?_⟩
  rw [hcount, Nat.add_eq_left, List.count_eq_zero, List.mem_flatten]
  simp

/-- A text with line feeds in the names of a table, of a column and of a foreign key, in a type and
around a label. -/
def brokenNames : Text :=
  ("CREATE TABLE [a\nb] (\"c\nd\" DECIMAL(\n9),\nFOREIGN KEY (e, \"f\ng\")\nREFERENCES h);\n" ++
    "-- diagram: h 1 i : \" \n").toList

theorem count_feed_diagram_brokenNames : ∃ r,
    ofText? Directive.defaultMarks brokenNames = some r ∧ r.schema.lineCount = 6 ∧
    r.schema.diagram.count '\n' = 6 + 4 := by
  have hread : (ofText? Directive.defaultMarks brokenNames).isSome = true := by decide +kernel
  have hcounts : ∀ r ∈ ofText? Directive.defaultMarks brokenNames,
      r.schema.lineCount = 6 ∧ r.schema.names.flatten.count '\n' = 4 := by decide +kernel
  obtain ⟨r, hr⟩ := Option.isSome_iff_exists.1 hread
  obtain ⟨hlines, hnames⟩ := hcounts r hr
  refine ⟨r, hr, hlines, ?_⟩
  rw [(count_feed_diagram_ofText? hr).1, hlines, hnames]

def brokenName : Text := "CREATE TABLE [a\nb] (c INT)".toList

/-- Not every diagram has the lines of its format only. -/
theorem count_feed_diagram_ne : ¬ ∀ marks t r, ofText? marks t = some r →
    r.schema.diagram.count '\n' = r.schema.lineCount := by
  intro h
  have hread : (ofText? Directive.defaultMarks brokenName).isSome = true := by decide +kernel
  have hcounts : ∀ r ∈ ofText? Directive.defaultMarks brokenName,
      r.schema.diagram.count '\n' ≠ r.schema.lineCount := by decide +kernel
  obtain ⟨r, hr⟩ := Option.isSome_iff_exists.1 hread
  exact hcounts r hr (h _ _ r hr)

end Reading
end DdlDiagram
