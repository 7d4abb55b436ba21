import DdlDiagram.Proofs.Diagram.Lines
import DdlDiagram.Proofs.Schema.NameSet
import DdlDiagram.Proofs.Schema.TypeToken

/-!
# Diagrams tell what they show

The diagram of a schema shows names, type tokens, keys of columns and relationships. Two schemas
that show the same have the same diagram, and if names and cardinalities are single words and
labels single lines, then only such schemas have: a diagram can be read in one way only, even where
tables are named after the marks and braces of the format.
-/

namespace DdlDiagram

open Diagram

/-- The column of a table with its type token, or the word for an unknown type, and its keys. -/
def Column.shown (table : Table) (c : Column) : ShownColumn where
  type := shownType c.typeToken
  name := c.name
  role := table.keyRole c.name

def Table.shown (table : Table) : ShownTable where
  name := table.name
  columns := table.columns.map (Column.shown table)

/-- The relationship with its label as it is written, and without its origin. -/
def Relationship.shown (r : Relationship) : ShownRelationship where
  source := r.source
  cardinality := r.cardinality
  target := r.target
  label := shownLabel r.label

def Schema.shown (schema : Schema) : Shown where
  tables := schema.tables.map Table.shown
  relationships := schema.relationships.map Relationship.shown

namespace Diagram

end Diagram

/-- Schemas whose names and cardinalities are single words and whose labels are single lines. -/
structure Schema.IsWritable (schema : Schema) : Prop where
  tables : ∀ table ∈ schema.tables, IsField table.name
  columns : ∀ table ∈ schema.tables, ∀ c ∈ table.columns, IsField c.name
  sources : ∀ r ∈ schema.relationships, IsField r.source
  targets : ∀ r ∈ schema.relationships, IsField r.target
  cardinalities : ∀ r ∈ schema.relationships, IsField r.cardinality
  labels : ∀ r ∈ schema.relationships, '\n' ∉ r.label

instance (schema : Schema) : Decidable schema.IsWritable :=
  decidable_of_iff ((∀ table ∈ schema.tables, IsField table.name ∧ ∀ c ∈ table.columns,
      IsField c.name) ∧ ∀ r ∈ schema.relationships, IsField r.source ∧ IsField r.target ∧
        IsField r.cardinality ∧ '\n' ∉ r.label)
    ⟨fun ⟨htables, hrelationships⟩ =>
      ⟨fun table ht => (htables table ht).1, fun table ht => (htables table ht).2,
        fun r hr => (hrelationships r hr).1, fun r hr => (hrelationships r hr).2.1,
        fun r hr => (hrelationships r hr).2.2.1, fun r hr => (hrelationships r hr).2.2.2⟩,
      fun h => ⟨fun table ht => ⟨h.tables table ht, h.columns table ht⟩,
        fun r hr => ⟨h.sources r hr, h.targets r hr, h.cardinalities r hr, h.labels r hr⟩⟩⟩

theorem isBlank_of_mem_typeTokenFrom {separated : Bool} {t : Text} :
    ∀ c ∈ typeTokenFrom separated t, isBlank c = false := by
  intro c hc
  rcases isAlphanum_or_eq_of_mem_typeTokenFrom c hc with halphanum | rfl
  · exact isBlank_eq_false_of_isAlphanum halphanum
  · decide

/-- Only the empty token and the word for an unknown type are shown alike. -/
theorem shownType_eq_shownType_iff {token token' : Text} : shownType token = shownType token' ↔
    token = token' ∨ token ∈ [[], unknownType] ∧ token' ∈ [[], unknownType] := by
  have hunknown : unknownType ≠ [] := by decide
  rw [shownType, shownType]
  split <;> split <;> grind

/-- Columns are shown alike if they have the same name, the same keys and types of the same token. -/
theorem Column.shown_eq_shown_iff {table table' : Table} {c c' : Column} :
    c.shown table = c'.shown table' ↔
      (c.typeToken = c'.typeToken ∨
        c.typeToken ∈ [[], unknownType] ∧ c'.typeToken ∈ [[], unknownType]) ∧
      c.name = c'.name ∧ table.keyRole c.name = table'.keyRole c'.name := by
  rw [shown, shown, ShownColumn.mk.injEq, shownType_eq_shownType_iff]

theorem isField_shownType (c : Column) : IsField (shownType c.typeToken) := by
  rw [shownType]
  split
  · decide
  · rename_i hne
    exact ⟨by simpa using hne, isBlank_of_mem_typeTokenFrom⟩

/-- Labels that are the same up to double quotes that one of them has as their entity code. -/
inductive SameLabel : Text → Text → Prop where
  | nil : SameLabel [] []
  | cons {label label' : Text} (c : Char) : SameLabel label label' →
      SameLabel (c :: label) (c :: label')
  | quote_code {label label' : Text} : SameLabel label label' →
      SameLabel ('"' :: label) ("#quot;".toList ++ label')
  | code_quote {label label' : Text} : SameLabel label label' →
      SameLabel ("#quot;".toList ++ label) ('"' :: label')

/-- Up to a code a label is shown as it stands. -/
theorem exists_of_shownLabel_eq_cons {label rest : Text} {c : Char} (hc : c ≠ '#')
    (h : shownLabel label = c :: rest) : ∃ behind, label = c :: behind ∧ shownLabel behind = rest := by
  cases label with
  | nil => cases h
  | cons d behind =>
      rw [shownLabel_cons] at h
      split at h
      · exact absurd (List.cons.inj h).1.symm hc
      · obtain ⟨rfl, hrest⟩ := List.cons.inj h
        exact ⟨behind, rfl, hrest⟩

/-- What is shown as the code of a quote is the quote or the code. -/
theorem exists_of_shownLabel_eq_code {label rest : Text}
    (h : shownLabel label = "#quot;".toList ++ rest) :
    ∃ behind, (label = '"' :: behind ∨ label = "#quot;".toList ++ behind) ∧
      shownLabel behind = rest := by
  cases label with
  | nil => cases h
  | cons c behind =>
      rw [shownLabel_cons] at h
      split at h
      · rename_i hquote
        exact ⟨behind, .inl (by rw [hquote]), List.append_cancel_left h⟩
      · obtain ⟨rfl, hq⟩ := List.cons.inj h
        obtain ⟨u, rfl, hu⟩ := exists_of_shownLabel_eq_cons (by decide) hq
        obtain ⟨o, rfl, ho⟩ := exists_of_shownLabel_eq_cons (by decide) hu
        obtain ⟨t, rfl, ht⟩ := exists_of_shownLabel_eq_cons (by decide) ho
        obtain ⟨semicolon, rfl, hsemicolon⟩ := exists_of_shownLabel_eq_cons (by decide) ht
        obtain ⟨rest, rfl, hrest⟩ := exists_of_shownLabel_eq_cons (by decide) hsemicolon
        exact ⟨rest, .inr rfl, hrest⟩

theorem shownLabel_eq_nil {label : Text} : shownLabel label = [] ↔ label = [] := by
  cases label with
  | nil => exact iff_of_true rfl rfl
  | cons c rest => rw [shownLabel_cons]; split <;> simp

/-- Only labels that are the same up to the code of a quote are shown alike. -/
theorem shownLabel_eq_shownLabel_iff {label label' : Text} :
    shownLabel label = shownLabel label' ↔ SameLabel label label' := by
  constructor
  · intro h
    -- A code takes more than one character off its label, so the induction is on the length.
    induction hlength : label.length using Nat.strong_induction_on generalizing label label' with
    | _ n ih =>
      subst hlength
      cases label with
      | nil =>
          obtain rfl := shownLabel_eq_nil.1 h.symm
          exact .nil
      | cons c rest =>
          by_cases hc : c = '"'
          · subst hc
            obtain ⟨behind, rfl | rfl, hbehind⟩ := exists_of_shownLabel_eq_code h.symm
            · exact .cons _ (ih rest.length (Nat.lt_succ_self _) hbehind.symm rfl)
            · exact .quote_code (ih rest.length (Nat.lt_succ_self _) hbehind.symm rfl)
          · cases label' with
            | nil => exact absurd (shownLabel_eq_nil.1 h) (List.cons_ne_nil c rest)
            | cons d rest' =>
                by_cases hd : d = '"'
                · subst hd
                  obtain ⟨behind, hquote | hcode, hbehind⟩ := exists_of_shownLabel_eq_code h
                  · exact absurd (List.cons.inj hquote).1 hc
                  · rw [hcode]
                    refine .code_quote (ih behind.length ?_ hbehind rfl)
                    simp only [hcode, List.length_append]
                    exact Nat.lt_add_of_pos_left (by decide)
                · rw [shownLabel_cons, shownLabel_cons, if_neg hc, if_neg hd] at h
                  obtain ⟨rfl, hrest⟩ := List.cons.inj h
                  exact .cons c (ih rest.length (Nat.lt_succ_self _) hrest rfl)
  · intro h
    induction h with
    | nil => rfl
    | cons c _ ih => rw [shownLabel_cons, shownLabel_cons, ih]
    | quote_code _ ih => rw [shownLabel_cons, if_pos rfl, ih]; rfl
    | code_quote _ ih => rw [shownLabel_cons '"', if_pos rfl, ← ih]; rfl

/-- Relationships are shown alike if they have the same ends and cardinality and the same label. -/
theorem Relationship.shown_eq_shown_iff {r r' : Relationship} : r.shown = r'.shown ↔
    r.source = r'.source ∧ r.cardinality = r'.cardinality ∧ r.target = r'.target ∧
      SameLabel r.label r'.label := by
  rw [shown, shown, ShownRelationship.mk.injEq, shownLabel_eq_shownLabel_iff]

theorem feed_not_mem_shownLabel {label : Text} (h : '\n' ∉ label) : '\n' ∉ shownLabel label := by
  intro hmem
  obtain ⟨d, hd, hc⟩ := List.mem_flatMap.1 hmem
  split at hc
  · exact absurd hc (by decide)
  · exact h (List.mem_singleton.1 hc ▸ hd)

theorem Schema.IsWritable.lines {schema : Schema} (h : schema.IsWritable) :
    ∀ line ∈ schema.shown.lines, line.IsWritable := by
  have htable : ∀ table ∈ schema.tables, ∀ line ∈ table.shown.lines, line.IsWritable := by
    intro table htable
    simp only [ShownTable.lines, Table.shown, List.map_map, List.forall_mem_cons,
      List.forall_mem_append, List.forall_mem_map]
    exact ⟨h.tables table htable, fun c hc => ⟨isField_shownType c, h.columns table htable c hc⟩,
      trivial, List.forall_mem_nil _⟩
  have hrelationship : ∀ r ∈ schema.relationships, (Line.relationship r.shown).IsWritable :=
    fun r hr => ⟨h.sources r hr, h.cardinalities r hr, h.targets r hr,
      feed_not_mem_shownLabel (h.labels r hr)⟩
  intro line hline
  rcases List.mem_append.1 hline with hmem | hmem
  · rw [shown, List.flatMap_map] at hmem
    obtain ⟨table, hmem, hline⟩ := List.mem_flatMap.1 hmem
    exact htable table hmem line hline
  · rw [shown, List.map_map] at hmem
    obtain ⟨r, hr, rfl⟩ := List.mem_map.1 hmem
    exact hrelationship r hr

end DdlDiagram
