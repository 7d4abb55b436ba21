import DdlDiagram.Proofs.Reading.Shares

/-!
# Readings by parts

The drafts of two rows of chunks can be put one behind the other, as long as no name stands in
both: a draft never looks back at more than the names of its tables. Directives only add to the
manual relationships, chunks only to the tables and the structural ones, so a reading is known
from those of its parts.
-/

namespace DdlDiagram

def Schema.ofOrigin (schema : Schema) (origin : Origin) : List Relationship :=
  schema.relationships.filter (·.origin = origin)

namespace Warning

def isOfDirective : Warning → Bool
  | directiveUnknown _ => true
  | _ => false

/-- The warning as it reads where `n` more chunks stand in front. -/
def behind (n : Nat) : Warning → Warning
  | statementSkipped index reason => statementSkipped (n + index) reason
  | tableRepeated index table => tableRepeated (n + index) table
  | warning => warning

end Warning

namespace Reading

def ofStatements (r : Reading) : List Warning := r.warnings.filter (!·.isOfDirective)

def ofDirectives (r : Reading) : List Warning := r.warnings.filter (·.isOfDirective)

/-- Two readings one after the other, where the first one is of `n` chunks. Structural
relationships stay in front of manual ones, and warnings about statements in front of those about
directives. -/
def append (n : Nat) (r r' : Reading) : Reading where
  schema :=
    { tables := r.schema.tables ++ r'.schema.tables
      relationships := r.schema.ofOrigin .structural ++ r'.schema.ofOrigin .structural ++
        (r.schema.ofOrigin .manual ++ r'.schema.ofOrigin .manual) }
  warnings := r.ofStatements ++ r'.ofStatements.map (Warning.behind n) ++
    (r.ofDirectives ++ r'.ofDirectives)

end Reading

namespace SchemaDraft

/-- Two drafts one after the other. -/
def append (d e : SchemaDraft) : SchemaDraft where
  tables := d.tables ++ e.tables
  structural := d.structural ++ e.structural
  manual := d.manual ++ e.manual

variable {d e : SchemaDraft}

theorem append_empty (d : SchemaDraft) : d.append .empty = d := by
  simp [append, empty]

theorem holds_append (d e : SchemaDraft) (name : Text) :
    (d.append e).holds name = (d.holds name || e.holds name) := List.any_append

theorem append_withTable (d e : SchemaDraft) (table : TableDraft) :
    (d.append e).withTable table = d.append (e.withTable table) := by
  simp [append, withTable]

end SchemaDraft

namespace Reading

variable {d e : SchemaDraft} {chunks chunks' : List Text}

/-- A body makes a table of its name. -/
theorem name_tableOf (body : TableBody) : (tableOf body).1.table.name = body.name := by
  rw [tableOf_eq]
  rfl

/-- What chunks can do to a draft: they add tables behind those it has and structural
relationships, and leave out nothing but parts of statements. -/
structure Adds (d e : SchemaDraft) (warnings : List Warning) : Prop where
  tables : d.tables <+: e.tables
  structural : (∀ r ∈ d.structural, r.origin = .structural) →
    ∀ r ∈ e.structural, r.origin = .structural
  manual : e.manual = d.manual
  warnings : ∀ warning ∈ warnings, warning.isOfDirective = false

theorem Adds.refl {warnings : List Warning}
    (h : ∀ warning ∈ warnings, warning.isOfDirective = false) : Adds d d warnings :=
  ⟨List.prefix_rfl, id, rfl, h⟩

theorem Adds.trans {f : SchemaDraft} {first others : List Warning} (h : Adds d e first)
    (h' : Adds e f others) : Adds d f (first ++ others) where
  tables := h.tables.trans h'.tables
  structural hd := h'.structural (h.structural hd)
  manual := h'.manual.trans h.manual
  warnings := List.forall_mem_append.2 ⟨h.warnings, h'.warnings⟩

theorem adds_withTable (d : SchemaDraft) (body : TableBody) :
    Adds d (d.withTable (tableOf body).1) (tableOf body).2 where
  tables := List.prefix_append _ _
  structural hd := by
    rw [tableOf_eq]
    exact List.forall_mem_append.2 ⟨hd, fun _ => origin_of_mem_relationships⟩
  manual := rfl
  warnings warning hmem := by
    rw [tableOf_eq] at hmem
    obtain ⟨text, rfl⟩ := exists_of_mem_warnings hmem
    rfl

theorem adds_addChunk (d : SchemaDraft) (index : Nat) (chunk : Text) :
    Adds d (addChunk d index chunk).1 (addChunk d index chunk).2 := by
  rw [addChunk]
  split
  · exact .refl (by simp [Warning.isOfDirective])
  · split
    · exact .refl (by simp [Warning.isOfDirective])
    · exact adds_withTable d _

theorem adds_addChunks (d : SchemaDraft) (index : Nat) (chunks : List Text) :
    Adds d (addChunks d index chunks).1 (addChunks d index chunks).2 := by
  induction chunks generalizing d index with
  | nil => exact .refl (by simp [addChunks])
  | cons chunk rest ih => exact (adds_addChunk d index chunk).trans (ih _ _)

theorem addChunks_append (d : SchemaDraft) (index : Nat) (chunks chunks' : List Text) :
    addChunks d index (chunks ++ chunks') =
      ((addChunks (addChunks d index chunks).1 (index + chunks.length) chunks').1,
        (addChunks d index chunks).2 ++
          (addChunks (addChunks d index chunks).1 (index + chunks.length) chunks').2) := by
  induction chunks generalizing d index with
  | nil => rfl
  | cons chunk rest ih =>
      rw [List.cons_append, addChunks, addChunks, ih, List.length_cons,
        Nat.add_right_comm index 1, Nat.add_assoc index]
      simp

/-- Chunks that declare the same add the same. -/
theorem addChunks_congr (h : chunks'.map TableBody.ofChunk = chunks.map TableBody.ofChunk)
    (d : SchemaDraft) (index : Nat) : addChunks d index chunks' = addChunks d index chunks := by
  induction chunks generalizing chunks' d index with
  | nil => rw [List.map_eq_nil_iff.1 h]
  | cons chunk rest ih =>
      obtain ⟨chunk', rest', rfl, hchunk, hrest⟩ := List.map_eq_cons_iff.1 h
      rw [addChunks, addChunks, addChunk, addChunk, hchunk, ih hrest]

/-- Behind a draft that holds none of its names, a chunk adds what it adds on its own. -/
theorem addChunk_behind (n index : Nat) (chunk : Text)
    (hnew : ∀ table ∈ (addChunk e index chunk).1.tables, d.holds table.name = false) :
    addChunk (d.append e) (n + index) chunk = (d.append (addChunk e index chunk).1,
      (addChunk e index chunk).2.map (Warning.behind n)) := by
  rw [addChunk, addChunk] at *
  cases hbody : TableBody.ofChunk chunk with
  | error reason => rfl
  | ok body =>
      rw [hbody] at hnew
      cases hheld : e.holds body.name with
      | true => simp [SchemaDraft.holds_append, hheld, Warning.behind]
      | false =>
          simp only [hheld, Bool.false_eq_true, if_false] at hnew ⊢
          have hfresh : d.holds body.name = false := by
            rw [← name_tableOf body]
            exact hnew _ (List.mem_append_right _ List.mem_cons_self)
          have hsame : (tableOf body).2.map (Warning.behind n) = (tableOf body).2 := by
            refine (List.map_congr_left fun warning hmem => ?_).trans (List.map_id _)
            rw [tableOf_eq] at hmem
            obtain ⟨text, rfl⟩ := exists_of_mem_warnings hmem
            rfl
          simp [SchemaDraft.holds_append, hheld, hfresh, SchemaDraft.append_withTable, hsame]

theorem addChunks_behind (n index : Nat) (chunks : List Text)
    (hnew : ∀ table ∈ (addChunks e index chunks).1.tables, d.holds table.name = false) :
    addChunks (d.append e) (n + index) chunks = (d.append (addChunks e index chunks).1,
      (addChunks e index chunks).2.map (Warning.behind n)) := by
  induction chunks generalizing e index with
  | nil => rfl
  | cons chunk rest ih =>
      have hfirst : ∀ table ∈ (addChunk e index chunk).1.tables, d.holds table.name = false :=
        fun table hmem => hnew table ((adds_addChunks _ (index + 1) rest).tables.subset hmem)
      rw [addChunks, addChunks, addChunk_behind n index chunk hfirst, Nat.add_assoc,
        ih (index + 1) hnew]
      simp

def manualOf (bodies : List Text) : List Relationship :=
  (bodies.filterMap Directive.ofBody?).map SchemaDraft.relationshipOf

def unreadOf (bodies : List Text) : List Warning :=
  (bodies.filter fun body => (Directive.ofBody? body).isNone).map .directiveUnknown

theorem manualOf_append (bodies bodies' : List Text) :
    manualOf (bodies ++ bodies') = manualOf bodies ++ manualOf bodies' := by
  simp [manualOf]

theorem unreadOf_append (bodies bodies' : List Text) :
    unreadOf (bodies ++ bodies') = unreadOf bodies ++ unreadOf bodies' := by
  simp [unreadOf]

theorem origin_manualOf (bodies : List Text) :
    ∀ relationship ∈ manualOf bodies, relationship.origin = .manual := by
  intro relationship hmem
  obtain ⟨directive, -, rfl⟩ := List.mem_map.1 hmem
  rfl

theorem isOfDirective_unreadOf (bodies : List Text) :
    ∀ warning ∈ unreadOf bodies, warning.isOfDirective = true := by
  intro warning hmem
  obtain ⟨body, -, rfl⟩ := List.mem_map.1 hmem
  rfl

/-- Directives only add manual relationships. -/
theorem addDirectives_eq (d : SchemaDraft) (bodies : List Text) : addDirectives d bodies =
    ({ d with manual := d.manual ++ manualOf bodies }, unreadOf bodies) := by
  induction bodies generalizing d with
  | nil => simp [addDirectives, manualOf, unreadOf]
  | cons body rest ih =>
      rw [addDirectives, addDirective]
      cases hbody : Directive.ofBody? body with
      | none => simp [ih, manualOf, unreadOf, hbody]
      | some directive => simp [ih, manualOf, unreadOf, hbody, SchemaDraft.withDirective]

variable {bodies bodies' : List Text}

theorem ofParts_eq (chunks bodies : List Text) : ofParts chunks bodies =
    ⟨⟨(addChunks .empty 0 chunks).1.tables,
      (addChunks .empty 0 chunks).1.structural ++ manualOf bodies⟩,
      (addChunks .empty 0 chunks).2 ++ unreadOf bodies⟩ := by
  have hmanual := (adds_addChunks .empty 0 chunks).manual
  rw [ofParts, addDirectives_eq, SchemaDraft.toSchema, hmanual]
  rfl

theorem ofOrigin_structural_ofParts (chunks bodies : List Text) :
    (ofParts chunks bodies).schema.ofOrigin .structural =
      (addChunks .empty 0 chunks).1.structural := by
  have hstructural := (adds_addChunks .empty 0 chunks).structural fun _ hmem => nomatch hmem
  rw [ofParts_eq, Schema.ofOrigin, List.filter_append, List.filter_eq_self.2,
    List.filter_eq_nil_iff.2, List.append_nil]
  · simpa using fun r hr => by simp [origin_manualOf bodies r hr]
  · simpa using hstructural

theorem ofOrigin_manual_ofParts (chunks bodies : List Text) :
    (ofParts chunks bodies).schema.ofOrigin .manual = manualOf bodies := by
  have hstructural := (adds_addChunks .empty 0 chunks).structural fun _ hmem => nomatch hmem
  rw [ofParts_eq, Schema.ofOrigin, List.filter_append, List.filter_eq_nil_iff.2, List.nil_append,
    List.filter_eq_self.2]
  · simpa using origin_manualOf bodies
  · simpa using fun r hr => by simp [hstructural r hr]

theorem ofStatements_ofParts (chunks bodies : List Text) :
    (ofParts chunks bodies).ofStatements = (addChunks .empty 0 chunks).2 := by
  have hwarnings := (adds_addChunks .empty 0 chunks).warnings
  rw [ofParts_eq, ofStatements, List.filter_append, List.filter_eq_self.2, List.filter_eq_nil_iff.2,
    List.append_nil]
  · simpa using isOfDirective_unreadOf bodies
  · simpa using hwarnings

theorem ofDirectives_ofParts (chunks bodies : List Text) :
    (ofParts chunks bodies).ofDirectives = unreadOf bodies := by
  have hwarnings := (adds_addChunks .empty 0 chunks).warnings
  rw [ofParts_eq, ofDirectives, List.filter_append, List.filter_eq_nil_iff.2, List.nil_append,
    List.filter_eq_self.2]
  · simpa using isOfDirective_unreadOf bodies
  · simpa using hwarnings

/-- Chunks that declare the same make the same reading. -/
theorem ofParts_congr (h : chunks'.map TableBody.ofChunk = chunks.map TableBody.ofChunk)
    (bodies : List Text) : ofParts chunks' bodies = ofParts chunks bodies := by
  rw [ofParts_eq, ofParts_eq, addChunks_congr h]

/-- Chunks and directives with others behind them are read apart, if no table of the others has
the name of one before. -/
theorem ofParts_append (hnew : ∀ table ∈ (ofParts chunks bodies).schema.tables,
      ∀ table' ∈ (ofParts chunks' bodies').schema.tables, table'.name ≠ table.name) :
    ofParts (chunks ++ chunks') (bodies ++ bodies') =
      (ofParts chunks bodies).append chunks.length (ofParts chunks' bodies') := by
  have hbehind := addChunks_behind (d := (addChunks .empty 0 chunks).1) (e := .empty)
    chunks.length 0 chunks' fun table' hmem' => by
      rw [ofParts_eq, ofParts_eq] at hnew
      rw [Bool.eq_false_iff]
      intro hheld
      obtain ⟨table, hmem, hname⟩ := SchemaDraft.holds_iff.1 hheld
      exact hnew table hmem table' hmem' hname.symm
  rw [SchemaDraft.append_empty, Nat.add_zero] at hbehind
  rw [append, ofOrigin_structural_ofParts, ofOrigin_structural_ofParts, ofOrigin_manual_ofParts,
    ofOrigin_manual_ofParts, ofStatements_ofParts, ofStatements_ofParts, ofDirectives_ofParts,
    ofDirectives_ofParts, ofParts_eq, ofParts_eq chunks, ofParts_eq chunks', addChunks_append,
    Nat.zero_add, hbehind, manualOf_append, unreadOf_append]
  simp [SchemaDraft.append]

variable {marks : List Text} {t : Text} {r : Reading}

theorem ofText?_eq_some_iff : ofText? marks t = some r ↔
    Statement.chunks (Cleaned.ofText marks t).text ≠ [] ∧
      ofParts (Statement.chunks (Cleaned.ofText marks t).text)
        (Cleaned.ofText marks t).directives = r := by
  simp [ofText?]

end Reading
end DdlDiagram
