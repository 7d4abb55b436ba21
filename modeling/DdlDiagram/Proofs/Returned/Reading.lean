import DdlDiagram.Proofs.Reading.Account
import DdlDiagram.Proofs.Returned.Cleaned
import DdlDiagram.Proofs.Returned.Declaration
import DdlDiagram.Proofs.Returned.Diagram
import DdlDiagram.Proofs.Returned.TableBody

/-!
# Readings of texts with carriage returns

Corresponding bodies have corresponding shares and make corresponding tables. Whether a chunk
repeats a table depends on the names of the tables before it, so the fates of chunks correspond as
long as no two of these names differ in returns only. Such names come about where a comment stands
within a name and takes the return at the end of its line with it.
-/

namespace DdlDiagram

/-- No two names of a list differ in carriage returns only. -/
def AgreeOnReturns (names : List Text) : Prop :=
  ∀ name ∈ names, ∀ other ∈ names, name.withoutReturns = other.withoutReturns → name = other

instance (names : List Text) : Decidable (AgreeOnReturns names) :=
  inferInstanceAs (Decidable (∀ name ∈ names, ∀ other ∈ names,
    name.withoutReturns = other.withoutReturns → name = other))

namespace Reading

def ReturnedWarning (w w' : Warning) : Prop := Returned w.message w'.message

structure ReturnedShare (share share' : Share) : Prop where
  columns : List.Forall₂ SameColumn share.columns share'.columns
  primaryKey : List.Forall₂ Returned share.primaryKey share'.primaryKey
  foreignKeys : List.Forall₂ Returned share.foreignKeys share'.foreignKeys
  relationships : List.Forall₂ ReturnedRelationship share.relationships share'.relationships
  warnings : List.Forall₂ ReturnedWarning share.warnings share'.warnings

inductive ReturnedFate : Fate → Fate → Prop
  | accepted {body body' : TableBody} : ReturnedBody body body' →
      ReturnedFate (.accepted body) (.accepted body')
  | malformed (reason : TableBody.Fault) : ReturnedFate (.malformed reason) (.malformed reason)
  | repeated {name name' : Text} : Returned name name' →
      ReturnedFate (.repeated name) (.repeated name')

variable {name name' target target' chunk chunk' t : Text}
variable {columns columns' names names' chunks chunks' bodies marks : List Text}
variable {fate fate' : Fate} {fates fates' : List Fate}

theorem relationshipOf_returned (hname : Returned name name')
    (hcolumns : List.Forall₂ Returned columns columns') (htarget : Returned target target') :
    ReturnedRelationship (TableDraft.relationshipOf name columns target)
      (TableDraft.relationshipOf name' columns' target') where
  source := hname
  target := htarget
  cardinality := .refl (show '\r' ∉ manyToOne by decide)
  label := .append (.refl (by decide)) (.join (by decide) hcolumns)

theorem ofColumn_returned (hname : Returned name name') {c c' : ColumnDeclaration}
    (h : ReturnedColumn c c') :
    ReturnedShare (.ofColumn name c) (.ofColumn name' c') where
  columns := .cons ⟨h.name, h.rawType.typeTokenFrom_eq false⟩ .nil
  primaryKey := by
    rw [Share.ofColumn, Share.ofColumn, h.primaryKey]
    simp only
    split
    · exact .cons h.name .nil
    · exact .nil
  foreignKeys := by
    rw [Share.ofColumn, Share.ofColumn, h.references.isSome_eq]
    simp only
    split
    · exact .cons h.name .nil
    · exact .nil
  relationships := by
    have href := h.references
    rw [Share.ofColumn, Share.ofColumn]
    simp only
    generalize c.references = target, c'.references = target' at href
    cases href with
    | none => exact .nil
    | some htarget => exact .cons (relationshipOf_returned hname (.cons h.name .nil) htarget) .nil
  warnings := .nil

theorem ofDeclaration_returned (hname : Returned name name') {d d' : Declaration}
    (h : ReturnedDeclaration d d') :
    ReturnedShare (.ofDeclaration name d) (.ofDeclaration name' d') := by
  cases h with
  | column hcolumn => exact ofColumn_returned hname hcolumn
  | primaryKey hcolumns => exact ⟨.nil, hcolumns, .nil, .nil, .nil⟩
  | foreignKey hcolumns htarget =>
      have hrelationship := relationshipOf_returned hname hcolumns htarget
      exact ⟨.nil, .nil, hcolumns, .cons hrelationship .nil, .nil⟩
  | ignored => exact ⟨.nil, .nil, .nil, .nil, .nil⟩
  | unknown htext =>
      refine ⟨.nil, .nil, .nil, .nil, .cons ?_ .nil⟩
      exact .append (.append (.append (.refl (by decide)) hname) (.refl (by decide))) htext

theorem share_returned {body body' : TableBody} (h : ReturnedBody body body') :
    ReturnedShare body.share body'.share := by
  have hshares : List.Forall₂ ReturnedShare (sharesOf body.name body.declarations)
      (sharesOf body'.name body'.declarations) := by
    rw [sharesOf, sharesOf, List.forall₂_map_left_iff, List.forall₂_map_right_iff]
    exact h.declarations.imp fun _ _ hline => ofDeclaration_returned h.name hline.ofText
  exact ⟨List.rel_flatMap hshares fun _ _ hshare => hshare.columns,
    List.rel_flatMap hshares fun _ _ hshare => hshare.primaryKey,
    List.rel_flatMap hshares fun _ _ hshare => hshare.foreignKeys,
    List.rel_flatMap hshares fun _ _ hshare => hshare.relationships,
    List.rel_flatMap hshares fun _ _ hshare => hshare.warnings⟩

theorem toTable_returned {body body' : TableBody} (h : ReturnedBody body body') :
    ReturnedTable body.toTable body'.toTable := by
  have hkeys : ∀ {names names' : List Text}, List.Forall₂ Returned names names' → ∀ name,
      name ∈ (NameSet.ofList names).toList ↔
        ∃ name' ∈ (NameSet.ofList names').toList, Returned name name' := by
    intro names names' hnames name
    simpa [NameSet.ofList, List.mem_eraseDups] using Returned.mem_iff_of_forall₂ hnames name
  have hshare := share_returned h
  exact ⟨h.name, hshare.columns, hkeys hshare.primaryKey, hkeys hshare.foreignKeys⟩

theorem namesOf_returned (h : ReturnedFate fate fate') :
    List.Forall₂ Returned (namesOf [fate]) (namesOf [fate']) := by
  cases h with
  | accepted hbody => exact .cons hbody.name .nil
  | malformed => exact .nil
  | repeated => exact .nil

/-- A chunk repeats a table if the other chunk does. -/
theorem fate_returned (h : Returned chunk chunk') (hnames : List.Forall₂ Returned names names')
    (hagree : AgreeOnReturns (names' ++ namesOf [Fate.ofChunk names' chunk'])) :
    ReturnedFate (Fate.ofChunk names chunk) (Fate.ofChunk names' chunk') := by
  have hread := h.ofChunk
  rw [Fate.ofChunk] at hagree
  rw [Fate.ofChunk, Fate.ofChunk]
  generalize TableBody.ofChunk chunk = read, TableBody.ofChunk chunk' = read' at hread hagree
  cases hread with
  | error reason => exact .malformed reason
  | @ok body body' hbody =>
      by_cases hheld : body'.name ∈ names'
      · have hrepeats : body.name ∈ names :=
          (Returned.mem_iff_of_forall₂ hnames _).2 ⟨body'.name, hheld, hbody.name⟩
        simp only [hheld, hrepeats, if_true]
        exact .repeated hbody.name
      · simp only [hheld, if_false] at hagree ⊢
        have hnew : body.name ∉ names := by
          rw [hbody.name.mem_iff_of_agree (Returned.mem_iff_of_forall₂ hnames)]
          · exact hheld
          · intro other hmem hother
            have hsame := hagree other (List.mem_append_left _ hmem) body'.name
              (List.mem_append_right _ List.mem_cons_self) hother
            exact hsame ▸ hmem
        simp only [hnew, if_false]
        exact .accepted hbody

theorem fatesOf_returned (h : List.Forall₂ Returned chunks chunks')
    (hnames : List.Forall₂ Returned names names')
    (hagree : AgreeOnReturns (names' ++ namesOf (fatesOf names' chunks'))) :
    List.Forall₂ ReturnedFate (fatesOf names chunks) (fatesOf names' chunks') := by
  induction h generalizing names names' with
  | nil => exact .nil
  | @cons chunk chunk' rest rest' hchunk _ ih =>
      rw [fatesOf, namesOf_cons, ← List.append_assoc] at hagree
      have hfate : ReturnedFate (Fate.ofChunk names chunk) (Fate.ofChunk names' chunk') := by
        refine fate_returned hchunk hnames fun name hname other hother => ?_
        exact hagree name (List.mem_append_left _ hname) other (List.mem_append_left _ hother)
      exact .cons hfate (ih (List.rel_append hnames (namesOf_returned hfate)) hagree)

theorem warnings_returned (h : ReturnedFate fate fate') (index : Nat) :
    List.Forall₂ ReturnedWarning (fate.warnings index) (fate'.warnings index) := by
  have hdigits : '\r' ∉ Nat.toDigits 10 index := fun hmem =>
    absurd (Nat.isDigit_of_mem_toDigits (by decide) (by decide) hmem) (by decide)
  have hnumber := (Returned.refl (t := "Skipped table statement #".toList) (by decide)).append
    (.refl hdigits)
  cases h with
  | accepted hbody => exact (share_returned hbody).warnings
  | malformed reason =>
      have hmessage : '\r' ∉ reason.message := by cases reason <;> decide
      exact .cons ((hnumber.append (.refl (by decide))).append (.refl hmessage)) .nil
  | repeated hname =>
      refine .cons (((hnumber.append (.refl ?_)).append hname).append (.refl ?_)) .nil
      all_goals decide

theorem warningsOf_returned (h : List.Forall₂ ReturnedFate fates fates') (index : Nat) :
    List.Forall₂ ReturnedWarning (warningsOf index fates) (warningsOf index fates') := by
  induction h generalizing index with
  | nil => exact .nil
  | cons hfate _ ih =>
      have hrest := ih (index + 1)
      simp only [warningsOf, List.zipIdx_cons, List.flatMap_cons] at hrest ⊢
      exact List.rel_append (warnings_returned hfate index) hrest

theorem acceptedOf_returned (h : List.Forall₂ ReturnedFate fates fates') :
    List.Forall₂ ReturnedBody (acceptedOf fates) (acceptedOf fates') := by
  induction h with
  | nil => exact .nil
  | cons hfate _ ih =>
      cases hfate with
      | accepted hbody => exact .cons hbody ih
      | malformed => exact ih
      | repeated => exact ih

/-- Directives without returns give relationships without returns. -/
theorem manualOf_returned (h : ∀ body ∈ bodies, '\r' ∉ body) :
    List.Forall₂ ReturnedRelationship (manualOf bodies) (manualOf bodies) := by
  refine List.forall₂_same.2 fun relationship hmem => ?_
  obtain ⟨directive, hdirective, rfl⟩ := List.mem_map.1 hmem
  obtain ⟨body, hbody, hread⟩ := List.mem_filterMap.1 hdirective
  have hkept : ∀ {part : Text}, part ⊆ body → Returned part part := fun hsub =>
    .refl fun hreturn => h body hbody (hsub hreturn)
  obtain ⟨hsource, hcardinality, htarget, hlabel⟩ := Directive.subset_of_ofBody? hread
  exact ⟨hkept hsource, hkept htarget, hkept hcardinality, hkept hlabel⟩

theorem unreadOf_returned (h : ∀ body ∈ bodies, '\r' ∉ body) :
    List.Forall₂ ReturnedWarning (unreadOf bodies) (unreadOf bodies) := by
  refine List.forall₂_same.2 fun warning hmem => ?_
  obtain ⟨body, hbody, rfl⟩ := List.mem_map.1 hmem
  exact .append (.refl (by decide)) (.refl (h body (List.mem_filter.1 hbody).1))

/-- Corresponding chunks have corresponding warnings if no two names of their tables differ in
returns only, and corresponding diagrams if no column is in a key up to returns only. -/
theorem ofParts_returned (h : List.Forall₂ Returned chunks chunks')
    (hbodies : ∀ body ∈ bodies, '\r' ∉ body)
    (hagree : AgreeOnReturns (ofParts chunks' bodies).schema.tableNames) :
    List.Forall₂ ReturnedWarning (ofParts chunks bodies).warnings
        (ofParts chunks' bodies).warnings ∧
      ((∀ table ∈ (ofParts chunks' bodies).schema.tables, table.KeysAgreeOnReturns) →
        Returned (ofParts chunks bodies).schema.diagram
          (ofParts chunks' bodies).schema.diagram) := by
  rw [ofParts_eq_fatesOf, ofParts_eq_fatesOf chunks'] at *
  have hnames : Schema.tableNames ⟨(acceptedOf (fatesOf [] chunks')).map TableBody.toTable,
      (acceptedOf (fatesOf [] chunks')).flatMap (·.share.relationships) ++ manualOf bodies⟩ =
      [] ++ namesOf (fatesOf [] chunks') := by
    rw [Schema.tableNames, List.map_map]
    rfl
  rw [hnames] at hagree
  have hfates := fatesOf_returned h .nil hagree
  have haccepted := acceptedOf_returned hfates
  constructor
  · exact List.rel_append (warningsOf_returned hfates 0) (unreadOf_returned hbodies)
  · refine Schema.diagram_returned ?_ ?_
    · rw [List.forall₂_map_left_iff, List.forall₂_map_right_iff]
      exact haccepted.imp fun _ _ => toTable_returned
    · refine List.rel_append ?_ (manualOf_returned hbodies)
      exact List.rel_flatMap haccepted fun _ _ hbody => (share_returned hbody).relationships

/-- Returns at the ends of lines change nothing but the line ends that names and unknown
declarations hold. A text has a schema with returns if it has one without them. If no two names of
its tables differ in returns only, the warnings are the same up to returns. If besides no column is
in a key of its table up to returns only, the diagrams are the same up to returns. -/
theorem ofText?_withReturns (marks : List Text) (h : '\r' ∉ t) :
    (ofText? marks t.withReturns = none ↔ ofText? marks t = none) ∧
    ∀ r r', ofText? marks t = some r → ofText? marks t.withReturns = some r' →
      AgreeOnReturns r'.schema.tableNames →
      r'.warnings.map (·.message.withoutReturns) = r.warnings.map (·.message) ∧
      ((∀ table ∈ r'.schema.tables, table.KeysAgreeOnReturns) →
        r'.schema.diagram.withoutReturns = r.schema.diagram) := by
  have hcleaned := Cleaned.ofLines_withReturns h marks (.code none)
  have hdirectives : (Cleaned.ofText marks t.withReturns).directives =
      (Cleaned.ofText marks t).directives := hcleaned.2
  have hchunks : List.Forall₂ Returned (Statement.chunks (Cleaned.ofText marks t).text)
      (Statement.chunks (Cleaned.ofText marks t.withReturns).text) := hcleaned.1.chunks
  have hbodies : ∀ body ∈ (Cleaned.ofText marks t).directives, '\r' ∉ body :=
    fun body hbody hreturn => h (Cleaned.subset_of_mem_directives hbody hreturn)
  constructor
  · have hnil : Statement.chunks (Cleaned.ofText marks t.withReturns).text = [] ↔
        Statement.chunks (Cleaned.ofText marks t).text = [] := by
      rw [← List.length_eq_zero_iff, ← List.length_eq_zero_iff, hchunks.length_eq]
    simp [ofText?, hnil]
  · intro r r' hr hr' hagree
    obtain ⟨-, rfl⟩ := ofText?_eq_some_iff.1 hr
    obtain ⟨-, rfl⟩ := ofText?_eq_some_iff.1 hr'
    rw [hdirectives] at hagree ⊢
    obtain ⟨hwarnings, hdiagram⟩ := ofParts_returned hchunks hbodies hagree
    refine ⟨?_, fun hkeys => (hdiagram hkeys).withoutReturns⟩
    rw [← Returned.forall₂_withoutReturns (List.forall₂_map_left_iff.2
      (List.forall₂_map_right_iff.2 hwarnings)), List.map_map]
    rfl

/-- A text with line feeds in comments, in a header, in the name of a table that comes twice, in a
column with a key, and in a declaration that is not known. -/
def broken : Text :=
  ("-- diagram: a 1 b\nCREATE /* and\n*/ TABLE\n[a\nb] ( -- two\n  \"c\nd\" INT(1,\n2),\n" ++
    "PRIMARY KEY (\"c\nd\"), (\ne)\n);\nCREATE TABLE [a\nb] (f)").toList

theorem ofText?_withReturns_broken : '\r' ∉ broken ∧ ∃ r r',
    ofText? Directive.defaultMarks broken = some r ∧
    ofText? Directive.defaultMarks broken.withReturns = some r' ∧
    AgreeOnReturns r'.schema.tableNames ∧
    (∀ table ∈ r'.schema.tables, table.KeysAgreeOnReturns) ∧
    r'.schema.tableNames = ["a\r\nb".toList] ∧ r'.warnings.length = 2 ∧
    r'.warnings.map (·.message.withoutReturns) = r.warnings.map (·.message) ∧
    r'.schema.diagram.withoutReturns = r.schema.diagram := by
  have hreturn : '\r' ∉ broken := by decide +kernel
  have hread : (ofText? Directive.defaultMarks broken.withReturns).any (fun r' =>
      AgreeOnReturns r'.schema.tableNames ∧
      (∀ table ∈ r'.schema.tables, table.KeysAgreeOnReturns) ∧
      r'.schema.tableNames = ["a\r\nb".toList] ∧ r'.warnings.length = 2) = true := by
    decide +kernel
  obtain ⟨r', hr', hnames⟩ := (Option.any_eq_true _ _).1 hread
  obtain ⟨htables, hkeys, hname, hlength⟩ := of_decide_eq_true hnames
  obtain ⟨hnone, hsome⟩ := ofText?_withReturns Directive.defaultMarks hreturn
  obtain ⟨r, hr⟩ : ∃ r, ofText? Directive.defaultMarks broken = some r := by
    rw [← Option.ne_none_iff_exists', ← hnone.ne, hr']
    exact Option.some_ne_none r'
  obtain ⟨hwarnings, hdiagram⟩ := hsome r r' hr hr' htables
  exact ⟨hreturn, r, r', hr, hr', htables, hkeys, hname, hlength, hwarnings, hdiagram hkeys⟩

/-- Texts with a comment in a name in brackets, or between the lines of a quoted name. With returns
the first one declares two tables instead of one, and the second one loses a key. -/
def crossed : List Text := [
  "CREATE TABLE [a--\nb] (c INT);\nCREATE TABLE [a\nb] (c INT);".toList,
  "CREATE TABLE t (\"a\n--\nb\" INT, PRIMARY KEY (\"a\n\nb\"))".toList]

/-- Neither condition on names can be left out. -/
theorem ofText?_withReturns_ne : List.Forall (fun t : Text => '\r' ∉ t ∧
    (ofText? Directive.defaultMarks t.withReturns).map (·.schema.diagram.withoutReturns) ≠
      (ofText? Directive.defaultMarks t).map (·.schema.diagram)) crossed := by
  decide +kernel

end Reading
end DdlDiagram
