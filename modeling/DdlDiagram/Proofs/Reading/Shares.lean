import DdlDiagram.Proofs.Declaration.Reader
import DdlDiagram.Proofs.Schema.NameSet
import DdlDiagram.Reading

/-!
# The shares of declarations

Each line of a table body has a share in the table: columns, names in its keys, relationships and
warnings. Declaring lines one after the other adds up their shares, so a body makes the table that
its shares make together, and no line is without one of the five kinds of shares.
-/

namespace DdlDiagram
namespace Reading

/-- What a declaration adds to its table and what it leaves out. -/
structure Share where
  columns : List Column
  primaryKey : List Text
  foreignKeys : List Text
  relationships : List Relationship
  warnings : List Warning
  deriving DecidableEq, Repr

namespace Share

def empty : Share := ⟨[], [], [], [], []⟩

def append (share other : Share) : Share where
  columns := share.columns ++ other.columns
  primaryKey := share.primaryKey ++ other.primaryKey
  foreignKeys := share.foreignKeys ++ other.foreignKeys
  relationships := share.relationships ++ other.relationships
  warnings := share.warnings ++ other.warnings

def all (shares : List Share) : Share where
  columns := shares.flatMap columns
  primaryKey := shares.flatMap primaryKey
  foreignKeys := shares.flatMap foreignKeys
  relationships := shares.flatMap relationships
  warnings := shares.flatMap warnings

theorem all_cons (share : Share) (shares : List Share) :
    all (share :: shares) = share.append (all shares) := by
  simp [all, append]

/-- The share of a column: itself, and its name in the keys that it declares. -/
def ofColumn (table : Text) (column : ColumnDeclaration) : Share where
  columns := [⟨column.name, column.rawType, column.nullable⟩]
  primaryKey := if column.primaryKey then [column.name] else []
  foreignKeys := if column.references.isSome then [column.name] else []
  relationships :=
    column.references.toList.map fun target =>
      TableDraft.relationshipOf table [column.name] target
  warnings := []

/-- The share of a declaration in the table of a name. -/
def ofDeclaration (table : Text) : Declaration → Share
  | .column column => ofColumn table column
  | .primaryKey columns => { empty with primaryKey := columns }
  | .foreignKey columns target =>
    { empty with
      foreignKeys := columns
      relationships := [TableDraft.relationshipOf table columns target] }
  | .ignored => empty
  | .unknown text => { empty with warnings := [.declarationUnknown table text] }

end Share

def extend (draft : TableDraft) (share : Share) : TableDraft where
  table :=
    { name := draft.table.name
      columns := draft.table.columns ++ share.columns
      primaryKey := draft.table.primaryKey.insertAll share.primaryKey
      foreignKeys := draft.table.foreignKeys.insertAll share.foreignKeys }
  relationships := draft.relationships ++ share.relationships

theorem extend_extend (draft : TableDraft) (share other : Share) :
    extend (extend draft share) other = extend draft (share.append other) := by
  simp [extend, Share.append, NameSet.insertAll_append]

/-- Declaring adds the share of the declaration, whatever the table holds already. -/
theorem declare_eq (draft : TableDraft) (declaration : Declaration) :
    declare draft declaration =
      (extend draft (.ofDeclaration draft.table.name declaration),
        (Share.ofDeclaration draft.table.name declaration).warnings) := by
  cases declaration with
  | column column =>
      rcases column with ⟨name, rawType, nullable, primaryKey, references⟩
      cases primaryKey <;> cases references <;>
        simp [declare, Share.ofDeclaration, Share.ofColumn, extend, TableDraft.withColumn,
          TableDraft.withPrimaryKey, TableDraft.withForeignKey]
  | primaryKey columns =>
      simp [declare, Share.ofDeclaration, Share.empty, extend, TableDraft.withPrimaryKey]
  | foreignKey columns target =>
      simp [declare, Share.ofDeclaration, Share.empty, extend, TableDraft.withForeignKey]
  | ignored => simp [declare, Share.ofDeclaration, Share.empty, extend]
  | unknown text => simp [declare, Share.ofDeclaration, Share.empty, extend]

def sharesOf (table : Text) (lines : List Text) : List Share :=
  lines.map fun line => .ofDeclaration table (.ofText line)

/-- Declaring lines adds the shares of all of them, in order. -/
theorem declareAll_eq (draft : TableDraft) (lines : List Text) :
    declareAll draft lines =
      (extend draft (.all (sharesOf draft.table.name lines)),
        (Share.all (sharesOf draft.table.name lines)).warnings) := by
  induction lines generalizing draft with
  | nil => simp [declareAll, sharesOf, Share.all, extend]
  | cons line rest ih =>
      have hname : ∀ share, (extend draft share).table.name = draft.table.name := fun _ => rfl
      rw [declareAll, declare_eq]
      simp only [ih, hname, extend_extend, sharesOf, List.map_cons, Share.all_cons]
      rfl

end Reading

namespace TableBody

open Reading

def share (body : TableBody) : Share := .all (sharesOf body.name body.declarations)

/-- The table that a body declares, with the columns of each key in the order in which they are
first named. -/
def toTable (body : TableBody) : Table where
  name := body.name
  columns := body.share.columns
  primaryKey := .ofList body.share.primaryKey
  foreignKeys := .ofList body.share.foreignKeys

end TableBody

namespace Reading

/-- A body makes the table of its shares. -/
theorem tableOf_eq (body : TableBody) :
    tableOf body = (⟨body.toTable, body.share.relationships⟩, body.share.warnings) := by
  rw [tableOf, declareAll_eq]
  simp only [extend, TableDraft.named, List.nil_append, NameSet.insertAll_empty]
  rfl

/-- The relationships of a body are those of its keys. -/
theorem exists_of_mem_relationships {body : TableBody} {relationship : Relationship}
    (h : relationship ∈ body.share.relationships) :
    ∃ columns target, relationship = TableDraft.relationshipOf body.name columns target := by
  obtain ⟨share, hshare, hmem⟩ := List.mem_flatMap.1 h
  obtain ⟨line, -, rfl⟩ := List.mem_map.1 hshare
  cases hline : Declaration.ofText line with
  | column column =>
      rw [hline] at hmem
      obtain ⟨target, -, rfl⟩ := List.mem_map.1 hmem
      exact ⟨[column.name], target, rfl⟩
  | foreignKey columns target =>
      rw [hline] at hmem
      exact ⟨columns, target, List.mem_singleton.1 hmem⟩
  | _ =>
      rw [hline] at hmem
      exact nomatch hmem

theorem origin_of_mem_relationships {body : TableBody} {relationship : Relationship}
    (h : relationship ∈ body.share.relationships) : relationship.origin = .structural := by
  obtain ⟨columns, target, rfl⟩ := exists_of_mem_relationships h
  rfl

/-- The declarations of a body leave out nothing but declarations of its table. -/
theorem exists_of_mem_warnings {body : TableBody} {warning : Warning}
    (h : warning ∈ body.share.warnings) : ∃ text, warning = .declarationUnknown body.name text := by
  obtain ⟨share, hshare, hmem⟩ := List.mem_flatMap.1 h
  obtain ⟨line, -, rfl⟩ := List.mem_map.1 hshare
  cases hline : Declaration.ofText line with
  | unknown text =>
      rw [hline] at hmem
      exact ⟨text, List.mem_singleton.1 hmem⟩
  | _ =>
      rw [hline] at hmem
      exact nomatch hmem

/-- A share of which a table has all parts. -/
structure Share.IsPartOf (share : Share) (draft : TableDraft) : Prop where
  columns : share.columns ⊆ draft.table.columns
  primaryKey : share.primaryKey ⊆ draft.table.primaryKey.toList
  foreignKeys : share.foreignKeys ⊆ draft.table.foreignKeys.toList
  relationships : share.relationships ⊆ draft.relationships

/-- A table has the share of each of its lines. -/
theorem isPartOf_tableOf {body : TableBody} {line : Text} (h : line ∈ body.declarations) :
    (Share.ofDeclaration body.name (.ofText line)).IsPartOf (tableOf body).1 := by
  have hshare : .ofDeclaration body.name (.ofText line) ∈ sharesOf body.name body.declarations :=
    List.mem_map_of_mem h
  have hnames : ∀ names : List Text, names ⊆ (NameSet.ofList names).toList :=
    fun names _ hname => List.mem_eraseDups.2 hname
  rw [tableOf_eq]
  constructor
  case columns => exact fun _ hmem => List.mem_flatMap.2 ⟨_, hshare, hmem⟩
  case primaryKey => exact fun _ hmem => hnames _ (List.mem_flatMap.2 ⟨_, hshare, hmem⟩)
  case foreignKeys => exact fun _ hmem => hnames _ (List.mem_flatMap.2 ⟨_, hshare, hmem⟩)
  case relationships => exact fun _ hmem => List.mem_flatMap.2 ⟨_, hshare, hmem⟩

/-- The kinds of shares that a line can have: a column with the keys of its own, names in the
primary key, a foreign key with its relationship, nothing, or a warning with the line itself. -/
inductive Yields (table line : Text) : Share → Prop where
  | column (column : ColumnDeclaration) : Yields table line (.ofColumn table column)
  | primaryKey {columns : List Text} : columns ≠ [] →
      Yields table line { Share.empty with primaryKey := columns }
  | foreignKey {columns : List Text} (target : Text) : columns ≠ [] →
      Yields table line
        { Share.empty with
          foreignKeys := columns
          relationships := [TableDraft.relationshipOf table columns target] }
  | nothing : Yields table line .empty
  | warning : Yields table line { Share.empty with warnings := [.declarationUnknown table line] }

/-- Every line has a share of one of the kinds. -/
theorem yields_ofText (table line : Text) :
    Yields table line (.ofDeclaration table (.ofText line)) := by
  rw [Declaration.ofText]
  cases hwords : Declaration.ofWords? line.words with
  | none => exact .warning
  | some declaration =>
      rw [Option.getD_some]
      cases Declaration.isKnown_of_ofWords? hwords with
      | column column => exact .column column
      | primaryKey hne => exact .primaryKey hne
      | foreignKey target hne => exact .foreignKey target hne
      | ignored => exact .nothing

end Reading
end DdlDiagram
