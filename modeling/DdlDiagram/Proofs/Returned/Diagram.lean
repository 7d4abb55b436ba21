import DdlDiagram.Proofs.Diagram.Fidelity
import DdlDiagram.Proofs.Returned.Pieces

/-!
# Diagrams with carriage returns

A diagram shows the names of a schema as they are, so the diagrams of two schemas that differ in
the returns of their names differ in just these returns. What a return could change is the place of
a column in the keys of its table: there names are compared.
-/

namespace DdlDiagram

/-- The keys of a table hold each of its columns that they hold up to carriage returns. -/
def Table.KeysAgreeOnReturns (table : Table) : Prop :=
  ∀ column ∈ table.columns, ∀ keys ∈ [table.primaryKey, table.foreignKeys],
    ∀ name ∈ keys.toList, name.withoutReturns = column.name.withoutReturns →
      column.name ∈ keys.toList

instance (table : Table) : Decidable table.KeysAgreeOnReturns :=
  inferInstanceAs (Decidable (∀ column ∈ table.columns,
    ∀ keys ∈ [table.primaryKey, table.foreignKeys], ∀ name ∈ keys.toList,
      name.withoutReturns = column.name.withoutReturns → column.name ∈ keys.toList))

/-- Two columns that a diagram shows alike, up to returns in the name. -/
structure SameColumn (c c' : Column) : Prop where
  name : Returned c.name c'.name
  typeToken : c'.typeToken = c.typeToken

/-- Two tables of which the second has returns in its names. The names in its keys may come more
than once, with different returns. -/
structure ReturnedTable (table table' : Table) : Prop where
  name : Returned table.name table'.name
  columns : List.Forall₂ SameColumn table.columns table'.columns
  primaryKey (name : Text) : name ∈ table.primaryKey.toList ↔
    ∃ name' ∈ table'.primaryKey.toList, Returned name name'
  foreignKeys (name : Text) : name ∈ table.foreignKeys.toList ↔
    ∃ name' ∈ table'.foreignKeys.toList, Returned name name'

structure ReturnedRelationship (r r' : Relationship) : Prop where
  source : Returned r.source r'.source
  target : Returned r.target r'.target
  cardinality : Returned r.cardinality r'.cardinality
  label : Returned r.label r'.label

variable {s t t' name name' : Text} {ts ts' names names' : List Text} {c : Char}

namespace Returned

theorem flatMap {α β : Type} {f : α → Text} {g : β → Text} {as : List α} {bs : List β}
    (h : List.Forall₂ (fun a b => Returned (f a) (g b)) as bs) :
    Returned (as.flatMap f) (bs.flatMap g) := by
  induction h with
  | nil => exact .nil
  | cons hfirst _ ih => exact hfirst.append ih

theorem join (hsep : '\r' ∉ s) (h : List.Forall₂ Returned ts ts') :
    Returned (Text.join s ts) (Text.join s ts') := by
  induction h with
  | nil => exact .nil
  | cons hfirst hothers ih =>
      cases hothers with
      | nil => exact hfirst
      | cons => exact (hfirst.append (.refl hsep)).append ih

theorem replaceChar (h : Returned t t') (hreturn : c ≠ '\r') (hfeed : c ≠ '\n') (hs : '\r' ∉ s) :
    Returned (t.replaceChar c s) (t'.replaceChar c s) := by
  induction h with
  | nil => exact .nil
  | feed _ ih => simpa [Text.replaceChar, hreturn.symm, hfeed.symm] using Returned.feed ih
  | @cons d t t' hd _ ih =>
      have hfirst : '\r' ∉ if d = c then s else [d] := by
        split
        · exact hs
        · simpa using hd.symm
      exact (refl hfirst).append ih

theorem typeTokenFrom_eq (h : Returned t t') (separated : Bool) :
    typeTokenFrom separated t' = typeTokenFrom separated t := by
  induction h generalizing separated with
  | nil => rfl
  | feed _ ih => exact ih true
  | cons _ _ ih => simp only [typeTokenFrom, ih]

/-- A name is in a list if the other name is in the other list, unless that is so only up to
returns. -/
theorem mem_iff_of_agree (h : Returned name name')
    (hnames : ∀ name, name ∈ names ↔ ∃ name' ∈ names', Returned name name')
    (hagree : ∀ other ∈ names', other.withoutReturns = name'.withoutReturns → name' ∈ names') :
    name ∈ names ↔ name' ∈ names' := by
  rw [hnames]
  constructor
  · rintro ⟨other, hmem, hother⟩
    exact hagree other hmem (hother.withoutReturns.trans h.withoutReturns.symm)
  · exact fun hmem => ⟨name', hmem, h⟩

/-- The names of two lists of which those in the second have returns. -/
theorem mem_iff_of_forall₂ (h : List.Forall₂ Returned names names') (name : Text) :
    name ∈ names ↔ ∃ name' ∈ names', Returned name name' := by
  induction h with
  | nil => simp
  | @cons first first' names names' hfirst _ ih =>
      have heq : Returned name first' ↔ name = first := by
        constructor
        · exact fun h => h.withoutReturns.symm.trans hfirst.withoutReturns
        · rintro rfl
          exact hfirst
      simp [ih, heq]

end Returned

namespace Diagram

variable {table table' : Table} {column column' : Column}

theorem keyRole_returned (h : ReturnedTable table table') (hname : Returned name name')
    (hagree : ∀ keys ∈ [table'.primaryKey, table'.foreignKeys], ∀ other ∈ keys.toList,
      other.withoutReturns = name'.withoutReturns → name' ∈ keys.toList) :
    table'.keyRole name' = table.keyRole name := by
  have hcontains : ∀ {keys keys' : NameSet}, keys' ∈ [table'.primaryKey, table'.foreignKeys] →
      (∀ name, name ∈ keys.toList ↔ ∃ name' ∈ keys'.toList, Returned name name') →
      keys'.contains name' = keys.contains name := by
    intro keys keys' hmem hkeys
    rw [NameSet.contains, NameSet.contains, Bool.eq_iff_iff, List.contains_iff_mem,
      List.contains_iff_mem, hname.mem_iff_of_agree hkeys (hagree keys' hmem)]
  rw [Table.keyRole, Table.keyRole, hcontains (by simp) h.primaryKey,
    hcontains (by simp) h.foreignKeys]

theorem columnLine_returned (h : ReturnedTable table table') (hcolumn : SameColumn column column')
    (hagree : ∀ keys ∈ [table'.primaryKey, table'.foreignKeys], ∀ other ∈ keys.toList,
      other.withoutReturns = column'.name.withoutReturns → column'.name ∈ keys.toList) :
    Returned (columnLine table column) (columnLine table' column') := by
  have htype : '\r' ∉ shownType column.typeToken :=
    (isField_shownType column).not_mem (by decide)
  have hmark : ∀ role : KeyRole, '\r' ∉ if role = .none then [] else ' ' :: role.mark := by
    intro role
    cases role <;> decide
  unfold columnLine
  rw [hcolumn.typeToken, keyRole_returned h hcolumn.name hagree]
  refine .append (.append (.append (.append (.append (.refl ?_) (.refl htype)) (.refl ?_))
    hcolumn.name) (.refl (hmark _))) (.refl ?_)
  all_goals decide

theorem tableBlock_returned (h : ReturnedTable table table') (hagree : table'.KeysAgreeOnReturns) :
    Returned (tableBlock table) (tableBlock table') := by
  have hlines : List.Forall₂ (fun column column' =>
      Returned (columnLine table column) (columnLine table' column'))
      table.columns table'.columns := by
    obtain ⟨hlength, hpairs⟩ := List.forall₂_iff_zip.1 h.columns
    refine List.forall₂_iff_zip.2 ⟨hlength, fun {column column'} hmem => ?_⟩
    exact columnLine_returned h (hpairs hmem) (hagree column' (List.of_mem_zip hmem).2)
  unfold tableBlock
  refine .append (.append (.append (.append (.refl ?_) h.name) (.refl ?_)) (.flatMap hlines))
    (.refl ?_)
  all_goals decide

theorem relationshipLine_returned {r r' : Relationship} (h : ReturnedRelationship r r') :
    Returned (relationshipLine r) (relationshipLine r') := by
  have hlabel : Returned (shownLabel r.label) (shownLabel r'.label) :=
    h.label.replaceChar (by decide) (by decide) (by decide)
  unfold relationshipLine
  refine .append (.append (.append (.append (.append (.append (.append (.append (.refl ?_) h.source)
    (.refl ?_)) h.cardinality) (.refl ?_)) h.target) (.refl ?_)) hlabel) (.refl ?_)
  all_goals decide

end Diagram

/-- Two schemas that differ in returns have diagrams that differ in returns, if the keys of the
second one hold the columns that they hold up to returns. -/
theorem Schema.diagram_returned {schema schema' : Schema}
    (htables : List.Forall₂ ReturnedTable schema.tables schema'.tables)
    (hrelationships : List.Forall₂ ReturnedRelationship schema.relationships schema'.relationships)
    (hagree : ∀ table ∈ schema'.tables, table.KeysAgreeOnReturns) :
    Returned schema.diagram schema'.diagram := by
  have hblocks : List.Forall₂ (fun table table' =>
      Returned (Diagram.tableBlock table) (Diagram.tableBlock table'))
      schema.tables schema'.tables := by
    obtain ⟨hlength, hpairs⟩ := List.forall₂_iff_zip.1 htables
    refine List.forall₂_iff_zip.2 ⟨hlength, fun {table table'} hmem => ?_⟩
    exact Diagram.tableBlock_returned (hpairs hmem) (hagree table' (List.of_mem_zip hmem).2)
  have hlines := hrelationships.imp fun _ _ => Diagram.relationshipLine_returned
  unfold Schema.diagram
  exact .append (.append (.refl (by decide)) (.flatMap hblocks)) (.flatMap hlines)

end DdlDiagram
