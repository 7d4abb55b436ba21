import DdlDiagram.Proofs.Script.Bodies
import DdlDiagram.Proofs.Statement.Search

/-!
# The statements of a script

A printed script is cut into one segment for each table. Within a table no segment starts: columns
are not named `CREATE`, and where another name is, no `TABLE` follows.
-/

namespace DdlDiagram
namespace Script

open Statement

variable {u : Text}

theorem Name.quiet (name : Name) (hu : EndsHeader u) : Quiet name.text u :=
  .word_of_endsHeader name.isBare name.ne_nil hu

theorem endsHeader_comma (u : Text) : EndsHeader (',' :: u) := .mark (by decide) (by decide) u

theorem endsHeader_close (u : Text) : EndsHeader (')' :: u) := .mark (by decide) (by decide) u

theorem endsHeader_open (u : Text) : EndsHeader ('(' :: u) := .mark (by decide) (by decide) u

/-- No segment starts in a list in which no segment starts in front of a comma. -/
theorem quiet_join {gap : Text} (hgap : ∀ u, Quiet gap u) {ts : List Text}
    (hts : ∀ t ∈ ts, ∀ u, EndsHeader u → Quiet t u) (hu : EndsHeader u) :
    Quiet (Text.join (',' :: gap) ts) u := by
  induction ts with
  | nil => exact .nil u
  | cons t others ih =>
      obtain ⟨ht, hothers⟩ := List.forall_mem_cons.1 hts
      by_cases hne : others = []
      · rw [hne]
        exact ht u hu
      · have hsep : ∀ v, Quiet (',' :: gap) v := fun v => .mark (by decide) rfl (hgap v)
        rw [Text.join_cons_of_ne_nil hne, List.append_assoc]
        exact (ht _ (endsHeader_comma _)).append ((hsep _).append (ih hothers))

theorem quiet_space (u : Text) : Quiet [' '] u := .mark rfl rfl (.nil u)

theorem Names.quiet (names : Names) (u : Text) : Quiet names.print u := by
  have hnames : ∀ t ∈ names.toList, ∀ v, EndsHeader v → Quiet t v :=
    names.forall_mem_toList fun name _ hv => name.quiet hv
  exact .mark (by decide) rfl
    ((quiet_join quiet_space hnames (endsHeader_close u)).append (.mark (by decide) rfl (.nil u)))

theorem Reference.quiet (reference : Reference) (u : Text) : Quiet reference.print u :=
  (reference.table.quiet (endsHeader_open _)).append
    (.mark (by decide) rfl ((reference.column.quiet (endsHeader_close u)).append
      (.mark (by decide) rfl (.nil u))))

theorem TypeSpec.quiet (type : TypeSpec) (hu : EndsHeader u) : Quiet type.print u := by
  rw [TypeSpec.print]
  split
  · exact (type.head.quiet hu).append (.nil u)
  · have hparameters : ∀ t ∈ type.parameters.map (·.text), ∀ v, EndsHeader v → Quiet t v := by
      rw [List.forall_mem_map]
      exact fun name _ _ hv => name.quiet hv
    exact (type.head.quiet (endsHeader_open _)).append (.mark (by decide) rfl
      ((quiet_join Quiet.nil hparameters (endsHeader_close u)).append
        (.mark (by decide) rfl (.nil u))))

theorem isPlain_spelling (k : Keyword) (hk : k ∉ [Keyword.create, .temporary, .temp, .table]) :
    IsPlain k.spelling where
  isBare := (Name.ofKeyword k).isBare
  ne_nil := (Name.ofKeyword k).ne_nil
  is := by
    intro other hother
    revert hother hk
    cases k <;> cases other <;> decide

namespace ColumnSpec

variable (c : ColumnSpec)

theorem isPlain_of_mem_flags : ∀ w ∈ c.flags, IsPlain w := by
  rw [flags, List.forall_mem_append]
  constructor
  · cases c.notNull with
    | true =>
        exact forall_mem_pair.2
          ⟨isPlain_spelling .notWord (by decide), isPlain_spelling .null (by decide)⟩
    | false => exact fun w hw => absurd hw List.not_mem_nil
  · cases c.primaryKey with
    | true =>
        exact forall_mem_pair.2
          ⟨isPlain_spelling .primary (by decide), isPlain_spelling .key (by decide)⟩
    | false => exact fun w hw => absurd hw List.not_mem_nil

end ColumnSpec

/-- A row of keywords other than those of a header, with a blank behind it. -/
theorem quiet_keywords (ks : List Keyword)
    (hks : ∀ k ∈ ks, k ∉ [Keyword.create, .temporary, .temp, .table]) {t : Text} (ht : Quiet t u) :
    Quiet ((ks.map Keyword.spelling).flatMap (' ' :: ·) ++ ' ' :: t) u := by
  have hplain : ∀ w ∈ ks.map Keyword.spelling, IsPlain w := by
    rw [List.forall_mem_map]
    exact fun k hk => isPlain_spelling k (hks k hk)
  exact (Quiet.words hplain rfl).append (.mark (by decide) rfl ht)

theorem quiet_references {t : Text} (ht : Quiet t u) : Quiet (" REFERENCES ".toList ++ t) u :=
  quiet_keywords [.references] (by decide) ht

theorem ColumnSpec.quiet (c : ColumnSpec) (hu : EndsHeader u) : Quiet c.print u := by
  have hreferences : Quiet (c.references.toList.flatMap fun reference =>
      " REFERENCES ".toList ++ reference.print) u := by
    cases c.references with
    | none => exact .nil u
    | some reference => exact (quiet_references (reference.quiet u)).append (.nil u)
  have hends : EndsHeader ((c.references.toList.flatMap fun reference =>
      " REFERENCES ".toList ++ reference.print) ++ u) := by
    cases c.references with
    | none => exact hu
    | some reference =>
        exact EndsHeader.word (u := ' ' :: (reference.print ++ [] ++ u))
          (isPlain_spelling .references (by decide)) rfl
  have hname : ∀ v, Quiet c.name.text (' ' :: v) := fun v =>
    .word c.name.isBare c.name.ne_nil (c.name.free .create (by decide)) rfl
  have hflags := Quiet.words c.isPlain_of_mem_flags hends.startsIdentifier
  have htype := c.type.quiet (hends.words c.isPlain_of_mem_flags)
  rw [← List.append_assoc] at htype
  rw [print_eq_append]
  exact (hname _).append (.mark (by decide) rfl (htype.append (hflags.append hreferences)))

theorem KeyClause.quiet (clause : KeyClause) (u : Text) : Quiet clause.print u := by
  have hkey : ∀ k : Keyword, k ∉ [Keyword.create, .temporary, .temp, .table] → ∀ t, Quiet t u →
      Quiet (k.spelling ++ " KEY ".toList ++ t) u := by
    intro k hk t ht
    have hplain := isPlain_spelling k hk
    have hword := Quiet.word hplain.isBare hplain.ne_nil (hplain.is .create (by decide))
      (u := " KEY ".toList ++ t ++ u) rfl
    rw [List.append_assoc]
    exact hword.append (quiet_keywords [.key] (by decide) ht)
  cases clause with
  | primaryKey columns => exact hkey .primary (by decide) _ (columns.quiet u)
  | foreignKey columns target targetColumns =>
      have htarget : Quiet (target.text ++ targetColumns.print) u :=
        (target.quiet (endsHeader_open _)).append (targetColumns.quiet u)
      have hclause := hkey .foreign (by decide) _
        ((columns.quiet _).append (quiet_references htarget))
      rw [print_foreignKey]
      simp only [List.append_assoc] at hclause ⊢
      exact hclause

theorem Item.quiet (item : Item) (hu : EndsHeader u) : Quiet item.print u := by
  cases item with
  | column c => exact c.quiet hu
  | clause k => exact k.quiet u

namespace TableSpec

variable (table : TableSpec)

theorem quiet_body (u : Text) : Quiet table.body (')' :: u) := by
  refine quiet_join quiet_space ?_ (endsHeader_close u)
  rw [List.forall_mem_map]
  exact fun item _ _ hv => item.quiet hv

theorem print_eq_append : table.print =
    Keyword.create.spelling ++ ' ' :: (Keyword.table.spelling ++ table.chunk) := by
  have hheader : "CREATE TABLE ".toList =
      Keyword.create.spelling ++ ' ' :: (Keyword.table.spelling ++ [' ']) := rfl
  unfold print
  rw [hheader]
  simp only [chunk, body, List.append_assoc, List.cons_append, List.nil_append]

theorem behindHeader?_print (u : Text) :
    behindHeader? (table.print ++ u) = some (table.chunk ++ u) := by
  have hbare : ∀ k : Keyword, k.spelling.IsBare := fun k => (Name.ofKeyword k).isBare
  have hchunk : Text.startsIdentifier (table.chunk ++ u) = false := rfl
  have hskip : skipBlanks? (' ' :: (Keyword.table.spelling ++ (table.chunk ++ u))) =
      some (Keyword.table.spelling ++ (table.chunk ++ u)) := rfl
  have hstrip : ∀ k : Keyword, k.strip? (Keyword.table.spelling ++ (table.chunk ++ u)) =
      if k.is Keyword.table.spelling = true then some (table.chunk ++ u) else none :=
    fun k => Keyword.strip?_append (hbare .table) hchunk
  have htemporary : Keyword.temporary.is Keyword.table.spelling = false := by decide
  have htemp : Keyword.temp.is Keyword.table.spelling = false := by decide
  rw [behindHeader?, print_eq_append, List.append_assoc, Keyword.strip?_append (hbare _) rfl,
    Keyword.is_spelling, if_pos rfl, List.cons_append, List.append_assoc, Option.bind_eq_bind,
    Option.bind_some, hskip]
  simp [hstrip, htemporary, htemp]

/-- A printed table is a segment of its own, whatever follows it. -/
theorem segments_append (u : Text) :
    segments none none (table.print ++ u) =
      [] :: Text.prepend table.print (segments none none u) := by
  have hend : Quiet ");\n".toList u :=
    .mark (by decide) rfl (.mark (by decide) rfl (.mark (by decide) rfl (.nil u)))
  have hbody : Quiet (table.body ++ ");\n".toList) u := (table.quiet_body _).append hend
  have hname : Quiet (table.name.text ++ (" (".toList ++ (table.body ++ ");\n".toList))) u :=
    (table.name.quiet ((endsHeader_open _).blank rfl)).append
      (.mark (by decide) rfl (.mark (by decide) rfl hbody))
  have hchunk : Quiet table.chunk u := by
    simp only [chunk, List.append_assoc]
    exact .mark (by decide) rfl hname
  have htable : Quiet Keyword.table.spelling (table.chunk ++ u) :=
    .word (Name.ofKeyword .table).isBare (Name.ofKeyword .table).ne_nil (by decide) rfl
  have hquiet : Quiet (' ' :: (Keyword.table.spelling ++ table.chunk)) u :=
    .mark (by decide) rfl (htable.append hchunk)
  have hheader := table.behindHeader?_print u
  rw [print_eq_append, List.append_assoc] at hheader
  have hword := segments_word (u := ' ' :: (Keyword.table.spelling ++ table.chunk) ++ u)
    (Name.ofKeyword .create).isBare (Name.ofKeyword .create).ne_nil rfl
  rw [print_eq_append, List.append_assoc, Text.prepend_append, ← hquiet]
  refine hword.trans (if_pos ?_)
  change (behindHeader? (Keyword.create.spelling ++ _)).isSome = true
  rw [hheader]
  rfl

end TableSpec

theorem segments_print (tables : List TableSpec) :
    segments none none (print tables) = [] :: tables.map TableSpec.print := by
  induction tables with
  | nil => rfl
  | cons table rest ih =>
      rw [print, List.flatMap_cons, ← print, table.segments_append, ih, Text.prepend_head,
        List.append_nil, List.map_cons]

/-- The chunks of a script are those of its tables. -/
theorem chunks_print (tables : List TableSpec) :
    chunks (print tables) = tables.map TableSpec.chunk := by
  have hchunk : ∀ table : TableSpec, behindHeader? table.print = some table.chunk := by
    intro table
    have := table.behindHeader?_print []
    rwa [List.append_nil, List.append_nil] at this
  rw [chunks_eq, segments_print, List.tail_cons, List.filterMap_map]
  exact (List.filterMap_congr fun table _ => hchunk table).trans
    (congrFun List.filterMap_eq_map' tables)

end Script
end DdlDiagram
