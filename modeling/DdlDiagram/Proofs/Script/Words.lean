import DdlDiagram.Proofs.Identifier.Spelling
import DdlDiagram.Proofs.Script.Basic

/-!
# The words of a script

Names hold none of the characters at which a text is cut. So the words of a printed item are what
was printed between its single spaces, with every list in parentheses in one word, and the parts of
a printed list are its entries.
-/

namespace DdlDiagram

open Nesting

namespace Script

theorem isIdentifierChar_of_isNameChar {c : Char} (h : isNameChar c = true) :
    isIdentifierChar c = true := by
  simp only [isNameChar, Bool.or_eq_true, beq_iff_eq] at h
  rcases h with h | rfl
  · exact isIdentifierChar_of_isAlphanum h
  · exact isIdentifierChar_underscore

namespace Name

variable (name : Name)

theorem isBare : name.text.IsBare := fun c hc =>
  isIdentifierChar_of_isNameChar (List.all_eq_true.1 name.plain c hc)

theorem ne_of_mem {c mark : Char} (hc : c ∈ name.text) (hmark : isIdentifierChar mark = false) :
    c ≠ mark := ne_of_isIdentifierChar (name.isBare c hc) hmark

theorem not_mem {mark : Char} (hmark : isIdentifierChar mark = false) : mark ∉ name.text :=
  fun hc => name.ne_of_mem hc hmark rfl

/-- A name is a spelling of itself. -/
theorem spells : Spells name.text name.text := .bare name.ne_nil name.isBare

theorem uncut {cut : Char → Bool} (h : ∀ c, isIdentifierChar c = true → cut c = false) :
    Uncut cut name.text := name.isBare.uncut h

theorem isTight : name.text.IsTight := name.spells.isTight

theorem unquote_eq : name.text.unquote = name.text := name.spells.unquote_eq

theorem beforeGroup_eq : name.text.beforeGroup = name.text := name.isBare.beforeGroup_eq

def ofKeyword (k : Keyword) : Name where
  text := k.spelling
  ne_nil := by cases k <;> decide
  plain := by cases k <;> decide

end Name

namespace Names

variable (names : Names)

theorem forall_mem_toList {motive : Text → Prop} (h : ∀ name : Name, motive name.text) :
    ∀ t ∈ names.toList, motive t := by
  rw [toList, List.forall_mem_map]
  exact fun name _ => h name

theorem balanced : Balanced (Text.join ", ".toList names.toList) := by
  have hsep : Balanced ", ".toList := .of_all (by decide)
  exact hsep.join (names.forall_mem_toList fun name => name.uncut fun _ _ => rfl)

theorem uncut_print {cut : Char → Bool} : Uncut cut names.print := .parenthesized names.balanced

/-- The identifiers of a printed list are the names in it. -/
theorem identifiers_eq : (Text.join ", ".toList names.toList).identifiers = names.toList := by
  have hparts : (Text.partsBetween ',' (Text.join ", ".toList names.toList)).map Text.trim =
      names.toList := by
    refine Text.map_trim_partsBetween_join (List.cons_ne_nil _ _) ?_
    refine names.forall_mem_toList fun name => ⟨name.isTight, name.uncut fun c hc => ?_⟩
    exact beq_eq_false_iff_ne.2 (ne_of_isIdentifierChar hc (by decide))
  have hread : names.toList.map (fun t => t.beforeGroup.unquote) = names.toList := by
    refine (List.map_congr_left (names.forall_mem_toList fun name => ?_)).trans (List.map_id _)
    rw [name.beforeGroup_eq, name.unquote_eq]
    rfl
  have hmap : (Text.partsBetween ',' (Text.join ", ".toList names.toList)).map
      (fun part => part.trim.beforeGroup.unquote) = names.toList := by
    rw [← hparts, List.map_map] at hread
    exact hread.trans hparts
  rw [Text.identifiers, hmap, List.filter_eq_self]
  exact names.forall_mem_toList fun name => by simp [name.ne_nil]

/-- A list behind a name is the group of the word. -/
theorem splitGroup_append {s : Text} (hs : '(' ∉ s) (htrim : s.trimEnd = s) :
    (s ++ names.print).splitGroup = (s, some (Text.join ", ".toList names.toList)) :=
  Text.splitGroup_append hs htrim names.balanced []

end Names

theorem Reference.splitGroup_print (reference : Reference) :
    reference.print.splitGroup = (reference.table.text, some reference.column.text) := by
  have hbalanced : Balanced reference.column.text := reference.column.uncut fun _ _ => rfl
  exact Text.splitGroup_append (reference.table.not_mem (by decide)) reference.table.isTight.trimEnd
    hbalanced []

namespace ColumnSpec

/-- The words of a column that are neither names nor types nor references. -/
def flags (c : ColumnSpec) : List Text :=
  (if c.notNull then ["NOT".toList, "NULL".toList] else []) ++
    if c.primaryKey then ["PRIMARY".toList, "KEY".toList] else []

def modifiers (c : ColumnSpec) : List Text :=
  c.flags ++ c.references.toList.flatMap fun reference => ["REFERENCES".toList, reference.print]

def words (c : ColumnSpec) : List Text := c.name.text :: c.type.print :: c.modifiers

theorem print_eq_append (c : ColumnSpec) :
    c.print = c.name.text ++ ' ' :: (c.type.print ++ (c.flags.flatMap (' ' :: ·) ++
      c.references.toList.flatMap fun reference => " REFERENCES ".toList ++ reference.print)) := by
  have hnull : (if c.notNull then ["NOT".toList, "NULL".toList] else []).flatMap (' ' :: ·) =
      if c.notNull then " NOT NULL".toList else [] := by
    cases c.notNull with
    | true => rfl
    | false => rfl
  have hkey : (if c.primaryKey then ["PRIMARY".toList, "KEY".toList] else []).flatMap (' ' :: ·) =
      if c.primaryKey then " PRIMARY KEY".toList else [] := by
    cases c.primaryKey with
    | true => rfl
    | false => rfl
  rw [flags, List.flatMap_append, hnull, hkey]
  simp only [print, List.append_assoc, List.cons_append]

theorem print_eq_join (c : ColumnSpec) : c.print = Text.join [' '] c.words := by
  have href : (c.references.toList.flatMap fun reference =>
        ["REFERENCES".toList, reference.print]).flatMap (' ' :: ·) =
      c.references.toList.flatMap fun reference => " REFERENCES ".toList ++ reference.print := by
    cases c.references with
    | some reference => simp
    | none => rfl
  simp only [print_eq_append, words, modifiers, Text.join_cons, List.flatMap_cons,
    List.flatMap_append, List.cons_append, List.nil_append, href]

end ColumnSpec

namespace KeyClause

def words : KeyClause → List Text
  | primaryKey columns => ["PRIMARY".toList, "KEY".toList, columns.print]
  | foreignKey columns target targetColumns =>
    ["FOREIGN".toList, "KEY".toList, columns.print, "REFERENCES".toList,
      target.text ++ targetColumns.print]

theorem words_primaryKey (columns : Names) :
    (primaryKey columns).words = ["PRIMARY".toList, "KEY".toList, columns.print] := rfl

theorem words_foreignKey (columns : Names) (target : Name) (targetColumns : Names) :
    (foreignKey columns target targetColumns).words = ["FOREIGN".toList, "KEY".toList,
      columns.print, "REFERENCES".toList, target.text ++ targetColumns.print] := rfl

theorem print_eq_join (clause : KeyClause) : clause.print = Text.join [' '] clause.words := by
  cases clause with
  | primaryKey columns => rfl
  | foreignKey columns target targetColumns =>
      rw [print_foreignKey, words_foreignKey]
      simp [Text.join_cons]

end KeyClause

theorem TypeSpec.uncut_print {cut : Char → Bool}
    (hcut : ∀ c, isIdentifierChar c = true → cut c = false) (type : TypeSpec) :
    Uncut cut type.print := by
  refine (type.head.uncut hcut).append ?_
  split
  · exact .nil cut
  · have hsep : Balanced [','] := .of_all (by decide)
    refine .parenthesized (hsep.join ?_)
    rw [List.forall_mem_map]
    exact fun name _ => name.uncut fun _ _ => rfl

namespace Item

def words : Item → List Text
  | column c => c.words
  | clause k => k.words

theorem print_eq_join (item : Item) : item.print = Text.join [' '] item.words := by
  cases item with
  | column c => exact c.print_eq_join
  | clause k => exact k.print_eq_join

end Item

theorem forall_mem_pair {motive : Text → Prop} {t u : Text} :
    (∀ w ∈ [t, u], motive w) ↔ motive t ∧ motive u := by
  rw [List.forall_mem_cons, List.forall_mem_singleton]

/-- The words of all items are names, types, lists and references. -/
theorem forall_mem_words {motive : Text → Prop} (hname : ∀ name : Name, motive name.text)
    (htype : ∀ type : TypeSpec, motive type.print) (hlist : ∀ names : Names, motive names.print)
    (hreference : ∀ reference : Reference, motive reference.print)
    (htarget : ∀ (name : Name) (names : Names), motive (name.text ++ names.print)) (item : Item) :
    ∀ w ∈ item.words, motive w := by
  cases item with
  | column c =>
      rw [Item.words, ColumnSpec.words, List.forall_mem_cons, List.forall_mem_cons,
        ColumnSpec.modifiers, ColumnSpec.flags, List.forall_mem_append, List.forall_mem_append]
      refine ⟨hname _, htype _, ⟨?_, ?_⟩, ?_⟩
      · cases c.notNull with
        | true => exact forall_mem_pair.2 ⟨hname (.ofKeyword .notWord), hname (.ofKeyword .null)⟩
        | false => simp
      · cases c.primaryKey with
        | true => exact forall_mem_pair.2 ⟨hname (.ofKeyword .primary), hname (.ofKeyword .key)⟩
        | false => simp
      · cases c.references with
        | some reference =>
            exact forall_mem_pair.2 ⟨hname (.ofKeyword .references), hreference reference⟩
        | none => simp
  | clause k =>
      cases k with
      | primaryKey columns =>
          rw [Item.words, KeyClause.words_primaryKey]
          simp only [List.forall_mem_cons]
          exact ⟨hname (.ofKeyword .primary), hname (.ofKeyword .key), hlist columns, by simp⟩
      | foreignKey columns target targetColumns =>
          rw [Item.words, KeyClause.words_foreignKey]
          simp only [List.forall_mem_cons]
          exact ⟨hname (.ofKeyword .foreign), hname (.ofKeyword .key), hlist columns,
            hname (.ofKeyword .references), htarget target targetColumns, by simp⟩

theorem isTight_of_mem_words (item : Item) : ∀ w ∈ item.words, w.IsTight := by
  refine forall_mem_words Name.isTight ?_ ?_ ?_ ?_ item
  · intro type
    rw [TypeSpec.print]
    split
    · rw [List.append_nil]
      exact type.head.isTight
    · exact type.head.isTight.parenthesized _
  · intro names
    exact (Text.isTight_singleton rfl).append _ (Text.isTight_singleton rfl)
  · exact fun reference => reference.table.isTight.parenthesized _
  · exact fun name names => name.isTight.parenthesized _

theorem uncut_of_mem_words {cut : Char → Bool}
    (hcut : ∀ c, isIdentifierChar c = true → cut c = false) (item : Item) :
    ∀ w ∈ item.words, Uncut cut w := by
  refine forall_mem_words (Name.uncut · hcut) (TypeSpec.uncut_print hcut)
    (fun names => names.uncut_print) ?_ ?_ item
  · intro reference
    exact (reference.table.uncut hcut).append
      (.parenthesized (reference.column.uncut fun _ _ => rfl))
  · exact fun name names => (name.uncut hcut).append names.uncut_print

/-- The words of a printed item. -/
theorem words_print (item : Item) : item.print.words = item.words := by
  rw [item.print_eq_join]
  refine Text.words_join (fun w hw => (isTight_of_mem_words item w hw).ne_nil) ?_
  exact uncut_of_mem_words (fun _ => isBlank_eq_false_of_isIdentifierChar) item

theorem isTight_print (item : Item) : item.print.IsTight := by
  have hne : item.words ≠ [] := by
    cases item with
    | column c => exact List.cons_ne_nil _ _
    | clause k => cases k <;> exact List.cons_ne_nil _ _
  rw [item.print_eq_join]
  exact .join hne (isTight_of_mem_words item)

theorem uncut_print (item : Item) : Uncut (· == ',') item.print := by
  have hcut : ∀ c, isIdentifierChar c = true → (c == ',') = false :=
    fun c hc => beq_eq_false_iff_ne.2 (ne_of_isIdentifierChar hc (by decide))
  have hsep : Uncut (· == ',') [' '] := .of_all (by decide)
  rw [item.print_eq_join]
  exact hsep.join (uncut_of_mem_words hcut item)

end Script
end DdlDiagram
