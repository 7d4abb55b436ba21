import DdlDiagram.Proofs.Declaration.Reader
import DdlDiagram.Proofs.Script.Words
import DdlDiagram.Reading

/-!
# Reading the items of a script

Each printed item is read as the declaration it was printed from, so a table under construction
gets the columns and keys of the item and no warning is given.
-/

namespace DdlDiagram

namespace Script

open Declaration

theorem Name.tableName_eq (name : Name) : tableName name.text = name.text := by
  rw [tableName_of_not_mem (name.not_mem (by decide)), name.unquote_eq]

/-- The target of a reference is the name before the list of its columns. -/
theorem target?_eq {name : Name} {word body : Text}
    (hword : word.splitGroup = (name.text, some body)) (words : List Text) :
    target? ("REFERENCES".toList :: word :: words) = some name.text := by
  have hname : tableName word.beforeGroup = name.text := by
    rw [Text.beforeGroup, hword, name.tableName_eq]
  rw [target?_references (hname ▸ name.ne_nil), hname]

namespace ColumnSpec

variable (c : ColumnSpec)

/-- Each modifier is found behind the words of those before it. -/
theorem columnWith_eq : columnWith c.name.text c.type.print c.modifiers =
    ⟨c.name.text, c.type.print, !c.notNull, c.primaryKey, c.references.map (·.table.text)⟩ := by
  have hreference : ∀ first second : Keyword, first.is "REFERENCES".toList = false →
      haveNeighbours first second (c.references.toList.flatMap fun reference =>
        ["REFERENCES".toList, reference.print]) = false := by
    intro first second hfirst
    cases c.references with
    | some reference => exact haveNeighbours_pair_of_not hfirst
    | none => rfl
  have hnull : haveNeighbours .notWord .null c.modifiers = c.notNull := by
    have hprimary : ∀ w ∈ if c.primaryKey then ["PRIMARY".toList, "KEY".toList] else [],
        Keyword.notWord.is w = false := by
      cases c.primaryKey <;> decide
    rw [modifiers, flags, List.append_assoc]
    cases c.notNull with
    | true => exact haveNeighbours_cons_cons (by decide) (by decide)
    | false =>
        rw [if_neg Bool.false_ne_true, List.nil_append, haveNeighbours_append_of_not hprimary]
        exact hreference _ _ (by decide)
  have hnot : ∀ k : Keyword, k ∈ [.primary, .references] →
      ∀ w ∈ if c.notNull then ["NOT".toList, "NULL".toList] else [], k.is w = false := by
    cases c.notNull <;> decide
  have hkey : haveNeighbours .primary .key c.modifiers = c.primaryKey := by
    rw [modifiers, flags, List.append_assoc, haveNeighbours_append_of_not (hnot .primary (by decide))]
    cases c.primaryKey with
    | true => exact haveNeighbours_cons_cons (by decide) (by decide)
    | false => exact hreference _ _ (by decide)
  have htarget : firstTarget? c.modifiers = c.references.map (·.table.text) := by
    have hprimary : ∀ w ∈ if c.primaryKey then ["PRIMARY".toList, "KEY".toList] else [],
        Keyword.references.is w = false := by
      cases c.primaryKey <;> decide
    rw [modifiers, flags, List.append_assoc, firstTarget?_append_of_not (hnot .references (by decide)),
      firstTarget?_append_of_not hprimary]
    cases c.references with
    | some reference =>
        have htarget := target?_eq reference.splitGroup_print []
        exact congrArg (Option.or · _) htarget
    | none => rfl
  rw [columnWith, hnull, hkey, htarget, c.name.unquote_eq]

theorem column?_words : column? c.words =
    some ⟨c.name.text, c.type.print, !c.notNull, c.primaryKey,
      c.references.map (·.table.text)⟩ := by
  rw [words, column?_of_head?, columnWith_eq]
  intro word hword
  rw [modifiers, flags] at hword
  revert hword
  cases c.notNull with
  | true =>
      intro hword
      obtain rfl := Option.some.inj hword
      decide
  | false =>
      cases c.primaryKey with
      | true =>
          intro hword
          obtain rfl := Option.some.inj hword
          decide
      | false =>
          cases c.references with
          | some reference =>
              intro hword
              obtain rfl := Option.some.inj hword
              decide
          | none =>
              intro hword
              cases hword

/-- The name of a column is no word that starts a clause. -/
theorem ofWords?_words : ofWords? c.words = (column? c.words).map .column := by
  refine ofWords?_of_not_clause fun k hk => ?_
  have hreserved : clauseKeywords ⊆ reserved := by decide
  rw [c.name.beforeGroup_eq, c.name.free k (hreserved hk)]

end ColumnSpec

/-- A printed list is a group. -/
theorem Names.group?_print (columns : Names) :
    columns.print.group? = some (Text.join ", ".toList columns.toList) :=
  congrArg Prod.snd (columns.splitGroup_append (s := []) (by simp) rfl)

theorem Names.isEmpty_toList (names : Names) : names.toList.isEmpty = false := rfl

def Item.declaration : Item → Declaration
  | column c => .column
      ⟨c.name.text, c.type.print, !c.notNull, c.primaryKey, c.references.map (·.table.text)⟩
  | clause (.primaryKey columns) => .primaryKey columns.toList
  | clause (.foreignKey columns target _) => .foreignKey columns.toList target.text

theorem ofText_print (item : Item) : Declaration.ofText item.print = item.declaration := by
  rw [Declaration.ofText, words_print]
  cases item with
  | column c =>
      rw [Item.words, c.ofWords?_words, c.column?_words]
      rfl
  | clause k =>
      cases k with
      | primaryKey columns =>
          rw [Item.words, KeyClause.words_primaryKey, ofWords?_primaryKey columns.group?_print,
            columns.identifiers_eq, columns.isEmpty_toList]
          rfl
      | foreignKey columns target targetColumns =>
          have htarget := target?_eq (targetColumns.splitGroup_append (target.not_mem (by decide))
            target.isTight.trimEnd) []
          rw [Item.words, KeyClause.words_foreignKey, ofWords?_foreignKey columns.group?_print htarget,
            columns.identifiers_eq, columns.isEmpty_toList]
          rfl

end Script
end DdlDiagram
