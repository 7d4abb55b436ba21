import DdlDiagram.Proofs.Declaration.Written
import DdlDiagram.Proofs.Reading.Shares

/-!
# Names of columns

A column is named at the start of its own line and in the lists of keys. A spelling is read the
same in both places, unless it has a group: in a list what stands behind an identifier in
parentheses is dropped, even where the parentheses are quoted. Square brackets do not hide blanks
and commas, so there the spelling has to be without them.
-/

namespace DdlDiagram

open Nesting

variable {t name reference target : Text}

/-- A name in the primary key is marked as such. -/
theorem Table.keyRole_of_mem_primaryKey {table : Table} (h : name ∈ table.primaryKey.toList) :
    table.keyRole name = .primary ∨ table.keyRole name = .primaryAndForeign := by
  have hcontains : table.primaryKey.contains name = true := by simpa [NameSet.contains] using h
  rw [keyRole, hcontains]
  cases table.foreignKeys.contains name with
  | true => exact .inr rfl
  | false => exact .inl rfl

/-- A name in a foreign key is marked as such. -/
theorem Table.keyRole_of_mem_foreignKeys {table : Table} (h : name ∈ table.foreignKeys.toList) :
    table.keyRole name = .foreign ∨ table.keyRole name = .primaryAndForeign := by
  have hcontains : table.foreignKeys.contains name = true := by simpa [NameSet.contains] using h
  rw [keyRole, hcontains]
  cases table.primaryKey.contains name with
  | true => exact .inr rfl
  | false => exact .inl rfl

namespace Declaration

/-- A column has the name in a list of keys that it has on its own line exactly if its spelling has
no group; then it has the mark of every key that lists it. -/
theorem name_of_spells (h : Spells t name) (hfree : ∀ k ∈ clauseKeywords, k.is t = false)
    (hbracket : t.head? = some '[' → Uncut (fun c => isBlank c || c == ',') t)
    (hreference : reference.words = [reference])
    (htarget : target? ["REFERENCES".toList, reference] = some target) :
    ofText (columnText t) = .column ⟨name, "INT".toList, true, false, none⟩ ∧
    (ofText (primaryKeyText t) = .primaryKey [name] ↔ t.group? = none) ∧
    (ofText (foreignKeyText t reference) = .foreignKey [name] target ↔ t.group? = none) ∧
    (t.group? = none → ∀ body : TableBody, columnText t ∈ body.declarations →
      (∃ column ∈ (Reading.tableOf body).1.table.columns, column.name = name) ∧
      (primaryKeyText t ∈ body.declarations →
        (Reading.tableOf body).1.table.keyRole name = .primary ∨
        (Reading.tableOf body).1.table.keyRole name = .primaryAndForeign) ∧
      (foreignKeyText t reference ∈ body.declarations →
        (Reading.tableOf body).1.table.keyRole name = .foreign ∨
        (Reading.tableOf body).1.table.keyRole name = .primaryAndForeign)) := by
  have huncut : Uncut (fun c => isBlank c || c == ',') t := by
    by_cases hopen : t.head? = some '['
    · exact hbracket hopen
    · refine h.uncut (fun c hc => ?_) hopen
      rw [isBlank_eq_false_of_isIdentifierChar hc, Bool.false_or, beq_eq_false_iff_ne]
      exact ne_of_isIdentifierChar hc (by decide)
  have hblank : Uncut isBlank t := huncut.mono fun c hc => (Bool.or_eq_false_iff.1 hc).1
  have hcomma : Uncut (· == ',') t := huncut.mono fun c hc => (Bool.or_eq_false_iff.1 hc).2
  have hidentifiers := h.identifiers_eq_iff hcomma
  have hcolumn := ofText_columnText h hblank hfree
  have hprimary : ofText (primaryKeyText t) = .primaryKey [name] ↔ t.group? = none := by
    rw [ofText_primaryKeyText huncut.balanced, ← hidentifiers]
    split
    · rename_i hempty
      simp [List.isEmpty_iff.1 hempty]
    · rw [primaryKey.injEq]
  have hforeign : ofText (foreignKeyText t reference) = .foreignKey [name] target ↔
      t.group? = none := by
    rw [ofText_foreignKeyText huncut.balanced hreference htarget, ← hidentifiers]
    split
    · rename_i hempty
      simp [List.isEmpty_iff.1 hempty]
    · rw [foreignKey.injEq, and_iff_left rfl]
  refine ⟨hcolumn, hprimary, hforeign, fun hgroup body hline => ?_⟩
  refine ⟨?_, fun hkey => ?_, fun hkey => ?_⟩
  · have hshare := (Reading.isPartOf_tableOf hline).columns
    rw [hcolumn] at hshare
    exact ⟨_, hshare List.mem_cons_self, rfl⟩
  · have hshare := (Reading.isPartOf_tableOf hkey).primaryKey
    rw [hprimary.2 hgroup] at hshare
    exact Table.keyRole_of_mem_primaryKey (hshare List.mem_cons_self)
  · have hshare := (Reading.isPartOf_tableOf hkey).foreignKeys
    rw [hforeign.2 hgroup] at hshare
    exact Table.keyRole_of_mem_foreignKeys (hshare List.mem_cons_self)

/-- A name with a comma, a parenthesis that is not closed, a blank and another quote. -/
def oddName : Text := "a,( b'".toList

theorem name_of_spells_oddName :
    Spells (backticked oddName) oddName ∧ (backticked oddName).group? = none ∧
    ofText (columnText (backticked oddName)) = .column ⟨oddName, "INT".toList, true, false, none⟩ ∧
    ofText (primaryKeyText (backticked oddName)) = .primaryKey [oddName] ∧
    ofText (foreignKeyText (backticked oddName) "T(x)".toList) = .foreignKey [oddName] ['T'] ∧
    (Reading.tableOf ⟨['t'], [columnText (backticked oddName),
      primaryKeyText (backticked oddName)]⟩).1.table.keyRole oddName ≠ .none := by
  have hspells : Spells (backticked oddName) oddName := .quoted rfl (by decide) (by decide)
  have hgroup : (backticked oddName).group? = none := by decide
  have htarget : target? ["REFERENCES".toList, "T(x)".toList] = some ['T'] := by decide
  obtain ⟨hcolumn, hprimary, hforeign, hmarks⟩ := name_of_spells hspells (by decide)
    (fun h => absurd h (by decide)) (by decide) htarget
  have hmark := (hmarks hgroup ⟨['t'], [columnText (backticked oddName),
    primaryKeyText (backticked oddName)]⟩ (by simp)).2.1 (by simp)
  refine ⟨hspells, hgroup, hcolumn, hprimary.2 hgroup, hforeign.2 hgroup, fun hnone => ?_⟩
  rw [hnone] at hmark
  simp at hmark

/-- A quoted group is taken for the length of a prefix and dropped from a list, so the column gets
no mark; and brackets do not hide a blank from the reader of a line. -/
theorem name_ne_of_spells :
    (Spells (backticked "a(b)".toList) "a(b)".toList ∧
      ofText (columnText (backticked "a(b)".toList)) =
        .column ⟨"a(b)".toList, "INT".toList, true, false, none⟩ ∧
      ofText (primaryKeyText (backticked "a(b)".toList)) = .primaryKey ["\x60a".toList] ∧
      (Reading.tableOf ⟨['t'], [columnText (backticked "a(b)".toList),
        primaryKeyText (backticked "a(b)".toList)]⟩).1.table.keyRole "a(b)".toList = .none) ∧
    (Spells (bracketed "a b".toList) "a b".toList ∧
      ofText (columnText (bracketed "a b".toList)) =
        .column ⟨"[a".toList, "b]".toList, true, false, none⟩ ∧
      ofText (primaryKeyText (bracketed "a b".toList)) = .primaryKey ["a b".toList]) := by
  constructor
  · exact ⟨.quoted rfl (by decide) (by decide), by decide +kernel⟩
  · exact ⟨.quoted rfl (by decide) (by decide), by decide +kernel⟩

end Declaration
end DdlDiagram
