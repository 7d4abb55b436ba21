import DdlDiagram.Proofs.Declaration.Written
import DdlDiagram.Proofs.Reading.Shares
import DdlDiagram.Proofs.TableBody.Names

/-!
# References to tables

The table of a reference is read by other rules than the name of a declared table: the reference
is one word of its line, the list of columns starts at its first parenthesis, and the name behind
its last point. Where quoting hides neither a parenthesis nor a point of the name, and the spelling
is one word, both readers find the same name, so the relationship ends at the declared table.
-/

namespace DdlDiagram

open Nesting TableBody

/-- `t(list)` -/
def referenceText (t list : Text) : Text := t ++ '(' :: (list ++ [')'])

variable {t name c d : Text}

/-- Behind the last point of a spelling stands the last identifier. -/
theorem SpellsName.tableName_append (h : SpellsName t name) (hpoint : '.' ∉ name) {g : Text}
    (hg : g.IsGap) : Declaration.tableName (g ++ t) = name := by
  induction h generalizing g with
  | single hspells =>
      rw [Declaration.tableName_of_not_mem, hspells.unquote_append hg]
      rw [List.mem_append, not_or]
      refine ⟨fun hmem => absurd (hg _ hmem) (by decide), fun hmem => hpoint ?_⟩
      exact hspells.mem_of_mem hmem (by decide) (by decide)
  | @qualified s qualifier h h' t name _ _ hgap' _ ih =>
      have hsplit : g ++ (s ++ (h ++ '.' :: (h' ++ t))) = (g ++ (s ++ h)) ++ '.' :: (h' ++ t) := by
        simp
      rw [hsplit, Declaration.tableName_append_cons, ih hpoint hgap']

namespace Declaration

/-- The list of a reference does not start before its first parenthesis. -/
theorem tableName_referenceText (h : SpellsName t name) (hparen : '(' ∉ t) (hpoint : '.' ∉ name)
    (hd : Balanced d) : tableName (referenceText t d).beforeGroup = name := by
  have hbefore : (referenceText t d).beforeGroup = t :=
    congrArg Prod.fst (Text.splitGroup_append hparen h.isTight.trimEnd hd [])
  rw [hbefore]
  exact h.tableName_append hpoint Text.isGap_nil

theorem target?_referenceText (h : SpellsName t name) (hparen : '(' ∉ t) (hpoint : '.' ∉ name)
    (hd : Balanced d) : target? ["REFERENCES".toList, referenceText t d] = some name := by
  have htable := tableName_referenceText h hparen hpoint hd
  rw [target?_references (htable ▸ h.ne_nil), htable]

/-- A list without blanks leaves the spelling before it a single word. -/
theorem words_referenceText (hwords : t.words = [t]) (hd : ∀ c ∈ d, isBlank c = false) :
    (referenceText t d).words = [referenceText t d] := by
  obtain ⟨hne, hpieces⟩ := Text.words_eq_singleton_iff.1 hwords
  have hlist : ∀ c ∈ '(' :: (d ++ [')']), isBlank c = false := by
    simpa using ⟨rfl, fun c hc => hc.elim (hd c) fun hclose => hclose ▸ rfl⟩
  rw [Text.words_eq_singleton_iff]
  refine ⟨by simp [referenceText], ?_⟩
  rw [referenceText, pieces_append_of_eq hpieces, pieces_of_forall hlist, Text.prepend_head]

/-- A spelling of a table name that is one word, without a parenthesis, of a name without points
refers to the table that it declares: in a column and in a clause, and so in the relationship of
every table that holds one of them. -/
theorem target_of_spellsName (h : SpellsName t name) (hwords : t.words = [t]) (hparen : '(' ∉ t)
    (hpoint : '.' ∉ name) (hne : c ≠ []) (hc : c.IsBare)
    (hfree : ∀ k ∈ clauseKeywords, k.is c = false) (hd : d.IsBare) :
    (∀ body, Balanced body → ofChunk (t ++ " (".toList ++ body ++ ")".toList) =
      .ok ⟨name, declarationsOf body⟩) ∧
    ofText (referencingText c (referenceText t d)) =
      .column ⟨c, "INT".toList, true, false, some name⟩ ∧
    ofText (foreignKeyText c (referenceText t d)) = .foreignKey [c] name ∧
    ∀ source : TableBody, ∀ line ∈ source.declarations,
      line = referencingText c (referenceText t d) ∨ line = foreignKeyText c (referenceText t d) →
      TableDraft.relationshipOf source.name [c] name ∈
        (Reading.tableOf source).1.relationships := by
  have hblank : ∀ c, isIdentifierChar c = true → isBlank c = false :=
    fun _ => isBlank_eq_false_of_isIdentifierChar
  have hreference := words_referenceText hwords fun c hmem => hblank c (hd c hmem)
  have htarget := target?_referenceText h hparen hpoint (hd.uncut fun _ _ => rfl)
  have hidentifiers : c.identifiers = [c] := by
    refine ((Spells.bare hne hc).identifiers_eq_iff (hc.uncut fun c hmem => ?_)).2 ?_
    · exact beq_eq_false_iff_ne.2 (ne_of_isIdentifierChar hmem (by decide))
    · rw [Text.group?, Text.splitGroup_of_not_mem (hc.not_mem (by decide))]
  have hcolumn := ofText_referencingText (.bare hne hc) (hc.uncut hblank) hfree hreference htarget
  have hclause := ofText_foreignKeyText (hc.uncut fun _ _ => rfl) hreference htarget
  rw [hidentifiers] at hclause
  refine ⟨fun body hbody => ?_, hcolumn, hclause, fun source line hmem hline => ?_⟩
  · have hchunk := ofChunk_append h Text.isGap_space hbody []
    simpa using hchunk
  · refine (Reading.isPartOf_tableOf hmem).relationships ?_
    rcases hline with rfl | rfl
    · rw [hcolumn]
      exact List.mem_singleton_self _
    · rw [hclause]
      exact List.mem_singleton_self _

/-- A qualified name, of which the last segment is quoted and has a blank. -/
def orderItems : Text := "shop.\x60order items\x60".toList

theorem target_of_spellsName_orderItems :
    SpellsName orderItems "order items".toList ∧ orderItems.words = [orderItems] ∧
    ofChunk (orderItems ++ " (".toList ++ "id INT".toList ++ ")".toList) =
      .ok ⟨"order items".toList, declarationsOf "id INT".toList⟩ ∧
    ofText (referencingText "item".toList (referenceText orderItems "id".toList)) =
      .column ⟨"item".toList, "INT".toList, true, false, some "order items".toList⟩ ∧
    ofText (foreignKeyText "item".toList (referenceText orderItems "id".toList)) =
      .foreignKey ["item".toList] "order items".toList := by
  have hspells : SpellsName orderItems "order items".toList :=
    name?_eq_some_nil_iff.1 (by decide +kernel)
  have hwords : orderItems.words = [orderItems] := by decide
  have hitem : Text.IsBare "item".toList := List.all_eq_true.1 (by decide)
  have hid : Text.IsBare "id".toList := List.all_eq_true.1 (by decide)
  obtain ⟨hchunk, hcolumn, hclause, -⟩ := target_of_spellsName hspells hwords (by decide)
    (by decide) (by decide) hitem (by decide) hid
  exact ⟨hspells, hwords, hchunk _ (.of_all (by decide)), hcolumn, hclause⟩

/-- Where a name has a point or its spelling a parenthesis, or where the spelling has blanks that
only the reader of tables passes over, a reference has another table. -/
theorem target_ne_of_spellsName :
    (SpellsName (backticked "a.b".toList) "a.b".toList ∧
      ofText (referencingText ['c'] (referenceText (backticked "a.b".toList) ['d'])) =
        .column ⟨['c'], "INT".toList, true, false, some "b\x60".toList⟩ ∧
      ofText (foreignKeyText ['c'] (referenceText (backticked "a.b".toList) ['d'])) =
        .foreignKey [['c']] "b\x60".toList) ∧
    (SpellsName (backticked "a(b".toList) "a(b".toList ∧
      ofText (foreignKeyText ['c'] (referenceText (backticked "a(b".toList) ['d'])) =
        .foreignKey [['c']] "\x60a(b\x60(d)".toList) ∧
    (SpellsName (bracketed "a b".toList) "a b".toList ∧
      ofText (foreignKeyText ['c'] (referenceText (bracketed "a b".toList) ['d'])) =
        .foreignKey [['c']] "[a".toList) ∧
    (SpellsName "a . b".toList ['b'] ∧
      ofText (foreignKeyText ['c'] (referenceText "a . b".toList ['d'])) =
        .foreignKey [['c']] ['a']) := by
  simp only [← name?_eq_some_nil_iff]
  decide +kernel

end Declaration
end DdlDiagram
