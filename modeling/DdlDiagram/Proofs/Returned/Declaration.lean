import DdlDiagram.Proofs.Returned.Pieces

/-!
# Declarations with carriage returns

Corresponding words are the same keywords, have corresponding groups and hold corresponding names.
So two rows of them make the same kind of declaration, and its texts correspond.
-/

namespace DdlDiagram

structure ReturnedColumn (c c' : ColumnDeclaration) : Prop where
  name : Returned c.name c'.name
  rawType : Returned c.rawType c'.rawType
  nullable : c'.nullable = c.nullable
  primaryKey : c'.primaryKey = c.primaryKey
  references : Option.Rel Returned c.references c'.references

inductive ReturnedDeclaration : Declaration → Declaration → Prop
  | column {c c' : ColumnDeclaration} : ReturnedColumn c c' →
      ReturnedDeclaration (.column c) (.column c')
  | primaryKey {columns columns' : List Text} : List.Forall₂ Returned columns columns' →
      ReturnedDeclaration (.primaryKey columns) (.primaryKey columns')
  | foreignKey {columns columns' : List Text} {target target' : Text} :
      List.Forall₂ Returned columns columns' → Returned target target' →
      ReturnedDeclaration (.foreignKey columns target) (.foreignKey columns' target')
  | ignored : ReturnedDeclaration .ignored .ignored
  | unknown {text text' : Text} : Returned text text' →
      ReturnedDeclaration (.unknown text) (.unknown text')

variable {w w' t t' : Text} {ws ws' : List Text}

theorem Returned.sameKeywords (h : Returned w w') : Declaration.SameKeywords w w' :=
  fun k => ⟨h.is k, h.beforeGroup.is k⟩

namespace Declaration

abbrev ReturnedWords : List Text → List Text → Prop := List.Forall₂ Returned

theorem ReturnedWords.isEmpty_eq (h : ReturnedWords ws ws') : ws'.isEmpty = ws.isEmpty := by
  cases h <;> rfl

theorem ReturnedWords.sameKeywords (h : ReturnedWords ws ws') :
    List.Forall₂ SameKeywords ws ws' := h.imp fun _ _ hword => hword.sameKeywords

theorem groupWithin?_returned (h : ReturnedWords ws ws') (n : Nat) :
    Option.Rel (fun x x' => Returned x.1 x'.1 ∧ ReturnedWords x.2 x'.2)
      (groupWithin? n ws) (groupWithin? n ws') := by
  induction h generalizing n with
  | nil => cases n <;> exact .none
  | @cons w w' vs vs' hword hvs ih =>
      cases n with
      | zero => exact .none
      | succ n =>
          have hgroup := hword.group?
          rw [groupWithin?, groupWithin?]
          generalize w.group? = body, w'.group? = body' at hgroup
          cases hgroup with
          | none => exact ih n
          | some hbody => exact .some ⟨hbody, hvs⟩

theorem columnsOfKey?_returned (h : ReturnedWords ws ws') :
    Option.Rel (fun x x' => ReturnedWords x.1 x'.1 ∧ ReturnedWords x.2 x'.2)
      (columnsOfKey? ws) (columnsOfKey? ws') := by
  cases h with
  | nil => exact .none
  | @cons w w' vs vs' hword hvs =>
      rw [columnsOfKey?, columnsOfKey?, hword.beforeGroup.is]
      split
      · have hgroup := hword.group?
        generalize w.group? = body, w'.group? = body' at hgroup
        cases hgroup with
        | none =>
            refine (groupWithin?_returned hvs 2).map ?_
            exact fun _ _ hx => ⟨hx.1.identifiers, hx.2⟩
        | some hbody => exact .some ⟨hbody.identifiers, hvs⟩
      · exact .none

theorem target?_returned (h : ReturnedWords ws ws') :
    Option.Rel Returned (target? ws) (target? ws') := by
  cases h with
  | nil => exact .none
  | cons hword hvs =>
      cases hvs with
      | nil => exact .none
      | cons hname _ =>
          have htable := hname.beforeGroup.tableName
          rw [target?, target?, hword.is, htable.isEmpty_eq]
          split
          · exact .some htable
          · exact .none

theorem firstTarget?_returned (h : ReturnedWords ws ws') :
    Option.Rel Returned (firstTarget? ws) (firstTarget? ws') := by
  induction h with
  | nil => exact .none
  | cons hword hvs ih =>
      rw [firstTarget?, firstTarget?, Option.or_eq_orElse, Option.or_eq_orElse]
      exact (target?_returned (.cons hword hvs)).orElse ih

theorem primaryKey?_returned (h : ReturnedWords ws ws') :
    Option.Rel ReturnedDeclaration (primaryKey? ws) (primaryKey? ws') := by
  have hkey := columnsOfKey?_returned h
  rw [primaryKey?, primaryKey?]
  generalize columnsOfKey? ws = x, columnsOfKey? ws' = x' at hkey
  cases hkey with
  | none => exact .none
  | some hcolumns =>
      simp only [hcolumns.1.isEmpty_eq]
      split
      · exact .none
      · exact .some (.primaryKey hcolumns.1)

theorem foreignKey?_returned (h : ReturnedWords ws ws') :
    Option.Rel ReturnedDeclaration (foreignKey? ws) (foreignKey? ws') := by
  have hkey := columnsOfKey?_returned h
  rw [foreignKey?, foreignKey?]
  generalize columnsOfKey? ws = x, columnsOfKey? ws' = x' at hkey
  cases hkey with
  | none => exact .none
  | @some x x' hcolumns =>
      have htarget := target?_returned hcolumns.2
      simp only [hcolumns.1.isEmpty_eq]
      generalize target? x.2 = target, target? x'.2 = target' at htarget
      cases htarget with
      | none => exact .none
      | some hname =>
          simp only
          split
          · exact .none
          · exact .some (.foreignKey hcolumns.1 hname)

theorem constraint?_returned (h : ReturnedWords ws ws') :
    Option.Rel ReturnedDeclaration (constraint? ws) (constraint? ws') := by
  have hdrop := forall₂_dropWhile_startsKeyClause h fun _ _ hword => hword.sameKeywords
  unfold constraint?
  generalize ws.dropWhile (!startsKeyClause ·) = vs,
    ws'.dropWhile (!startsKeyClause ·) = vs' at hdrop
  cases hdrop with
  | cons hword hvs =>
      simp only [hword.is]
      split
      · exact primaryKey?_returned hvs
      · exact foreignKey?_returned hvs
  | nil =>
      cases h with
      | nil => exact .none
      | cons _ hvs =>
          cases hvs with
          | nil => exact .none
          | cons hword _ =>
              simp only [hword.beforeGroup.is]
              split
              · exact .some .ignored
              · exact .none

theorem columnWith_returned {name name' rawType rawType' : Text} (hname : Returned name name')
    (htype : Returned rawType rawType') (h : ReturnedWords ws ws') :
    ReturnedColumn (columnWith name rawType ws) (columnWith name' rawType' ws') where
  name := hname.unquote
  rawType := htype
  nullable := congrArg (!·) (haveNeighbours_congr h.sameKeywords .notWord .null)
  primaryKey := haveNeighbours_congr h.sameKeywords .primary .key
  references := firstTarget?_returned h

theorem column?_returned (h : ReturnedWords ws ws') :
    Option.Rel ReturnedColumn (column? ws) (column? ws') := by
  cases h with
  | nil => exact .none
  | @cons name name' vs vs' hname hvs =>
      cases hvs with
      | nil => exact .none
      | @cons rawType rawType' us us' htype hus =>
          cases hus with
          | nil => exact .some (columnWith_returned hname htype .nil)
          | @cons third third' modifiers modifiers' hthird hmodifiers =>
              have hwords : ReturnedWords (third :: modifiers) (third' :: modifiers') :=
                .cons hthird hmodifiers
              by_cases hopen : third.head? = some '('
              · obtain ⟨parameters, rfl⟩ := List.head?_eq_some_iff.1 hopen
                cases hthird with
                | cons hc hparameters =>
                    have hthird := Returned.cons hc hparameters
                    exact .some (columnWith_returned hname (htype.append hthird) hmodifiers)
              · have hopen' : third'.head? ≠ some '(' := by
                  cases hthird with
                  | nil => exact hopen
                  | feed => simp
                  | cons => exact hopen
                rw [column?_cons_of_head? hopen, column?_cons_of_head? hopen']
                exact .some (columnWith_returned hname htype hwords)

theorem ofWords?_returned (h : ReturnedWords ws ws') :
    Option.Rel ReturnedDeclaration (ofWords? ws) (ofWords? ws') := by
  have hcolumn := (column?_returned h).map fun _ _ => ReturnedDeclaration.column
  cases h with
  | nil => exact .none
  | @cons first first' rest rest' hfirst hrest =>
      rw [ofWords?, ofWords?]
      simp only [hfirst.beforeGroup.is]
      split
      · exact primaryKey?_returned hrest
      split
      · exact foreignKey?_returned hrest
      split
      · exact constraint?_returned hrest
      split
      · exact .some .ignored
      · exact hcolumn

end Declaration

/-- Corresponding texts make the same kind of declaration. -/
theorem Returned.ofText (h : Returned t t') :
    ReturnedDeclaration (Declaration.ofText t) (Declaration.ofText t') :=
  (Declaration.ofWords?_returned h.words).getD (.unknown h)

end DdlDiagram
