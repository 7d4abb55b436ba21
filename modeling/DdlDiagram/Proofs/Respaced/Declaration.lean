import DdlDiagram.Proofs.Declaration.Reader
import DdlDiagram.Proofs.Respaced.Identifiers
import DdlDiagram.Proofs.Schema.Outline

/-!
# Declarations of respaced texts

Rows of words that readers take for the same, word by word, make the same kind of declaration.
Its names are the same if they are settled in the first text. Whatever else a diagram shows of it
does not depend on gaps.
-/

namespace DdlDiagram

open Layout

variable {w w' : Text} {ws ws' : List Text} {d : Declaration}

/-- Rows of words that readers take for the same, one by one. -/
abbrev SameWords : List Text → List Text → Prop := List.Forall₂ SameWord

/-- Columns of a key with the words behind them, read off two rows of words. The columns are the
same if the names in the first row are settled. -/
structure SameKey (ws : List Text) (x x' : List Text × List Text) : Prop where
  nil_iff : x.1 = [] ↔ x'.1 = []
  eq : ws.all listsSettled = true → x'.1 = x.1
  rest : SameWords x.2 x'.2

theorem SameKey.of_subset {vs : List Text} {x x' : List Text × List Text} (h : SameKey vs x x')
    (hsub : vs ⊆ ws) : SameKey ws x x' where
  nil_iff := h.nil_iff
  eq := fun hsettled => h.eq (List.all_eq_true.2 fun w hw =>
    List.all_eq_true.1 hsettled w (hsub hw))
  rest := h.rest

theorem SameKey.isEmpty_eq {x x' : List Text × List Text} (h : SameKey ws x x') :
    x'.1.isEmpty = x.1.isEmpty := by
  rw [Bool.eq_iff_iff, List.isEmpty_iff, List.isEmpty_iff]
  exact h.nil_iff.symm

theorem SameWord.sameKeywords (h : SameWord w w') : Declaration.SameKeywords w w' :=
  fun k => ⟨h.is k, by rw [h.beforeGroup]⟩

namespace Declaration

/-- The names in the group of a word, with words behind it. -/
theorem sameKey_of_group {vs vs' : List Text} {body body' : Text} (hw : w ∈ ws)
    (hgroup : w.group? = some body) (hbody : SameGroup body body') (hvs : SameWords vs vs') :
    SameKey ws (body.identifiers, vs) (body'.identifiers, vs') where
  nil_iff := hbody.identifiers_nil_iff
  eq := by
    intro hsettled
    have hword := List.all_eq_true.1 hsettled w hw
    rw [listsSettled, hgroup, Option.all_some] at hword
    exact hbody.identifiers_eq (List.all_eq_true.1 hword)
  rest := hvs

theorem groupWithin?_same (h : SameWords ws ws') (n : Nat) :
    Option.Rel (fun x x' => SameKey ws (x.1.identifiers, x.2) (x'.1.identifiers, x'.2))
      (groupWithin? n ws) (groupWithin? n ws') := by
  induction h generalizing n with
  | nil => cases n <;> exact .none
  | @cons w w' vs vs' hword hvs ih =>
      cases n with
      | zero => exact .none
      | succ n =>
          rw [groupWithin?, groupWithin?]
          have hgroup := hword.group
          generalize hb : w.group? = body, w'.group? = body' at hgroup
          cases hgroup with
          | none => exact (ih n).mono fun _ _ hkey => hkey.of_subset (List.subset_cons_self w vs)
          | some hbody => exact .some (sameKey_of_group List.mem_cons_self hb hbody hvs)

theorem columnsOfKey?_same (h : SameWords ws ws') :
    Option.Rel (SameKey ws) (columnsOfKey? ws) (columnsOfKey? ws') := by
  cases h with
  | nil => exact .none
  | @cons w w' vs vs' hword hvs =>
      rw [columnsOfKey?, columnsOfKey?, hword.beforeGroup]
      split
      · have hgroup := hword.group
        generalize hb : w.group? = body, w'.group? = body' at hgroup
        cases hgroup with
        | none =>
            exact (groupWithin?_same hvs 2).map fun _ _ hkey =>
              hkey.of_subset (List.subset_cons_self w vs)
        | some hbody => exact .some (sameKey_of_group List.mem_cons_self hb hbody hvs)
      · exact .none

/-- The table that a `REFERENCES` clause names is the text in front of a group. -/
theorem target?_same (h : SameWords ws ws') : target? ws' = target? ws := by
  cases h with
  | nil => rfl
  | cons hword hvs =>
      cases hvs with
      | nil => rfl
      | cons hname _ => rw [target?, target?, hword.is, hname.beforeGroup]

/-- Declarations of two rows of words that have the same outline if the names in the first row
are settled. -/
def SameOutline (ws : List Text) (d d' : Declaration) : Prop :=
  namesSettled ws d = true → d'.outline = d.outline

theorem primaryKey?_same (h : SameWords ws ws') {vs : List Text} (hsub : ws ⊆ vs) :
    Option.Rel (SameOutline vs) (primaryKey? ws) (primaryKey? ws') := by
  have hkey := columnsOfKey?_same h
  rw [primaryKey?, primaryKey?]
  generalize columnsOfKey? ws = x, columnsOfKey? ws' = x' at hkey
  cases hkey with
  | none => exact .none
  | some hsame =>
      simp only [hsame.isEmpty_eq]
      split
      · exact .none
      · refine .some fun hsettled => ?_
        rw [(hsame.of_subset hsub).eq hsettled]

theorem foreignKey?_same (h : SameWords ws ws') {vs : List Text} (hsub : ws ⊆ vs) :
    Option.Rel (SameOutline vs) (foreignKey? ws) (foreignKey? ws') := by
  have hkey := columnsOfKey?_same h
  rw [foreignKey?, foreignKey?]
  generalize columnsOfKey? ws = x, columnsOfKey? ws' = x' at hkey
  cases hkey with
  | none => exact .none
  | @some x x' hsame =>
      simp only [hsame.isEmpty_eq, target?_same hsame.rest]
      cases target? x.2 with
      | none => exact .none
      | some target =>
          simp only
          split
          · exact .none
          · refine .some fun hsettled => ?_
            rw [(hsame.of_subset hsub).eq hsettled]

theorem constraint?_same (h : SameWords ws ws') {vs : List Text} (hsub : ws ⊆ vs) :
    Option.Rel (SameOutline vs) (constraint? ws) (constraint? ws') := by
  have hdrop := forall₂_dropWhile_startsKeyClause h fun _ _ hword => hword.sameKeywords
  have hsuffix : ws.dropWhile (!startsKeyClause ·) <:+ ws := List.dropWhile_suffix _
  unfold constraint?
  generalize ws.dropWhile (!startsKeyClause ·) = keys,
    ws'.dropWhile (!startsKeyClause ·) = keys' at hdrop hsuffix
  cases hdrop with
  | nil =>
      cases h with
      | nil => exact .none
      | cons _ hvs =>
          cases hvs with
          | nil => exact .none
          | cons hword _ =>
              simp only [hword.beforeGroup]
              split
              · exact .some fun _ => rfl
              · exact .none
  | @cons first _ rest _ hword hvs =>
      have hrest : rest ⊆ vs := fun v hv =>
        hsub (hsuffix.subset (List.mem_cons_of_mem first hv))
      simp only [hword.is]
      split
      · exact primaryKey?_same hvs hrest
      · exact foreignKey?_same hvs hrest

theorem firstTarget?_same (h : SameWords ws ws') : firstTarget? ws' = firstTarget? ws := by
  induction h with
  | nil => rfl
  | cons hword hvs ih =>
      rw [firstTarget?, firstTarget?, ih]
      exact congrArg (Option.or · _) (target?_same (.cons hword hvs))

theorem columnWith_same {name name' rawType rawType' : Text} (hname : name' = name)
    (htype : typeToken rawType' = typeToken rawType) (h : SameWords ws ws') :
    (column (columnWith name' rawType' ws')).outline =
      (column (columnWith name rawType ws)).outline := by
  have hkeywords : List.Forall₂ SameKeywords ws ws' := h.imp fun _ _ hword => hword.sameKeywords
  simp only [outline, columnWith, hname, htype, haveNeighbours_congr hkeywords,
    firstTarget?_same h]

theorem column?_same (h : SameWords ws ws') :
    Option.Rel (SameOutline ws) ((column? ws).map column) ((column? ws').map column) := by
  have htoken : ∀ {w w' : Text}, SameWord w w' →
      ∀ separated, typeTokenFrom separated w' = typeTokenFrom separated w := by
    intro w w' hword separated
    rw [← List.append_nil w, ← List.append_nil w']
    exact hword.typeTokenFrom (fun _ => rfl) separated
  cases h with
  | nil => exact .none
  | @cons name name' vs vs' hname hvs =>
      cases hvs with
      | nil => exact .none
      | @cons rawType rawType' us us' htype hus =>
          have hcolumn : ∀ {t t' : Text} {modifiers modifiers' : List Text},
              typeToken t' = typeToken t → SameWords modifiers modifiers' →
              Option.Rel (SameOutline (name :: rawType :: us))
                (some (column (columnWith name t modifiers)))
                (some (column (columnWith name' t' modifiers'))) :=
            fun ht hmodifiers => .some fun hall => columnWith_same (hname.settled hall) ht hmodifiers
          cases hus with
          | nil => exact hcolumn (htoken htype false) .nil
          | @cons third third' modifiers modifiers' hthird hmodifiers =>
              by_cases hopen : third.head? = some '('
              · obtain ⟨parameters, rfl⟩ := List.head?_eq_some_iff.1 hopen
                obtain ⟨parameters', rfl⟩ := List.head?_eq_some_iff.1 (hthird.head.trans hopen)
                exact hcolumn (htype.typeTokenFrom (htoken hthird) false) hmodifiers
              · have hopen' : third'.head? ≠ some '(' := fun h => hopen (hthird.head ▸ h)
                rw [column?_cons_of_head? hopen, column?_cons_of_head? hopen']
                exact hcolumn (htoken htype false) (.cons hthird hmodifiers)

theorem ofWords?_same (h : SameWords ws ws') :
    Option.Rel (SameOutline ws) (ofWords? ws) (ofWords? ws') := by
  have hcolumn := column?_same h
  cases h with
  | nil => exact .none
  | @cons first first' rest rest' hfirst hrest =>
      have hsub : rest ⊆ first :: rest := List.subset_cons_self first rest
      rw [ofWords?, ofWords?, hfirst.beforeGroup]
      split
      · exact primaryKey?_same hrest hsub
      split
      · exact foreignKey?_same hrest hsub
      split
      · exact constraint?_same hrest hsub
      split
      · exact .some fun _ => rfl
      · exact hcolumn

end Declaration

/-- A layout does not change the outline of a tidy declaration. -/
theorem RespacedTrimmed.outline_ofText {t t' : Text} (h : RespacedTrimmed lineRule t t')
    (htidy : isTidyDeclaration t = true) :
    (Declaration.ofText t').outline = (Declaration.ofText t).outline := by
  obtain ⟨hwords, hnames⟩ := (Bool.and_eq_true _ _).mp htidy
  obtain ⟨hkeeps, hopens⟩ := (Bool.and_eq_true _ _).mp hwords
  have hline : Respaced lineRule .top none t t' := h.respaced.mono fun _ _ _ _ _ hrule => hrule.1
  have hrespaced := (hline.of_keepsWords hkeeps).words h.startsBlank h.startsBlank'
  have hsame : SameWords t.words t'.words := by
    obtain ⟨hlength, hpairs⟩ := List.forall₂_iff_zip.1 hrespaced
    refine List.forall₂_iff_zip.2 ⟨hlength, fun hmem => ?_⟩
    exact (hpairs hmem).sameWord (List.all_eq_true.1 hopens _ (List.of_mem_zip hmem).1)
  have hdeclaration := Declaration.ofWords?_same hsame
  rw [Declaration.ofText] at hnames
  rw [Declaration.ofText, Declaration.ofText]
  generalize Declaration.ofWords? t.words = d, Declaration.ofWords? t'.words = d'
    at hdeclaration hnames
  cases hdeclaration with
  | none => rfl
  | some houtline => exact houtline hnames

end DdlDiagram
