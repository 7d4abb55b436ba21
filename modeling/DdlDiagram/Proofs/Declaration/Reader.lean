import DdlDiagram.Declaration.Reader
import Mathlib.Data.List.Forall2
import Mathlib.Data.List.TakeWhile

/-!
# Reading the words of a declaration

A reader of modifiers passes over the words that do not concern it. The parameters of a type are a
word of their own only if the word behind the type starts with a parenthesis. The columns of a key
are the identifiers of the group behind `KEY`, and a clause without any is not known. The table of
a reference is the last segment of a word, up to its group.
-/

namespace DdlDiagram
namespace Declaration

variable {first second : Keyword} {word other : Text} {words : List Text}

theorem haveNeighbours_cons_cons (hfirst : first.is word = true) (hsecond : second.is other = true) :
    haveNeighbours first second (word :: other :: words) = true := by
  simp [haveNeighbours, hfirst, hsecond]

theorem haveNeighbours_append_of_not {front : List Text} (h : ∀ w ∈ front, first.is w = false) :
    haveNeighbours first second (front ++ words) = haveNeighbours first second words := by
  induction front with
  | nil => rfl
  | cons w rest ih =>
      obtain ⟨hw, hrest⟩ := List.forall_mem_cons.1 h
      rw [List.cons_append, haveNeighbours, hw, Bool.false_and, Bool.false_or, ih hrest]

/-- The last word has no neighbour behind it. -/
theorem haveNeighbours_pair_of_not (h : first.is word = false) :
    haveNeighbours first second [word, other] = false := by
  simp [haveNeighbours, h]

theorem firstTarget?_append_of_not {front : List Text}
    (h : ∀ w ∈ front, Keyword.references.is w = false) :
    firstTarget? (front ++ words) = firstTarget? words := by
  induction front with
  | nil => rfl
  | cons w rest ih =>
      obtain ⟨hw, hrest⟩ := List.forall_mem_cons.1 h
      have htarget : target? (w :: (rest ++ words)) = none := by
        unfold target?
        split
        · rename_i heq
          obtain ⟨rfl, -⟩ := List.cons.inj heq
          rw [hw, Bool.false_and, if_neg Bool.false_ne_true]
        · rfl
      rw [List.cons_append, firstTarget?, htarget, ih hrest, Option.none_or]

/-- A type has no parameters of its own if the next word is no group. -/
theorem column?_of_head? {name rawType : Text}
    (h : ∀ word, words.head? = some word → word.head? ≠ some '(') :
    column? (name :: rawType :: words) = some (columnWith name rawType words) := by
  cases words with
  | nil => rfl
  | cons word rest =>
      cases word with
      | nil => rfl
      | cons c others =>
          have hc : c ≠ '(' := by simpa using h _ rfl
          rw [column?]
          intro parameters modifiers heq
          exact hc (List.cons.inj (List.cons.inj heq).1).1

theorem column?_cons_of_head? {name rawType word : Text} (h : word.head? ≠ some '(')
    (modifiers : List Text) : column? (name :: rawType :: word :: modifiers) =
      some (columnWith name rawType (word :: modifiers)) := by
  refine column?_of_head? fun other hother => ?_
  obtain rfl := Option.some.inj hother
  exact h

/-- Whether the parameters of a type are a word of their own is settled by the words behind the
type, in front of any further word that is no group. -/
theorem exists_column?_append (name rawType : Text) (words : List Text) :
    ∃ type modifiers, (words = modifiers ∨ ∃ parameters, words = ('(' :: parameters) :: modifiers) ∧
      ∀ word others, word.head? ≠ some '(' →
        column? (name :: rawType :: (words ++ word :: others)) =
          some (columnWith name type (modifiers ++ word :: others)) := by
  by_cases hgroup : ∃ parameters rest, words = ('(' :: parameters) :: rest
  · obtain ⟨parameters, rest, rfl⟩ := hgroup
    exact ⟨rawType ++ '(' :: parameters, rest, .inr ⟨parameters, rfl⟩, fun _ _ _ => rfl⟩
  · refine ⟨rawType, words, .inl rfl, fun word others hword => column?_of_head? fun w hw => ?_⟩
    cases words with
    | nil => exact Option.some.inj hw ▸ hword
    | cons v rest =>
        obtain rfl := Option.some.inj hw
        cases v with
        | nil => exact nofun
        | cons c parameters =>
            intro hc
            obtain rfl := Option.some.inj hc
            exact hgroup ⟨parameters, rest, rfl⟩

theorem haveNeighbours_append_cons (hfirst : first.is word = false)
    (hsecond : second.is word = false) (words others : List Text) :
    haveNeighbours first second (words ++ word :: others) =
      (haveNeighbours first second words || haveNeighbours first second others) := by
  induction words with
  | nil => simp [haveNeighbours, hfirst]
  | cons w rest ih =>
      have hnext : (rest ++ word :: others).head?.any second.is = rest.head?.any second.is := by
        cases rest with
        | nil => exact hsecond
        | cons v rest => rfl
      rw [List.cons_append, haveNeighbours, haveNeighbours, hnext, ih, Bool.or_assoc]

theorem target?_eq_none (h : Keyword.references.is word = false) (words : List Text) :
    target? (word :: words) = none := by
  cases words with
  | nil => rfl
  | cons w rest => simp [target?, h]

/-- Words that do not end in `REFERENCES` name the same table as on their own. -/
theorem firstTarget?_append_cons (hlast : ∀ w ∈ words.getLast?, Keyword.references.is w = false)
    (hword : Keyword.references.is word = false) (others : List Text) :
    firstTarget? (words ++ word :: others) = (firstTarget? words).or (firstTarget? others) := by
  induction words with
  | nil => simp [firstTarget?, target?_eq_none hword]
  | cons w rest ih =>
      cases rest with
      | nil =>
          have hw := hlast w rfl
          simp [firstTarget?, target?_eq_none hword, target?_eq_none hw]
      | cons v rest =>
          have hrest := ih fun u hu => hlast u (by rwa [List.getLast?_cons_cons])
          have htarget : target? (w :: (v :: rest ++ word :: others)) =
              target? (w :: v :: rest) := rfl
          rw [List.cons_append, firstTarget?, hrest, htarget, ← Option.or_assoc]
          rfl

variable {ws ws' : List Text}

/-- Two words are the same keywords, on the whole and in front of their groups. -/
def SameKeywords (w w' : Text) : Prop :=
  ∀ k : Keyword, k.is w' = k.is w ∧ k.is w'.beforeGroup = k.is w.beforeGroup

theorem SameKeywords.startsKeyClause_eq {w w' : Text} (h : SameKeywords w w') :
    startsKeyClause w' = startsKeyClause w := by
  rw [startsKeyClause, startsKeyClause, (h .foreign).2, (h .primary).1]

theorem haveNeighbours_congr (h : List.Forall₂ SameKeywords ws ws') (first second : Keyword) :
    haveNeighbours first second ws' = haveNeighbours first second ws := by
  induction h with
  | nil => rfl
  | cons hword hwords ih =>
      rw [haveNeighbours, haveNeighbours, (hword first).1, ih]
      cases hwords with
      | nil => rfl
      | cons hnext _ => simp [(hnext second).1]

/-- Rows of words go on in the same way behind the words in front of a key clause. -/
theorem forall₂_dropWhile_startsKeyClause {R : Text → Text → Prop} (h : List.Forall₂ R ws ws')
    (hR : ∀ w w', R w w' → SameKeywords w w') :
    List.Forall₂ R (ws.dropWhile (!startsKeyClause ·)) (ws'.dropWhile (!startsKeyClause ·)) := by
  induction h with
  | nil => exact .nil
  | cons hword hwords ih =>
      rw [List.dropWhile_cons, List.dropWhile_cons, (hR _ _ hword).startsKeyClause_eq]
      split
      · exact ih
      · exact .cons hword hwords

def clauseKeywords : List Keyword :=
  [.primary, .foreign, .constraint, .key, .unique, .index, .fulltext, .spatial, .check]

/-- What does not start like a clause can only be a column. -/
theorem ofWords?_of_not_clause (h : ∀ k ∈ clauseKeywords, k.is word.beforeGroup = false) :
    ofWords? (word :: words) = (column? (word :: words)).map .column := by
  have hprimary := h .primary (by decide)
  have hforeign := h .foreign (by decide)
  have hconstraint := h .constraint (by decide)
  have hignored : ([Keyword.key, .unique, .index, .fulltext, .spatial, .check].any
      (·.is word.beforeGroup)) = false := by
    rw [List.any_eq_false]
    intro k hk
    have hsubset : [Keyword.key, .unique, .index, .fulltext, .spatial, .check] ⊆ clauseKeywords := by
      decide
    simp [h k (hsubset hk)]
  rw [ofWords?]
  simp only [hprimary, hforeign, hconstraint, hignored, Bool.false_eq_true, if_false]

variable {body : Text}

/-- The list of a key stands in a group behind the word `KEY`. -/
theorem columnsOfKey?_key (h : word.group? = some body) :
    columnsOfKey? ("KEY".toList :: word :: words) = some (body.identifiers, words) := by
  have hkey : Text.splitGroup "KEY".toList = ("KEY".toList, none) :=
    Text.splitGroup_of_not_mem (by decide)
  have hword : Keyword.key.is "KEY".toList = true := by decide
  rw [columnsOfKey?]
  simp only [Text.beforeGroup, Text.group?, hkey, hword, if_pos, groupWithin?]
  rw [← Text.group?, h]
  rfl

theorem ofWords?_primaryKey (h : word.group? = some body) :
    ofWords? ("PRIMARY".toList :: "KEY".toList :: word :: words) =
      if body.identifiers.isEmpty then none else some (.primaryKey body.identifiers) := by
  have hhead : Text.beforeGroup "PRIMARY".toList = "PRIMARY".toList := by decide
  have hprimary : Keyword.primary.is "PRIMARY".toList = true := by decide
  rw [ofWords?, hhead]
  simp only [hprimary, if_true, primaryKey?, columnsOfKey?_key h]

theorem ofWords?_foreignKey (h : word.group? = some body) {target : Text}
    (htarget : target? words = some target) :
    ofWords? ("FOREIGN".toList :: "KEY".toList :: word :: words) =
      if body.identifiers.isEmpty then none else some (.foreignKey body.identifiers target) := by
  have hhead : Text.beforeGroup "FOREIGN".toList = "FOREIGN".toList := by decide
  have hprimary : Keyword.primary.is "FOREIGN".toList = false := by decide
  have hforeign : Keyword.foreign.is "FOREIGN".toList = true := by decide
  rw [ofWords?, hhead]
  simp only [hprimary, hforeign, Bool.false_eq_true, if_false, if_true, foreignKey?,
    columnsOfKey?_key h, htarget]

variable {t : Text}

/-- A point ends a segment, so only what stands behind the last one counts. -/
theorem tableName_append_cons (t u : Text) : tableName (t ++ '.' :: u) = tableName u := by
  have htake : (u.reverse ++ '.' :: t.reverse).takeWhile (· != '.') =
      u.reverse.takeWhile (· != '.') := by
    rw [List.takeWhile_append]
    split
    · rename_i hlength
      have hall := (List.takeWhile_prefix (· != '.')).eq_of_length hlength
      rw [hall]
      simp
    · rfl
  rw [tableName, List.reverse_append, List.reverse_cons, List.append_assoc, List.singleton_append,
    htake, tableName]

/-- A text without points is a single segment. -/
theorem tableName_of_not_mem (h : '.' ∉ t) : tableName t = t.unquote := by
  have htake : t.reverse.takeWhile (· != '.') = t.reverse := by
    rw [List.takeWhile_eq_self_iff]
    intro c hc
    rw [bne_iff_ne]
    rintro rfl
    exact h (List.mem_reverse.1 hc)
  rw [tableName, htake, List.reverse_reverse]

/-- The table that a word behind `REFERENCES` names, if it names one. -/
theorem target?_of_is (hword : Keyword.references.is word = true)
    (h : tableName other.beforeGroup ≠ []) :
    target? (word :: other :: words) = some (tableName other.beforeGroup) := by
  rw [target?, hword, if_pos]
  simpa using h

theorem target?_references (h : tableName word.beforeGroup ≠ []) :
    target? ("REFERENCES".toList :: word :: words) = some (tableName word.beforeGroup) :=
  target?_of_is (by decide) h

/-- The declarations that words can make: none is unknown, and no key is without columns. -/
inductive IsKnown : Declaration → Prop where
  | column (column : ColumnDeclaration) : IsKnown (.column column)
  | primaryKey {columns : List Text} : columns ≠ [] → IsKnown (.primaryKey columns)
  | foreignKey {columns : List Text} (target : Text) : columns ≠ [] →
      IsKnown (.foreignKey columns target)
  | ignored : IsKnown .ignored

variable {declaration : Declaration}

/-- The clause of a primary key makes nothing else than one with columns. -/
theorem exists_of_primaryKey? (h : primaryKey? words = some declaration) :
    ∃ columns, columns ≠ [] ∧ declaration = .primaryKey columns := by
  unfold primaryKey? at h
  split at h
  · rw [Option.ite_none_left_eq_some] at h
    obtain ⟨hne, h⟩ := h
    exact ⟨_, by simpa using hne, (Option.some.inj h).symm⟩
  · exact nomatch h

theorem exists_of_foreignKey? (h : foreignKey? words = some declaration) :
    ∃ columns target, columns ≠ [] ∧ declaration = .foreignKey columns target := by
  unfold foreignKey? at h
  split at h
  · split at h
    · rw [Option.ite_none_left_eq_some] at h
      obtain ⟨hne, h⟩ := h
      exact ⟨_, _, by simpa using hne, (Option.some.inj h).symm⟩
    · exact nomatch h
  · exact nomatch h

theorem isKnown_of_primaryKey? (h : primaryKey? words = some declaration) :
    declaration.IsKnown := by
  obtain ⟨columns, hne, rfl⟩ := exists_of_primaryKey? h
  exact .primaryKey hne

theorem isKnown_of_foreignKey? (h : foreignKey? words = some declaration) :
    declaration.IsKnown := by
  obtain ⟨columns, target, hne, rfl⟩ := exists_of_foreignKey? h
  exact .foreignKey target hne

theorem isKnown_of_constraint? (h : constraint? words = some declaration) :
    declaration.IsKnown := by
  unfold constraint? at h
  split at h
  · split at h
    · exact isKnown_of_primaryKey? h
    · exact isKnown_of_foreignKey? h
  · split at h
    · rw [Option.ite_none_right_eq_some] at h
      obtain rfl := Option.some.inj h.2
      exact .ignored
    · exact nomatch h

theorem isKnown_of_ofWords? (h : ofWords? words = some declaration) : declaration.IsKnown := by
  cases words with
  | nil => exact nomatch h
  | cons first rest =>
      simp only [ofWords?] at h
      split at h
      · exact isKnown_of_primaryKey? h
      split at h
      · exact isKnown_of_foreignKey? h
      split at h
      · exact isKnown_of_constraint? h
      split at h
      · obtain rfl := Option.some.inj h
        exact .ignored
      · obtain ⟨column, -, rfl⟩ := Option.map_eq_some_iff.1 h
        exact .column column

/-- The declaration with another text to carry, if it is unknown. -/
def withText : Declaration → Text → Declaration
  | unknown _, t => unknown t
  | declaration, _ => declaration

theorem IsKnown.withText_eq (h : declaration.IsKnown) (t : Text) :
    declaration.withText t = declaration := by
  cases h <;> rfl

theorem IsKnown.ne_unknown (h : declaration.IsKnown) (t : Text) : declaration ≠ .unknown t := by
  rintro rfl
  cases h

/-- A text is unknown exactly if its words make no declaration. -/
theorem ofText_eq_unknown_iff : ofText t = .unknown t ↔ ofWords? t.words = none := by
  rw [ofText]
  cases h : ofWords? t.words with
  | none => exact iff_of_true rfl rfl
  | some declaration =>
      exact iff_of_false ((isKnown_of_ofWords? h).ne_unknown t) (Option.some_ne_none declaration)

/-- Two texts make the same declaration, up to the text that an unknown one carries, exactly if
their words do. -/
theorem ofText_eq_withText_iff {u : Text} :
    ofText t = (ofText u).withText t ↔ ofWords? t.words = ofWords? u.words := by
  rw [ofText, ofText]
  cases ht : ofWords? t.words with
  | none =>
      cases hu : ofWords? u.words with
      | none => exact iff_of_true rfl rfl
      | some declaration =>
          have hknown := isKnown_of_ofWords? hu
          rw [Option.getD_some, hknown.withText_eq]
          exact iff_of_false (hknown.ne_unknown t).symm (Option.some_ne_none declaration).symm
  | some declaration =>
      have hknown := isKnown_of_ofWords? ht
      cases hu : ofWords? u.words with
      | none => exact iff_of_false (hknown.ne_unknown t) (Option.some_ne_none declaration)
      | some other =>
          rw [Option.getD_some, Option.getD_some, (isKnown_of_ofWords? hu).withText_eq,
            Option.some.injEq]

end Declaration

end DdlDiagram
