import DdlDiagram.Proofs.Declaration.Written

/-!
# Clauses of named constraints

Behind `CONSTRAINT` the reader looks for the first word that starts a key clause, also where the
name should stand and in the middle of another clause. So a clause says with a name what it says
without one if the name is no such word and the clause either starts with one or has none at all;
everywhere else the name changes what it says, unless it said nothing.
-/

namespace DdlDiagram

open Nesting

namespace Declaration

variable {name clause word first : Text} {words : List Text}

/-- A word that starts a key clause is the one that the search stops at. -/
theorem constraint?_of_startsKeyClause (h : startsKeyClause word = true) (words : List Text) :
    constraint? (word :: words) =
      if Keyword.primary.is word then primaryKey? words else foreignKey? words := by
  unfold constraint?
  rw [List.dropWhile_cons_of_neg (by simp [h])]

/-- The search passes over a word that starts no key clause, if one is started later. -/
theorem constraint?_cons_of_exists (h : startsKeyClause word = false)
    (hlater : ∃ w ∈ words, startsKeyClause w = true) :
    constraint? (word :: words) = constraint? words := by
  obtain ⟨w, hw, hstarts⟩ := hlater
  have hne : words.dropWhile (!startsKeyClause ·) ≠ [] := by
    rw [Ne, List.dropWhile_eq_nil_iff]
    intro hall
    have hnot := hall w hw
    rw [hstarts] at hnot
    exact Bool.false_ne_true hnot
  obtain ⟨start, rest, hdrop⟩ := List.exists_cons_of_ne_nil hne
  unfold constraint?
  rw [List.dropWhile_cons_of_pos (by simp [h]), hdrop]

/-- Without a key clause only the word behind the name counts. -/
theorem constraint?_of_forall (h : ∀ w ∈ word :: first :: words, startsKeyClause w = false) :
    constraint? (word :: first :: words) =
      if [Keyword.unique, .check, .key, .index].any (·.is first.beforeGroup) then some .ignored
      else none := by
  have hdrop : (word :: first :: words).dropWhile (!startsKeyClause ·) = [] := by
    rw [List.dropWhile_eq_nil_iff]
    intro w hw
    rw [h w hw]
    rfl
  unfold constraint?
  rw [hdrop]

/-- A constraint with a key clause anywhere in it is never passed over. -/
theorem constraint?_ne_ignored (h : ∃ w ∈ words, startsKeyClause w = true) :
    constraint? words ≠ some .ignored := by
  induction words with
  | nil => simp at h
  | cons word rest ih =>
      cases hstarts : startsKeyClause word with
      | false =>
          have hrest : ∃ w ∈ rest, startsKeyClause w = true := by
            obtain ⟨w, hw, hlater⟩ := h
            refine ⟨w, (List.mem_cons.1 hw).resolve_left ?_, hlater⟩
            rintro rfl
            rw [hstarts] at hlater
            exact Bool.false_ne_true hlater
          rw [constraint?_cons_of_exists hstarts hrest]
          exact ih hrest
      | true =>
          rw [constraint?_of_startsKeyClause hstarts]
          split
          · intro hignored
            obtain ⟨columns, -, heq⟩ := exists_of_primaryKey? hignored
            cases heq
          · intro hignored
            obtain ⟨columns, target, -, heq⟩ := exists_of_foreignKey? hignored
            cases heq

/-- A key clause names no columns if the word `KEY` is not the next one. -/
theorem columnsOfKey?_of_not_key (h : Keyword.key.is word.beforeGroup = false)
    (words : List Text) : columnsOfKey? (word :: words) = none := by
  rw [columnsOfKey?, if_neg (by simp [h])]

/-- The words of a clause that may stand behind the name of a constraint: `PRIMARY KEY` or
`FOREIGN KEY`, or `UNIQUE`, `CHECK`, `KEY` or `INDEX`. A group may follow the last of these words
directly. -/
inductive IsConstraint : List Text → Prop where
  | key {k : Keyword} {first second : Text} {words : List Text} :
      k ∈ [Keyword.primary, .foreign] → k.is first = true →
      Keyword.key.is second.beforeGroup = true → IsConstraint (first :: second :: words)
  | other {k : Keyword} {first : Text} {words : List Text} :
      k ∈ [Keyword.unique, .check, .key, .index] → k.is first.beforeGroup = true →
      IsConstraint (first :: words)

/-- `CONSTRAINT name clause` -/
def constraintText (name clause : Text) : Text := "CONSTRAINT ".toList ++ name ++ ' ' :: clause

/-- The words of a key clause are read as those of a constraint without a name. -/
theorem ofWords?_of_isKey {k : Keyword} (hk : k ∈ [Keyword.primary, .foreign])
    (hfirst : k.is first = true) (words : List Text) :
    startsKeyClause first = true ∧ ofWords? (first :: words) = constraint? (first :: words) := by
  have hbefore : first.beforeGroup = first := (Keyword.isBare_of_is hfirst).beforeGroup_eq
  simp only [List.mem_cons, List.not_mem_nil, or_false] at hk
  rcases hk with rfl | rfl
  · have hstarts : startsKeyClause first = true := by simp [startsKeyClause, hfirst]
    rw [constraint?_of_startsKeyClause hstarts, ofWords?]
    simp only [hbefore, hfirst, if_true, hstarts, true_and]
  · have hprimary : Keyword.primary.is first = false := Keyword.is_eq_false_of_is hfirst (by decide)
    have hstarts : startsKeyClause first = true := by simp [startsKeyClause, hbefore, hfirst]
    rw [constraint?_of_startsKeyClause hstarts, ofWords?]
    simp only [hbefore, hfirst, hprimary, Bool.false_eq_true, if_false, if_true, hstarts, true_and]

/-- The words of the other clauses are passed over. -/
theorem ofWords?_of_isOther {k : Keyword} (hk : k ∈ [Keyword.unique, .check, .key, .index])
    (hfirst : k.is first.beforeGroup = true) (words : List Text) :
    startsKeyClause first = false ∧ ofWords? (first :: words) = some .ignored ∧
      [Keyword.unique, .check, .key, .index].any (·.is first.beforeGroup) = true := by
  have hapart : ∀ k ∈ [Keyword.unique, .check, .key, .index],
      k ∈ [Keyword.key, .unique, .index, .fulltext, .spatial, .check] ∧
      ∀ k' ∈ [Keyword.primary, .foreign, .constraint],
        k.spelling.map Char.toLower ≠ k'.spelling.map Char.toLower := by decide
  have hother : ∀ k' ∈ [Keyword.primary, .foreign, .constraint],
      k'.is first.beforeGroup = false :=
    fun k' hk' => Keyword.is_eq_false_of_is hfirst ((hapart k hk).2 k' hk')
  have hprimary := hother .primary (by decide)
  have hforeign := hother .foreign (by decide)
  have hconstraint := hother .constraint (by decide)
  have hany : [Keyword.unique, .check, .key, .index].any (·.is first.beforeGroup) = true :=
    List.any_eq_true.2 ⟨k, hk, hfirst⟩
  refine ⟨?_, ?_, hany⟩
  · have hwhole : Keyword.primary.is first = false := by
      by_contra his
      have hbare := Keyword.isBare_of_is (Bool.not_eq_false _ ▸ his)
      rw [hbare.beforeGroup_eq] at hprimary
      exact his hprimary
    rw [startsKeyClause, hforeign, hwhole]
    rfl
  · have hignored : [Keyword.key, .unique, .index, .fulltext, .spatial, .check].any
        (·.is first.beforeGroup) = true := List.any_eq_true.2 ⟨k, (hapart k hk).1, hfirst⟩
    rw [ofWords?]
    simp only [hprimary, hforeign, hconstraint, hignored, Bool.false_eq_true, if_false, if_true]

/-- A name that starts a key clause itself takes the clause for its list, where no column is. -/
theorem constraint?_cons_eq_iff_of_startsKeyClause (h : startsKeyClause name = true)
    (hclause : IsConstraint words) :
    constraint? (name :: words) = ofWords? words ↔ ofWords? words = none := by
  cases hclause with
  | @key k first second rest hk hfirst _ =>
      have hnot : Keyword.key.is first.beforeGroup = false := by
        have hapart : ∀ k ∈ [Keyword.primary, .foreign], k.spelling.map Char.toLower ≠
            Keyword.key.spelling.map Char.toLower := by decide
        rw [(Keyword.isBare_of_is hfirst).beforeGroup_eq]
        exact Keyword.is_eq_false_of_is hfirst (hapart k hk)
      have hnone : constraint? (name :: first :: second :: rest) = none := by
        rw [constraint?_of_startsKeyClause h]
        simp only [primaryKey?, foreignKey?, columnsOfKey?_of_not_key hnot, ite_self]
      rw [hnone]
      exact eq_comm
  | @other k first rest hk hfirst =>
      obtain ⟨-, hignored, -⟩ := ofWords?_of_isOther hk hfirst rest
      rw [hignored]
      exact iff_of_false (constraint?_ne_ignored ⟨name, List.mem_cons_self, h⟩)
        (Option.some_ne_none _)

/-- A clause that is not passed over starts with the word of a key clause. -/
theorem IsConstraint.starts_of_ofWords? (h : IsConstraint words)
    (hwords : ofWords? words ≠ some .ignored) : words.head?.any startsKeyClause = true := by
  cases h with
  | @key k first second rest hk hfirst _ =>
      exact (ofWords?_of_isKey hk hfirst (second :: rest)).1
  | @other k first rest hk hfirst => exact absurd (ofWords?_of_isOther hk hfirst rest).2.1 hwords

/-- Behind any other name the first word of a key clause is searched for in the clause. -/
theorem constraint?_cons_eq_iff (h : startsKeyClause name = false)
    (hclause : IsConstraint words) : constraint? (name :: words) = ofWords? words ↔
      words.head?.any startsKeyClause = true ∨ ∀ w ∈ words, startsKeyClause w = false := by
  cases hclause with
  | @key k first second rest hk hfirst _ =>
      obtain ⟨hstarts, hsame⟩ := ofWords?_of_isKey hk hfirst (second :: rest)
      rw [hsame, constraint?_cons_of_exists h ⟨first, List.mem_cons_self, hstarts⟩]
      exact iff_of_true rfl (.inl hstarts)
  | @other k first rest hk hfirst =>
      obtain ⟨hstarts, hignored, hany⟩ := ofWords?_of_isOther hk hfirst rest
      rw [hignored]
      by_cases hlater : ∃ w ∈ first :: rest, startsKeyClause w = true
      · have hlater' : ∃ w ∈ name :: first :: rest, startsKeyClause w = true := by
          obtain ⟨w, hw, hw'⟩ := hlater
          exact ⟨w, List.mem_cons_of_mem name hw, hw'⟩
        refine iff_of_false (constraint?_ne_ignored hlater') ?_
        rintro (hhead | hnone)
        · rw [List.head?_cons, Option.any_some, hstarts] at hhead
          exact Bool.false_ne_true hhead
        · obtain ⟨w, hw, hw'⟩ := hlater
          rw [hnone w hw] at hw'
          exact Bool.false_ne_true hw'
      · have hnone : ∀ w ∈ first :: rest, startsKeyClause w = false := by simpa using hlater
        rw [constraint?_of_forall (List.forall_mem_cons.2 ⟨h, hnone⟩), if_pos hany]
        exact iff_of_true rfl (.inr hnone)

/-- A constraint is read by the words behind its keyword. -/
theorem ofWords?_of_constraint (h : Keyword.constraint.is first = true) (words : List Text) :
    ofWords? (first :: words) = constraint? words := by
  have hprimary : Keyword.primary.is first = false := Keyword.is_eq_false_of_is h (by decide)
  have hforeign : Keyword.foreign.is first = false := Keyword.is_eq_false_of_is h (by decide)
  rw [ofWords?, (Keyword.isBare_of_is h).beforeGroup_eq]
  simp only [hprimary, hforeign, h, Bool.false_eq_true, if_false, if_true]

theorem ofWords?_constraintText (hne : name ≠ []) (hname : name.IsBare) (clause : Text) :
    ofWords? (constraintText name clause).words = constraint? (name :: clause.words) := by
  have hblank : ∀ c, isIdentifierChar c = true → isBlank c = false :=
    fun _ => isBlank_eq_false_of_isIdentifierChar
  have hjoin : constraintText name clause =
      Text.join [' '] ["CONSTRAINT".toList, name] ++ ' ' :: clause := rfl
  have hwords : (constraintText name clause).words =
      "CONSTRAINT".toList :: name :: clause.words := by
    rw [hjoin, Text.words_join_append_space]
    · rfl
    · simp [hne]
    · simpa using ⟨.of_all (by decide), hname.uncut hblank⟩
  rw [hwords, ofWords?_of_constraint (by decide)]

/-- A name in front of a clause changes nothing exactly if the name is not `PRIMARY` or `FOREIGN`
and the clause is a key clause or has no word that starts one, or if the clause is unknown
anyway. -/
theorem ofText_constraintText_iff (hne : name ≠ []) (hname : name.IsBare)
    (hclause : IsConstraint clause.words) :
    ofText (constraintText name clause) =
        (ofText clause).withText (constraintText name clause) ↔
      (startsKeyClause name = false ∧ (clause.words.head?.any startsKeyClause = true ∨
        ∀ w ∈ clause.words, startsKeyClause w = false)) ∨ ofText clause = .unknown clause := by
  rw [ofText_eq_withText_iff, ofText_eq_unknown_iff, ofWords?_constraintText hne hname]
  cases hstarts : startsKeyClause name with
  | true => simpa using constraint?_cons_eq_iff_of_startsKeyClause hstarts hclause
  | false =>
      have hunknown : ofWords? clause.words = none →
          clause.words.head?.any startsKeyClause = true ∨
            ∀ w ∈ clause.words, startsKeyClause w = false := by
        intro hnone
        exact .inl (hclause.starts_of_ofWords? (by simp [hnone]))
      rw [constraint?_cons_eq_iff hstarts hclause, and_iff_right rfl, or_iff_left_of_imp hunknown]

/-- A foreign key in mixed case, with the name of an index before its list. -/
def indexedForeignKey : Text := "Foreign key idx(a, b) REFERENCES t(c) ON DELETE SET NULL".toList

theorem ofText_constraintText_indexedForeignKey :
    IsConstraint indexedForeignKey.words ∧
    ofText (constraintText "foreign_a".toList indexedForeignKey) = ofText indexedForeignKey ∧
    ofText indexedForeignKey = .foreignKey ["a".toList, "b".toList] "t".toList := by
  have hread : ofText indexedForeignKey = .foreignKey ["a".toList, "b".toList] "t".toList := by
    decide +kernel
  have hclause : IsConstraint indexedForeignKey.words := by
    have hwords : indexedForeignKey.words = "Foreign".toList :: "key".toList ::
        ["idx(a, b)", "REFERENCES", "t(c)", "ON", "DELETE", "SET", "NULL"].map String.toList := by
      decide +kernel
    rw [hwords]
    exact .key (k := .foreign) (by decide) (by decide) (by decide)
  have hname : Text.IsBare "foreign_a".toList := List.all_eq_true.1 (by decide)
  have hsame := (ofText_constraintText_iff (by decide) hname hclause).2
    (.inl ⟨by decide, .inl (by decide +kernel)⟩)
  rw [hread] at hsame
  exact ⟨hclause, hread ▸ hsame, hread⟩

/-- A name that is a keyword hides the clause, and a clause that is passed over without a name is
read from a later word with one. -/
theorem ofText_constraintText_ne :
    (ofText "PRIMARY KEY (id)".toList = .primaryKey ["id".toList] ∧
      ofText (constraintText "primary".toList "PRIMARY KEY (id)".toList) =
        .unknown "CONSTRAINT primary PRIMARY KEY (id)".toList) ∧
    (ofText "CHECK (x) PRIMARY KEY (a)".toList = .ignored ∧
      ofText (constraintText "c".toList "CHECK (x) PRIMARY KEY (a)".toList) =
        .primaryKey ["a".toList]) ∧
    (ofText "UNIQUE foreign (a)".toList = .ignored ∧
      ofText (constraintText "u".toList "UNIQUE foreign (a)".toList) =
        .unknown "CONSTRAINT u UNIQUE foreign (a)".toList) := by
  decide +kernel

end Declaration
end DdlDiagram
