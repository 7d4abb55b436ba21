import DdlDiagram.Proofs.Declaration.Constraints

/-!
# Key clauses behind an opening

A key clause stands at the start of a line or behind `CONSTRAINT` and a name. Either the reader
comes to the word that starts the clause and reads what stands behind it, or a word of the name has
been taken for the start of a clause. A clause that starts too early ends before the right one, so
what stands behind the right one does not matter then.
-/

namespace DdlDiagram
namespace Declaration

variable {k : Keyword} {start : Text} {words opening names keys : List Text}

/-- A search for a group that ends before it has passed a word finds the same whatever stands
behind the word. -/
theorem groupWithin?_append {n : Nat} (hn : n ≤ words.length + 1) (hstart : start.group? = none) :
    (∀ ws, groupWithin? n (words ++ start :: ws) = none) ∨
      ∃ body behind, ∀ ws,
        groupWithin? n (words ++ start :: ws) = some (body, behind ++ start :: ws) := by
  induction words generalizing n with
  | nil =>
      refine .inl fun ws => ?_
      match n, hn with
      | 0, _ => rfl
      | 1, _ =>
        rw [List.nil_append, groupWithin?, hstart]
        rfl
  | cons word rest ih =>
      cases n with
      | zero => exact .inl fun _ => rfl
      | succ n =>
          cases hgroup : word.group? with
          | some body =>
              refine .inr ⟨body, rest, fun ws => ?_⟩
              rw [List.cons_append, groupWithin?, hgroup]
          | none =>
              have hstep : ∀ ws, groupWithin? (n + 1) (word :: rest ++ start :: ws) =
                  groupWithin? n (rest ++ start :: ws) := by
                intro ws
                rw [List.cons_append, groupWithin?, hgroup]
              simp only [hstep]
              exact ih (Nat.le_of_succ_le_succ hn)

/-- A group that has been found is the same in front of more words. -/
theorem groupWithin?_append_of_eq_some {n : Nat} {body : Text} {behind : List Text}
    (h : groupWithin? n words = some (body, behind)) (ws : List Text) :
    groupWithin? n (words ++ ws) = some (body, behind ++ ws) := by
  induction words generalizing n with
  | nil => cases n <;> exact nomatch h
  | cons word rest ih =>
      cases n with
      | zero => exact nomatch h
      | succ n =>
          rw [groupWithin?] at h
          rw [List.cons_append, groupWithin?]
          cases hword : word.group? with
          | some found =>
              rw [hword] at h
              obtain ⟨rfl, rfl⟩ := Prod.mk.inj (Option.some.inj h)
              rfl
          | none =>
              rw [hword] at h
              exact ih h

/-- The columns of a key are those of the first group, whatever stands behind. -/
theorem columnsOfKey?_append {columns behind : List Text}
    (h : columnsOfKey? keys = some (columns, behind)) (ws : List Text) :
    columnsOfKey? (keys ++ ws) = some (columns, behind ++ ws) := by
  cases keys with
  | nil => exact nomatch h
  | cons word rest =>
      rw [columnsOfKey?, Option.ite_none_right_eq_some] at h
      obtain ⟨hkey, h⟩ := h
      rw [List.cons_append, columnsOfKey?, if_pos hkey]
      cases hword : word.group? with
      | some body =>
          rw [hword] at h
          obtain ⟨rfl, rfl⟩ := Prod.mk.inj (Option.some.inj h)
          rfl
      | none =>
          rw [hword] at h
          obtain ⟨⟨body, others⟩, hgroup, heq⟩ := Option.map_eq_some_iff.1 h
          obtain ⟨rfl, rfl⟩ := Prod.mk.inj heq
          simp only [groupWithin?_append_of_eq_some hgroup, Option.map_some]

/-- A table is named by the first two words, if `REFERENCES` is one of them. -/
theorem target?_append_congr (hstart : Keyword.references.is start = false)
    (words ws ws' : List Text) :
    target? (words ++ start :: ws) = target? (words ++ start :: ws') := by
  match words with
  | [] => rw [List.nil_append, List.nil_append, target?_eq_none hstart, target?_eq_none hstart]
  | [_] => rfl
  | _ :: _ :: _ => rfl

/-- The columns of a key clause that is started too early are not those of a later clause. -/
theorem columnsOfKey?_append_of_isKey (hk : k ∈ [Keyword.primary, .foreign])
    (hstart : k.is start = true) (hlast : ∀ w ∈ words.getLast?, Keyword.key.is w = false) :
    (∀ ws, columnsOfKey? (words ++ start :: ws) = none) ∨
      ∃ columns behind, ∀ ws,
        columnsOfKey? (words ++ start :: ws) = some (columns, behind ++ start :: ws) := by
  have hbare := Keyword.isBare_of_is hstart
  have hgroup : start.group? = none :=
    congrArg Prod.snd (Text.splitGroup_of_not_mem (hbare.not_mem (by decide)))
  have hapart : ∀ k ∈ [Keyword.primary, .foreign], k.spelling.map Char.toLower ≠
      Keyword.key.spelling.map Char.toLower := by decide
  cases words with
  | nil =>
      refine .inl fun ws => columnsOfKey?_of_not_key ?_ ws
      rw [hbare.beforeGroup_eq]
      exact Keyword.is_eq_false_of_is hstart (hapart k hk)
  | cons word rest =>
      cases hkey : Keyword.key.is word.beforeGroup with
      | false => exact .inl fun ws => columnsOfKey?_of_not_key hkey _
      | true =>
          cases hword : word.group? with
          | some body =>
              refine .inr ⟨body.identifiers, rest, fun ws => ?_⟩
              rw [List.cons_append, columnsOfKey?, if_pos hkey, hword]
          | none =>
              have hstep : ∀ ws, columnsOfKey? (word :: rest ++ start :: ws) =
                  (groupWithin? 2 (rest ++ start :: ws)).map
                    fun found => (found.1.identifiers, found.2) := by
                intro ws
                rw [List.cons_append, columnsOfKey?, if_pos hkey, hword]
              have hlength : 2 ≤ rest.length + 1 := by
                cases rest with
                | nil =>
                    have hbefore : word.beforeGroup = word :=
                      word.beforeGroup_cases.elim And.right fun h => absurd hword h.1
                    rw [hbefore, hlast word rfl] at hkey
                    cases hkey
                | cons other rest => simp
              simp only [hstep]
              rcases groupWithin?_append hlength hgroup with hnone | ⟨body, behind, hsome⟩
              · exact .inl fun ws => by rw [hnone, Option.map_none]
              · exact .inr ⟨body.identifiers, behind, fun ws => by rw [hsome, Option.map_some]⟩

/-- The key clause that a word starts. -/
def keyClause? (start : Text) (words : List Text) : Option Declaration :=
  if Keyword.primary.is start then primaryKey? words else foreignKey? words

theorem keyClause?_append_congr (hk : k ∈ [Keyword.primary, .foreign]) (hstart : k.is start = true)
    (hlast : ∀ w ∈ words.getLast?, Keyword.key.is w = false) (found : Text) (ws ws' : List Text) :
    keyClause? found (words ++ start :: ws) = keyClause? found (words ++ start :: ws') := by
  have hapart : ∀ k ∈ [Keyword.primary, .foreign], k.spelling.map Char.toLower ≠
      Keyword.references.spelling.map Char.toLower := by decide
  have htarget := target?_append_congr (Keyword.is_eq_false_of_is hstart (hapart k hk))
  rcases columnsOfKey?_append_of_isKey hk hstart hlast with hnone | ⟨columns, behind, hsome⟩
  · simp only [keyClause?, primaryKey?, foreignKey?, hnone]
  · simp only [keyClause?, primaryKey?, foreignKey?, hsome, htarget behind ws ws']

/-- Words in front of a key clause: none, or `CONSTRAINT` and a name. A name in brackets can be
several words; the last one of several is not `KEY`. -/
inductive IsOpening : List Text → Prop where
  | nil : IsOpening []
  | constraint {first : Text} {names : List Text} : Keyword.constraint.is first = true →
      (∀ w ∈ names.tail.getLast?, Keyword.key.is w = false) → IsOpening (first :: names)

theorem constraint?_append (hk : k ∈ [Keyword.primary, .foreign]) (hstart : k.is start = true)
    (hnames : ∀ w ∈ names.tail.getLast?, Keyword.key.is w = false) :
    (∀ ws, constraint? (names ++ start :: ws) = keyClause? start ws) ∨
      ∀ ws ws', constraint? (names ++ start :: ws) = constraint? (names ++ start :: ws') := by
  have hstarts := (ofWords?_of_isKey hk hstart []).1
  induction names with
  | nil => exact .inl fun ws => constraint?_of_startsKeyClause hstarts ws
  | cons name rest ih =>
      cases hname : startsKeyClause name with
      | true =>
          refine .inr fun ws ws' => ?_
          rw [List.cons_append, List.cons_append, constraint?_of_startsKeyClause hname,
            constraint?_of_startsKeyClause hname]
          exact keyClause?_append_congr hk hstart hnames name ws ws'
      | false =>
          have hstep : ∀ ws, constraint? (name :: rest ++ start :: ws) =
              constraint? (rest ++ start :: ws) :=
            fun ws => constraint?_cons_of_exists hname ⟨start, by simp, hstarts⟩
          have hrest : ∀ w ∈ rest.tail.getLast?, Keyword.key.is w = false := by
            intro w hw
            refine hnames w ?_
            cases rest with
            | nil => cases hw
            | cons other rest =>
                rw [List.tail_cons] at hw
                rw [List.tail_cons, List.getLast?_cons, hw]
                rfl
          simp only [hstep]
          exact ih hrest

/-- The reader comes to the key clause behind an opening, or it has stopped before. -/
theorem IsOpening.ofWords?_append (h : IsOpening opening) (hk : k ∈ [Keyword.primary, .foreign])
    (hstart : k.is start = true) :
    (∀ ws, ofWords? (opening ++ start :: ws) = keyClause? start ws) ∨
      ∀ ws ws', ofWords? (opening ++ start :: ws) = ofWords? (opening ++ start :: ws') := by
  cases h with
  | nil =>
      refine .inl fun ws => ?_
      obtain ⟨hstarts, hsame⟩ := ofWords?_of_isKey hk hstart ws
      rw [List.nil_append, hsame]
      exact constraint?_of_startsKeyClause hstarts ws
  | constraint hfirst hnames =>
      simp only [List.cons_append, ofWords?_of_constraint hfirst]
      exact constraint?_append hk hstart hnames

/-- What the words behind the start of a key clause make is all that counts. -/
theorem IsOpening.ofWords?_congr (h : IsOpening opening) (hk : k ∈ [Keyword.primary, .foreign])
    (hstart : k.is start = true) {ws ws' : List Text}
    (hsame : keyClause? start ws = keyClause? start ws') :
    ofWords? (opening ++ start :: ws) = ofWords? (opening ++ start :: ws') := by
  rcases h.ofWords?_append hk hstart with hread | hfixed
  · rw [hread, hread, hsame]
  · exact hfixed ws ws'

end Declaration
end DdlDiagram
