import DdlDiagram.Proofs.Declaration.Reader
import DdlDiagram.Proofs.Nesting.Seam
import DdlDiagram.Proofs.Statement.Keyword

/-!
# Literals among the modifiers of a column

Behind the type of a column the reader looks for keywords only, and for a table behind
`REFERENCES`. A string literal there is one word that is no keyword. So the column that the words
around it declare is the same whatever the literal holds.
-/

namespace DdlDiagram

open Nesting

variable {line part contents other word : Text} {first second : Keyword} {words others : List Text}

def literal (contents : Text) : Text := '\'' :: (contents ++ ['\''])

theorem uncut_literal (h : '\'' ∉ contents) (cut : Char → Bool) : Uncut cut (literal contents) :=
  .run rfl h (.nil cut)

/-- A literal is no bare word. -/
theorem Keyword.is_literal (k : Keyword) (contents : Text) : k.is (literal contents) = false :=
  k.is_eq_false_of_mem List.mem_cons_self (by decide)

theorem Text.trim_append_literal (hline : ¬ IsGap line) (contents part : Text) :
    trim (line ++ (literal contents ++ part)) =
      line.trimStart ++ (literal contents ++ part.trimEnd) := by
  have hstart : (line ++ (literal contents ++ part)).trimStart =
      line.trimStart ++ (literal contents ++ part) := by
    rw [trimStart, List.dropWhile_append, if_neg]
    · rfl
    · rw [List.isEmpty_iff, List.dropWhile_eq_nil_iff]
      exact hline
  have hend : trimEnd (line.trimStart ++ literal contents) =
      line.trimStart ++ literal contents := by
    rw [trimEnd_eq_self_iff]
    intro c hc
    rw [literal, ← List.cons_append, ← List.append_assoc, List.getLast?_concat] at hc
    obtain rfl := Option.some.inj hc
    rfl
  rw [trim, hstart, ← List.append_assoc, trimEnd_append_of_trimEnd_eq hend, List.append_assoc]

namespace Declaration

/-- Words that may stand anywhere among the modifiers of a column. -/
structure IsInert (word : Text) : Prop where
  head? : word.head? ≠ some '('
  is : ∀ k : Keyword, k.is word = false

theorem isInert_literal (contents : Text) : IsInert (literal contents) :=
  ⟨by simp [literal], fun k => k.is_literal contents⟩

/-- The column that two rows of modifiers make which do not join. -/
def columnAround (name rawType : Text) (modifiers others : List Text) : ColumnDeclaration where
  name := name.unquote
  rawType := rawType
  nullable := !(haveNeighbours .notWord .null modifiers || haveNeighbours .notWord .null others)
  primaryKey := haveNeighbours .primary .key modifiers || haveNeighbours .primary .key others
  references := (firstTarget? modifiers).or (firstTarget? others)

/-- An inert word says nothing about a column. -/
theorem columnWith_append_cons (hword : IsInert word)
    (hlast : ∀ w ∈ words.getLast?, Keyword.references.is w = false) (name rawType : Text)
    (others : List Text) : columnWith name rawType (words ++ word :: others) =
      columnAround name rawType words others := by
  rw [columnWith, haveNeighbours_append_cons (hword.is _) (hword.is _),
    haveNeighbours_append_cons (hword.is _) (hword.is _),
    firstTarget?_append_cons hlast (hword.is _), columnAround]

/-- Behind the type of a column an inert word makes no difference to the column. -/
theorem exists_column?_append_cons {name rawType : Text}
    (hlast : ∀ w ∈ (rawType :: words).getLast?, Keyword.references.is w = false)
    (others : List Text) : ∃ column, ∀ word, IsInert word →
      column? (name :: rawType :: (words ++ word :: others)) = some column := by
  obtain ⟨type, modifiers, hsplit, hcolumn⟩ := exists_column?_append name rawType words
  have hmodifiers : ∀ w ∈ modifiers.getLast?, Keyword.references.is w = false := by
    intro w hw
    refine hlast w ?_
    obtain rfl | ⟨parameters, rfl⟩ := hsplit
    · rw [List.getLast?_cons, hw]
      rfl
    · rw [List.getLast?_cons_cons, List.getLast?_cons, hw]
      rfl
  refine ⟨columnAround name type modifiers others, fun word hword => ?_⟩
  rw [hcolumn word others hword.head?, columnWith_append_cons hword hmodifiers]

/-- Declarations that break off behind a word of a column, or of something that is ignored. The
first word is the name, the second one the type. -/
structure EndsInModifiers (line : Text) : Prop where
  length : 2 ≤ line.words.length
  head : ∀ w ∈ line.words.head?, ∀ k ∈ [Keyword.primary, .foreign, .constraint],
    k.is w.beforeGroup = false
  last : ∀ w ∈ line.words.getLast?, Keyword.references.is w = false
  blank : line.getLast?.any isBlank = true

theorem EndsInModifiers.not_isGap (h : EndsInModifiers line) : ¬ Text.IsGap line := by
  intro hgap
  have hwords := Text.words_gap_append hgap []
  have hlength := h.length
  rw [List.append_nil] at hwords
  rw [hwords] at hlength
  exact absurd hlength (by decide)

/-- Such words declare the same with any inert word behind them. -/
theorem EndsInModifiers.exists_ofWords? (h : EndsInModifiers line) (others : List Text) :
    ∃ declaration, ∀ word, IsInert word →
      ofWords? (line.words ++ word :: others) = some declaration := by
  obtain ⟨name, rawType, rest, hwords⟩ : ∃ name rawType rest,
      line.words = name :: rawType :: rest := by
    match hwords : line.words, h.length with
    | name :: rawType :: rest, _ => exact ⟨name, rawType, rest, rfl⟩
  have hhead := h.head
  have hlast := h.last
  rw [hwords] at hhead hlast
  have hprimary := hhead name rfl .primary (by decide)
  have hforeign := hhead name rfl .foreign (by decide)
  have hconstraint := hhead name rfl .constraint (by decide)
  rw [List.getLast?_cons_cons] at hlast
  obtain ⟨column, hcolumn⟩ : ∃ column, ∀ word, IsInert word →
      column? (name :: rawType :: (rest ++ word :: others)) = some column :=
    exists_column?_append_cons hlast others
  cases hignored : [Keyword.key, .unique, .index, .fulltext, .spatial, .check].any
      (·.is name.beforeGroup) with
  | true =>
      refine ⟨.ignored, fun word _ => ?_⟩
      rw [hwords, List.cons_append, ofWords?]
      simp only [hprimary, hforeign, hconstraint, hignored, Bool.false_eq_true, if_false, if_true]
  | false =>
      refine ⟨.column column, fun word hword => ?_⟩
      have hinert := hcolumn word hword
      rw [hwords, List.cons_append, List.cons_append, ofWords?]
      simp only [hprimary, hforeign, hconstraint, hignored, Bool.false_eq_true, if_false, hinert,
        Option.map_some]

/-- A declaration that goes on with a literal and then with a blank, or ends there, is the same
whatever the literal holds. -/
theorem EndsInModifiers.ofText_eq (h : EndsInModifiers line) (hopen : top.afterText line = top)
    (hpart : part = [] ∨ part.startsBlank = true) (hcontents : '\'' ∉ contents)
    (hother : '\'' ∉ other) :
    ofText (Text.trim (line ++ (literal contents ++ part))) =
      ofText (Text.trim (line ++ (literal other ++ part))) := by
  obtain ⟨g, hg, hsplit⟩ := Text.exists_gap_append_trimStart line
  have hwords : line.trimStart.words = line.words := by
    conv => rhs; rw [hsplit, Text.words_gap_append hg]
  have hline := h.not_isGap
  have hblank : line.trimStart.getLast?.any isBlank = true := by
    have hne : line.trimStart ≠ [] := fun hnil => hline (List.dropWhile_eq_nil_iff.1 hnil)
    have hlast := h.blank
    rwa [hsplit, List.getLast?_append_of_ne_nil _ hne] at hlast
  have htop : top.afterText line.trimStart = top := by
    rwa [hsplit, afterText_append, after_of_isGap hg rfl] at hopen
  have hend : part.trimEnd = [] ∨ part.trimEnd.startsBlank = true := by
    obtain ⟨g', -, hpart'⟩ := Text.exists_trimEnd_append_gap part
    cases htrim : part.trimEnd with
    | nil => exact .inl rfl
    | cons c rest =>
        rw [htrim] at hpart'
        rw [hpart'] at hpart
        exact .inr (hpart.resolve_left (List.cons_ne_nil c _))
  obtain ⟨declaration, hsame⟩ := h.exists_ofWords? part.trimEnd.words
  have hliteral : ∀ contents : Text, '\'' ∉ contents →
      ofText (Text.trim (line ++ (literal contents ++ part))) = declaration := by
    intro contents hcontents
    rw [Text.trim_append_literal hline, ofText, Text.words_append_uncut htop hblank
      (uncut_literal hcontents isBlank) (List.cons_ne_nil _ _) hend, hwords,
      hsame _ (isInert_literal contents)]
    rfl
  rw [hliteral contents hcontents, hliteral other hother]

end Declaration
end DdlDiagram
