import DdlDiagram.Proofs.Nesting.Uncut
import DdlDiagram.Proofs.Statement.Keyword

/-!
# Spellings of identifiers

An identifier can be written bare or between a pair of quoting characters. Reading any of its
spellings gives the identifier back. A scan passes over a bare spelling, and over one in backticks
or double quotes whatever they hold; square brackets are quotes only for the reader of an
identifier, so what they hold is open to every scan.
-/

namespace DdlDiagram

open Nesting

/-- The closing character is the opening one, or the bracket that belongs to it. -/
theorem isQuote_or_bracket {c close : Char} (h : closingQuote? c = some close) :
    (isQuote c = true ∧ close = c) ∨ (c = '[' ∧ close = ']') := by
  rw [closingQuote?] at h
  repeat' split at h
  · rename_i hc
    exact .inl ⟨hc ▸ rfl, by rw [hc, ← Option.some.inj h]⟩
  · rename_i hc
    exact .inl ⟨hc ▸ rfl, by rw [hc, ← Option.some.inj h]⟩
  · rename_i hc
    exact .inr ⟨hc, (Option.some.inj h).symm⟩
  · exact nomatch h

/-- Neither quoting character of an identifier is blank. -/
theorem isBlank_of_closingQuote? {c close : Char} (h : closingQuote? c = some close) :
    isBlank c = false ∧ isBlank close = false := by
  obtain ⟨hquote, rfl⟩ | ⟨rfl, rfl⟩ := isQuote_or_bracket h
  · simp only [isQuote, Bool.or_eq_true, beq_iff_eq] at hquote
    rcases hquote with (rfl | rfl) | rfl <;> exact ⟨rfl, rfl⟩
  · exact ⟨rfl, rfl⟩

/-- Quoting characters stand in no bare identifier. -/
theorem isIdentifierChar_of_closingQuote? {c close : Char} (h : closingQuote? c = some close) :
    isIdentifierChar c = false ∧ isIdentifierChar close = false := by
  obtain ⟨hquote, rfl⟩ | ⟨rfl, rfl⟩ := isQuote_or_bracket h
  · have hc : isIdentifierChar close = false := by
      by_contra hc
      rw [isQuote_eq_false_of_isIdentifierChar (Bool.not_eq_false _ ▸ hc)] at hquote
      exact Bool.false_ne_true hquote
    exact ⟨hc, hc⟩
  · exact ⟨by decide, by decide⟩

namespace Text

variable {t : Text} {c : Char}

/-- A text is kept before its group if it has none, and else cut at its first parenthesis. -/
theorem beforeGroup_cases (t : Text) : (t.group? = none ∧ t.beforeGroup = t) ∨
    (t.group? ≠ none ∧ '(' ∈ t ∧ t.beforeGroup = trimEnd (t.takeWhile (· != '('))) := by
  by_cases h : '(' ∈ t
  · rw [group?, beforeGroup, splitGroup]
    split
    · exact .inr ⟨Option.some_ne_none _, h, rfl⟩
    · exact .inl ⟨rfl, rfl⟩
  · rw [group?, beforeGroup, splitGroup_of_not_mem h]
    exact .inl ⟨rfl, rfl⟩

/-- Reading an identifier only takes characters away. -/
theorem mem_of_mem_unquote (h : c ∈ t.unquote) : c ∈ t := by
  have htrim : ∀ c ∈ t.trim, c ∈ t :=
    fun c hc => (List.dropWhile_sublist _).subset (mem_of_mem_trimEnd hc)
  apply htrim
  rw [unquote] at h
  split at h
  · exact nomatch h
  · rename_i first rest heq
    rw [heq]
    split at h
    · split at h
      · exact List.mem_cons_of_mem _ ((List.dropLast_sublist rest).subset h)
      · exact h
    · exact h

end Text

namespace Text.IsBare

variable {t : Text}

theorem not_mem (h : t.IsBare) {mark : Char} (hmark : isIdentifierChar mark = false) : mark ∉ t :=
  fun hc => ne_of_isIdentifierChar (h mark hc) hmark rfl

theorem uncut (h : t.IsBare) {cut : Char → Bool}
    (hcut : ∀ c, isIdentifierChar c = true → cut c = false) : Uncut cut t := by
  refine .of_forall fun c hc => ⟨?_, ?_, ?_, hcut c (h c hc)⟩
  · exact isQuote_eq_false_of_isIdentifierChar (h c hc)
  · exact ne_of_isIdentifierChar (h c hc) (by decide)
  · exact ne_of_isIdentifierChar (h c hc) (by decide)

theorem isTight (h : t.IsBare) (hne : t ≠ []) : t.IsTight := by
  have hblank : ∀ c ∈ t, isBlank c = false :=
    fun c hc => isBlank_eq_false_of_isIdentifierChar (h c hc)
  refine ⟨hne, ?_, ?_⟩
  · cases t with
    | nil => rfl
    | cons c rest => exact hblank c List.mem_cons_self
  · rw [trimEnd_eq_self_iff]
    exact fun c hc => hblank c (List.mem_of_getLast? hc)

theorem closingQuote?_of_mem (h : t.IsBare) {c : Char} (hc : c ∈ t) : closingQuote? c = none := by
  by_contra hsome
  obtain ⟨close, hclose⟩ := Option.ne_none_iff_exists'.1 hsome
  exact absurd (h c hc) (by simp [(isIdentifierChar_of_closingQuote? hclose).1])

theorem unquote_eq (h : t.IsBare) (hne : t ≠ []) : t.unquote = t := by
  rw [unquote, (h.isTight hne).trim_eq]
  cases t with
  | nil => rfl
  | cons first rest => simp only [h.closingQuote?_of_mem List.mem_cons_self]

theorem beforeGroup_eq (h : t.IsBare) : t.beforeGroup = t := by
  rw [beforeGroup, splitGroup_of_not_mem (h.not_mem (by decide))]

end Text.IsBare

/-- The ways to write an identifier: `Spells t name` says that `t` is one of them for `name`. -/
inductive Spells : Text → Text → Prop where
  | bare {name : Text} : name ≠ [] → name.IsBare → Spells name name
  | quoted {c close : Char} {name : Text} : closingQuote? c = some close → name ≠ [] →
      close ∉ name → Spells (c :: (name ++ [close])) name

namespace Spells

variable {t name : Text}

theorem ne_nil (h : Spells t name) : name ≠ [] := by
  cases h with
  | bare hne _ => exact hne
  | quoted _ hne _ => exact hne

theorem isTight (h : Spells t name) : t.IsTight := by
  cases h with
  | bare hne hbare => exact hbare.isTight hne
  | @quoted c close name hclose _ _ =>
      have hblank := isBlank_of_closingQuote? hclose
      exact (Text.isTight_singleton hblank.1).append name (Text.isTight_singleton hblank.2)

/-- Reading a spelling gives the identifier. -/
theorem unquote_eq (h : Spells t name) : t.unquote = name := by
  have htrim := h.isTight.trim_eq
  cases h with
  | bare hne hbare => exact hbare.unquote_eq hne
  | quoted hclose _ _ =>
      rw [Text.unquote, htrim]
      simp [hclose]

/-- Blanks around a spelling are not part of it. -/
theorem unquote_append (h : Spells t name) {g : Text} (hg : g.IsGap) :
    (g ++ t).unquote = name := by
  have htrim : (g ++ t).trim = t.trim := by rw [Text.trim, hg.trimStart_append, Text.trim]
  rw [Text.unquote, htrim, ← Text.unquote, h.unquote_eq]

/-- The part of a spelling before a group is no keyword, unless the whole is one. -/
theorem not_is_beforeGroup (h : Spells t name) {k : Keyword} (ht : k.is t = false) :
    k.is t.beforeGroup = false := by
  obtain ⟨-, hbefore⟩ | ⟨-, -, hbefore⟩ := t.beforeGroup_cases
  · rwa [hbefore]
  · cases h with
    | bare _ hbare => rwa [hbare.beforeGroup_eq]
    | @quoted c close name hclose _ _ =>
        have hc : (c != '(') = true := by
          rw [bne_iff_ne]
          rintro rfl
          exact nomatch hclose
        have hhead : (c :: (name ++ [close])).takeWhile (· != '(') =
            c :: (name ++ [close]).takeWhile (· != '(') := List.takeWhile_cons_of_pos hc
        by_contra his
        rw [hbefore, hhead,
          Text.trimEnd_cons_of_not_isBlank (isBlank_of_closingQuote? hclose).1] at his
        have hbare := Keyword.isBare_of_is (Bool.not_eq_false _ ▸ his) c List.mem_cons_self
        rw [(isIdentifierChar_of_closingQuote? hclose).1] at hbare
        exact Bool.false_ne_true hbare

/-- A mark that is no quoting character stands in a spelling only if it stands in the name. -/
theorem mem_of_mem (h : Spells t name) {mark : Char} (hmark : mark ∈ t)
    (hopen : closingQuote? mark = none) (hclose : mark ≠ ']') : mark ∈ name := by
  cases h with
  | bare _ _ => exact hmark
  | @quoted c close name hquote _ _ =>
      have hne : mark ≠ c := by
        rintro rfl
        rw [hopen] at hquote
        exact nomatch hquote
      have hne' : mark ≠ close := by
        obtain ⟨-, rfl⟩ | ⟨-, rfl⟩ := isQuote_or_bracket hquote
        · exact hne
        · exact hclose
      simpa [hne, hne'] using hmark

/-- Reading a spelling up to its group gives the identifier only if there is no group. -/
theorem unquote_beforeGroup_eq_iff (h : Spells t name) :
    t.beforeGroup.unquote = name ↔ t.group? = none := by
  obtain ⟨hgroup, hbefore⟩ | ⟨hgroup, hopen, hbefore⟩ := t.beforeGroup_cases
  · rw [hbefore, h.unquote_eq]
    exact iff_of_true rfl hgroup
  · refine iff_of_false (fun hname => ?_) hgroup
    have hmem : '(' ∈ t.beforeGroup.unquote := by
      rw [hname]
      exact h.mem_of_mem hopen (by decide) (by decide)
    rw [hbefore] at hmem
    have htake := List.mem_takeWhile_imp (Text.mem_of_mem_trimEnd (Text.mem_of_mem_unquote hmem))
    exact absurd rfl (bne_iff_ne.1 htake)

/-- As the only entry of a list a spelling gives the identifier only if it has no group. -/
theorem identifiers_eq_iff (h : Spells t name) (huncut : Uncut (· == ',') t) :
    t.identifiers = [name] ↔ t.group? = none := by
  have hparts : t.partsBetween ',' = [t] := huncut.pieces_eq (by decide)
  rw [← h.unquote_beforeGroup_eq_iff, Text.identifiers, hparts, List.map_singleton,
    h.isTight.trim_eq]
  cases hread : t.beforeGroup.unquote with
  | nil => simpa using h.ne_nil.symm
  | cons c rest => simp

/-- No scan makes a cut in a spelling without brackets. -/
theorem uncut (h : Spells t name) {cut : Char → Bool}
    (hcut : ∀ c, isIdentifierChar c = true → cut c = false) (hbracket : t.head? ≠ some '[') :
    Uncut cut t := by
  cases h with
  | bare _ hbare => exact hbare.uncut hcut
  | @quoted c close name hclose _ hname =>
      obtain ⟨hquote, rfl⟩ | ⟨rfl, -⟩ := isQuote_or_bracket hclose
      · exact .run hquote hname (.nil cut)
      · exact absurd rfl hbracket

theorem uncut_of_bracket (h : Spells t name) {cut : Char → Bool}
    (hcut : ∀ c, isIdentifierChar c = true → cut c = false)
    (hbracket : t.head? = some '[' → Uncut cut t) : Uncut cut t := by
  by_cases hopen : t.head? = some '['
  · exact hbracket hopen
  · exact h.uncut hcut hopen

end Spells
end DdlDiagram
