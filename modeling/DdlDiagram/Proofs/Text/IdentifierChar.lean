import DdlDiagram.Identifier
import DdlDiagram.Proofs.Text.Trim

/-!
# Identifier characters

In every script, an identifier character is neither blank nor one of the marks that the readers
look for, such as quotes, parentheses and commas. So every scan for one of these passes over a
bare identifier. A text is bare if it consists of identifier characters.
-/

namespace DdlDiagram

/-- The two tables of code points have no range in common. -/
theorem alphanumericRanges_disjoint_blankRanges :
    (alphanumericRanges.all fun r => blankRanges.all fun b => r.2 < b.1 || b.2 < r.1) = true := by
  decide +kernel

theorem isBlank_eq_false_of_isAlphanum {c : Char} (h : c.isAlphanum = true) :
    isBlank c = false := by
  have hranges := isAlphanum_iff.1 h
  rw [isBlank, List.any_eq_false]
  intro b hb hblank
  simp only [Bool.and_eq_true, decide_eq_true_eq] at hblank
  simp only [blankRanges, List.mem_cons, List.not_mem_nil, or_false] at hb
  rcases hb with rfl | rfl | rfl | rfl | rfl | rfl | rfl | rfl | rfl | rfl <;>
    simp only at hblank <;> omega

theorem isBlank_eq_false_of_isAlphanumeric {c : Char} (h : isAlphanumeric c = true) :
    isBlank c = false := by
  unfold isAlphanumeric at h
  split at h
  · exact isBlank_eq_false_of_isAlphanum h
  · obtain ⟨r, hr, hc⟩ := List.any_eq_true.1 h
    rw [isBlank, List.any_eq_false]
    intro b hb hblank
    have hapart := List.all_eq_true.1
      (List.all_eq_true.1 alphanumericRanges_disjoint_blankRanges r hr) b hb
    simp only [Bool.and_eq_true, Bool.or_eq_true, decide_eq_true_eq] at hc hblank hapart
    omega

/-- No identifier character is blank. -/
theorem isBlank_eq_false_of_isIdentifierChar {c : Char} (h : isIdentifierChar c = true) :
    isBlank c = false := by
  simp only [isIdentifierChar, Bool.or_eq_true, beq_iff_eq] at h
  rcases h with (h | rfl) | rfl
  · exact isBlank_eq_false_of_isAlphanumeric h
  · decide
  · decide

theorem isIdentifierChar_eq_false_of_isBlank {c : Char} (h : isBlank c = true) :
    isIdentifierChar c = false := by
  by_contra hc
  rw [isBlank_eq_false_of_isIdentifierChar (Bool.not_eq_false _ ▸ hc)] at h
  exact absurd h Bool.false_ne_true

/-- No identifier character is a quote. -/
theorem isQuote_eq_false_of_isIdentifierChar {c : Char} (h : isIdentifierChar c = true) :
    isQuote c = false := by
  by_contra hc
  simp only [isQuote, Bool.not_eq_false, Bool.or_eq_true, beq_iff_eq] at hc
  rcases hc with (rfl | rfl) | rfl <;> exact absurd h (by decide)

/-- An identifier character is none of the marks that are not. -/
theorem ne_of_isIdentifierChar {c : Char} (h : isIdentifierChar c = true) {mark : Char}
    (hmark : isIdentifierChar mark = false) : c ≠ mark := by
  rintro rfl
  rw [hmark] at h
  exact absurd h Bool.false_ne_true

namespace Text

def IsBare (t : Text) : Prop := ∀ c ∈ t, isIdentifierChar c = true

theorem head?_of_startsIdentifier {t : Text} (h : t.startsIdentifier = false) :
    ∀ c, t.head? = some c → isIdentifierChar c = false := by
  intro c hc
  cases t with
  | nil => simp at hc
  | cons d rest =>
      obtain rfl : d = c := by simpa using hc
      exact h

theorem IsGap.startsIdentifier_append {g t : Text} (hg : IsGap g)
    (h : g ≠ [] ∨ t.startsIdentifier = false) :
    Text.startsIdentifier (g ++ t) = false := by
  cases g with
  | nil => exact h.resolve_left fun hne => hne rfl
  | cons c rest => exact isIdentifierChar_eq_false_of_isBlank (isGap_cons.1 hg).1

theorem startsIdentifier_dropWhile (t : Text) :
    Text.startsIdentifier (t.dropWhile isIdentifierChar) = false := by
  induction t with
  | nil => rfl
  | cons c rest ih =>
      cases hc : isIdentifierChar c with
      | true =>
          rw [List.dropWhile_cons_of_pos hc]
          exact ih
      | false =>
          rw [List.dropWhile_cons_of_neg (by simp [hc])]
          exact hc

theorem IsBare.takeWhile_append {t u : Text} (ht : t.IsBare) (hu : u.startsIdentifier = false) :
    (t ++ u).takeWhile isIdentifierChar = t :=
  takeWhile_append_of_head? ht (head?_of_startsIdentifier hu)

theorem IsBare.dropWhile_append {t u : Text} (ht : t.IsBare) (hu : u.startsIdentifier = false) :
    (t ++ u).dropWhile isIdentifierChar = u :=
  dropWhile_append_of_head? ht (head?_of_startsIdentifier hu)

end Text

end DdlDiagram
