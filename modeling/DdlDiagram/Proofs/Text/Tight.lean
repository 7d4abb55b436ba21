import DdlDiagram.Proofs.Text.Prepend
import DdlDiagram.Proofs.Text.Trim

/-!
# Tight texts

A tight text is not empty and has no blank at either end, so trimming keeps it. What stands between
two tight texts does not matter for that.
-/

namespace DdlDiagram
namespace Text

variable {s t : Text} {c : Char}

/-- A text with something in it that neither starts nor ends in a blank. -/
structure IsTight (t : Text) : Prop where
  ne_nil : t ≠ []
  startsBlank : t.startsBlank = false
  trimEnd : t.trimEnd = t

theorem IsTight.trim_eq (h : IsTight t) : t.trim = t := by
  rw [trim, trimStart_of_startsBlank_eq_false h.startsBlank, h.trimEnd]

theorem IsTight.not_isGap (h : IsTight t) : ¬ IsGap t := by
  intro hgap
  exact h.ne_nil (h.trimEnd.symm.trans hgap.trimEnd)

theorem startsBlank_append (hne : s ≠ []) (t : Text) : (s ++ t).startsBlank = s.startsBlank := by
  rw [startsBlank_eq_head?, startsBlank_eq_head?, List.head?_append_of_ne_nil _ hne]

/-- What stands between two tight texts does not matter. -/
theorem IsTight.append (hs : IsTight s) (u : Text) (ht : IsTight t) : IsTight (s ++ u ++ t) where
  ne_nil := by simp [hs.ne_nil]
  startsBlank := by rw [List.append_assoc, startsBlank_append hs.ne_nil, hs.startsBlank]
  trimEnd := by rw [trimEnd_append_of_not_isGap _ ht.not_isGap, ht.trimEnd]

theorem isTight_singleton (hc : isBlank c = false) : IsTight [c] where
  ne_nil := List.cons_ne_nil c []
  startsBlank := hc
  trimEnd := trimEnd_cons_of_not_isBlank hc []

theorem IsTight.parenthesized (ht : IsTight t) (s : Text) :
    IsTight (t ++ '(' :: (s ++ [')'])) := by
  have h := ht.append ('(' :: s) (isTight_singleton (c := ')') rfl)
  rwa [List.append_assoc, List.cons_append] at h

theorem IsTight.join {sep : Text} {ts : List Text} (hne : ts ≠ []) (hts : ∀ t ∈ ts, IsTight t) :
    IsTight (Text.join sep ts) := by
  induction ts with
  | nil => exact absurd rfl hne
  | cons t others ih =>
      obtain ⟨ht, hothers⟩ := List.forall_mem_cons.1 hts
      by_cases hrest : others = []
      · rw [hrest]
        exact ht
      · rw [join_cons_of_ne_nil hrest]
        exact ht.append sep (ih hrest hothers)

end Text
end DdlDiagram
