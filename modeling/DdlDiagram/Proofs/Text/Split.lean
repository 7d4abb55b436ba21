import DdlDiagram.Proofs.Text.Prepend

/-!
# Texts split at characters

A text is split at the first occurrence of a character, so the two parts are known from the text:
the character does not stand in the part before. A split at all occurrences gives parts that have
none, and the parts give the text back.
-/

namespace DdlDiagram
namespace Text

variable {t u v w : Text} {sep : Char} {cut : Char → Bool}

theorem splitOnce_append (hsep : sep ∉ t) (u : Text) :
    splitOnce sep (t ++ sep :: u) = some (t, u) := by
  induction t with
  | nil => simp [splitOnce]
  | cons c rest ih =>
      rw [List.mem_cons, not_or] at hsep
      rw [List.cons_append, splitOnce, if_neg (Ne.symm hsep.1), ih hsep.2]
      rfl

theorem not_mem_of_splitOnce {x : Text × Text} (h : splitOnce sep t = some x) : sep ∉ x.1 := by
  induction t generalizing x with
  | nil => exact nomatch h
  | cons c rest ih =>
      rw [splitOnce] at h
      split at h
      · obtain rfl := Option.some.inj h
        exact List.not_mem_nil
      · rename_i hne
        obtain ⟨y, hy, rfl⟩ := Option.map_eq_some_iff.1 h
        exact List.not_mem_cons_of_ne_of_not_mem (Ne.symm hne) (ih hy)

/-- A text without a cut goes to the part it stands in front of. -/
theorem splitAll_append (ht : ∀ c ∈ t, cut c = false) (u : Text) :
    splitAll cut (t ++ u) = prepend t (splitAll cut u) := by
  induction t with
  | nil => rfl
  | cons c rest ih =>
      obtain ⟨hc, hrest⟩ := List.forall_mem_cons.1 ht
      rw [List.cons_append, splitAll, if_neg (by simp [hc]), ih hrest]
      rfl

theorem splitAll_ne_nil (cut : Char → Bool) (t : Text) : splitAll cut t ≠ [] := by
  cases t with
  | nil => exact List.cons_ne_nil [] []
  | cons c rest =>
      rw [splitAll]
      split
      · exact List.cons_ne_nil _ _
      · exact consHead_ne_nil c _

/-- A part holds no other characters than the text. -/
theorem subset_of_mem_splitAll (h : u ∈ splitAll cut t) : u ⊆ t := by
  induction t generalizing u with
  | nil =>
      obtain rfl := List.mem_singleton.1 h
      exact List.nil_subset []
  | cons c rest ih =>
      have hsub : ∀ {u}, u ∈ splitAll cut rest → u ⊆ c :: rest := fun hu =>
        List.subset_cons_of_subset c (ih hu)
      rw [splitAll] at h
      split at h
      · rcases List.mem_cons.1 h with rfl | hmem
        · exact List.nil_subset _
        · exact hsub hmem
      · cases hparts : splitAll cut rest with
        | nil => exact absurd hparts (splitAll_ne_nil cut rest)
        | cons first others =>
            rw [hparts] at h hsub
            rcases List.mem_cons.1 h with rfl | hmem
            · exact List.cons_subset_cons c (ih (hparts ▸ List.mem_cons_self))
            · exact hsub (List.mem_cons_of_mem first hmem)

end Text
end DdlDiagram
