import DdlDiagram.Nesting.Group
import DdlDiagram.Proofs.Respaced.Names

/-!
# Texts with blanks behind them

A reader that skips blanks wherever it needs nothing else reads a text and the same text with a
gap behind it alike: it finds the same, and leaves a rest with that gap behind it.
-/

namespace DdlDiagram
namespace Text

/-- The second text is the first one with a gap behind it. -/
def Padded (t t' : Text) : Prop := ∃ g, IsGap g ∧ t' = t ++ g

variable {t t' g : Text} {p : Char → Bool} {sep : Char}

theorem Padded.refl (t : Text) : Padded t t := ⟨[], isGap_nil, (List.append_nil t).symm⟩

theorem IsGap.padded (hg : IsGap g) (t : Text) : Padded t (t ++ g) := ⟨g, hg, rfl⟩

/-- The padding goes with the rest behind a run that holds all blanks, unless nothing is left. -/
theorem dropWhile_append_gap (hp : ∀ c, isBlank c = true → p c = true) (hg : IsGap g) (t : Text) :
    (t ++ g).dropWhile p = if t.dropWhile p = [] then [] else t.dropWhile p ++ g := by
  have hgap : g.dropWhile p = [] := List.dropWhile_eq_nil_iff.2 fun c hc => hp c (hg c hc)
  rw [List.dropWhile_append, hgap]
  simp only [List.isEmpty_iff]

theorem Padded.dropWhile (h : Padded t t') (hp : ∀ c, isBlank c = true → p c = true) :
    Padded (t.dropWhile p) (t'.dropWhile p) ∧ (t'.dropWhile p = [] ↔ t.dropWhile p = []) := by
  obtain ⟨g, hg, rfl⟩ := h
  rw [dropWhile_append_gap hp hg]
  split
  · rename_i hnil
    rw [hnil]
    exact ⟨.refl [], Iff.rfl⟩
  · rename_i hne
    exact ⟨hg.padded _, by simp [hne]⟩

theorem Padded.trimStart (h : Padded t t') : Padded t.trimStart t'.trimStart :=
  (h.dropWhile fun _ hc => hc).1

theorem Padded.trim_eq (h : Padded t t') : t'.trim = t.trim := by
  obtain ⟨g, hg, heq⟩ := h.trimStart
  rw [Text.trim, heq, hg.trimEnd_append, Text.trim]

/-- A run stops in front of a text that does not go on with it. -/
theorem run_append {v : Text} (hv : ∀ c, v.head? = some c → p c = false) (t : Text) :
    (t ++ v).takeWhile p = t.takeWhile p ∧ (t ++ v).dropWhile p = t.dropWhile p ++ v := by
  induction t with
  | nil =>
      cases v with
      | nil => exact ⟨rfl, rfl⟩
      | cons c rest => simp [hv c rfl]
  | cons c rest ih =>
      cases hc : p c with
      | true => simpa [hc] using ih
      | false => simp [hc]

theorem IsGap.head?_eq_false (hg : IsGap g) (hp : ∀ c, isBlank c = true → p c = false) :
    ∀ c, g.head? = some c → p c = false :=
  fun c hc => hp c (hg c (List.mem_of_mem_head? hc))

/-- A run that holds no blank stops in front of the padding. -/
theorem Padded.run (h : Padded t t') (hp : ∀ c, isBlank c = true → p c = false) :
    t'.takeWhile p = t.takeWhile p ∧ Padded (t.dropWhile p) (t'.dropWhile p) := by
  obtain ⟨g, hg, rfl⟩ := h
  obtain ⟨htake, hdrop⟩ := run_append (hg.head?_eq_false hp) t
  exact ⟨htake, g, hg, hdrop⟩

/-- The same character splits both texts first, if it is not blank. -/
theorem Padded.splitOnce (h : Padded t t') (hsep : isBlank sep = false) :
    Option.Rel (fun x y => y.1 = x.1 ∧ Padded x.2 y.2) (Text.splitOnce sep t)
      (Text.splitOnce sep t') := by
  obtain ⟨g, hg, rfl⟩ := h
  induction t with
  | nil =>
      rw [List.nil_append, hg.splitOnce hsep]
      exact .none
  | cons c rest ih =>
      rw [List.cons_append, Text.splitOnce, Text.splitOnce]
      split
      · exact .some ⟨rfl, hg.padded rest⟩
      · exact ih.map fun x y hxy => ⟨congrArg (c :: ·) hxy.1, hxy.2⟩

/-- A group that closes does so in front of the padding. -/
theorem Padded.upToClose (h : Padded t t') (s : Nesting) : s.upToClose t' = s.upToClose t := by
  obtain ⟨g, hg, rfl⟩ := h
  induction t generalizing s with
  | nil => exact hg.upToClose s
  | cons c rest ih => rw [List.cons_append, Nesting.upToClose, Nesting.upToClose, ih]

theorem Padded.groupBody? (h : Padded t t') : t'.groupBody? = t.groupBody? := by
  obtain ⟨g, hg, rfl⟩ := h
  cases t with
  | nil =>
      cases g with
      | nil => rfl
      | cons c rest =>
          refine if_neg ?_
          rintro rfl
          exact absurd (isGap_cons.1 hg).1 (by decide)
  | cons c rest =>
      rw [List.cons_append, Text.groupBody?, Text.groupBody?, (hg.padded rest).upToClose]

end Text
end DdlDiagram
