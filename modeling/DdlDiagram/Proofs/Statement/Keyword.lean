import DdlDiagram.Keyword
import DdlDiagram.Proofs.Text.IdentifierChar

/-!
# Keywords at the start of a text

Whether a text starts with a keyword is decided by the bare word it starts with, as a whole.
-/

namespace DdlDiagram
namespace Keyword

variable {k : Keyword} {t u w : Text}

theorem isIdentifierChar_toLower (k : Keyword) :
    ∀ c ∈ k.spelling, isIdentifierChar c.toLower = true := by
  refine List.all_eq_true.1 ?_
  cases k <;> decide

/-- Only letters have another case. -/
theorem isIdentifierChar_of_toLower {c : Char} (h : isIdentifierChar c.toLower = true) :
    isIdentifierChar c = true := by
  unfold Char.toLower at h
  split at h
  · rename_i hupper
    apply isIdentifierChar_of_isAlphanum
    exact isAlphanum_iff.2 (.inl (.inl hupper))
  · exact h

theorem length_of_is (h : k.is t = true) : t.length = k.spelling.length := by
  simp only [is, Text.eqIgnoreCase, beq_iff_eq] at h
  simpa using congrArg List.length h

/-- A bare word is bare in every case. -/
theorem isBare_of_eqIgnoreCase (h : t.eqIgnoreCase u = true)
    (hu : ∀ c ∈ u, isIdentifierChar c.toLower = true) : t.IsBare := by
  rw [Text.eqIgnoreCase, beq_iff_eq] at h
  intro c hc
  have hmem : c.toLower ∈ u.map Char.toLower := h ▸ List.mem_map_of_mem hc
  obtain ⟨d, hd, heq⟩ := List.mem_map.1 hmem
  exact isIdentifierChar_of_toLower (heq ▸ hu d hd)

/-- A keyword is a bare word in every case. -/
theorem isBare_of_is (h : k.is t = true) : t.IsBare :=
  isBare_of_eqIgnoreCase h (isIdentifierChar_toLower k)

/-- A text with any other character in it is no keyword. -/
theorem is_eq_false_of_mem (k : Keyword) {c : Char} (hc : c ∈ t) (h : isIdentifierChar c = false) :
    k.is t = false := by
  by_contra his
  have hbare := isBare_of_is (Bool.not_eq_false _ ▸ his) c hc
  rw [h] at hbare
  exact Bool.false_ne_true hbare

theorem ne_nil_of_is (h : k.is t = true) : t ≠ [] := by
  rintro rfl
  have hpos : 0 < k.spelling.length := by cases k <;> decide
  exact absurd (length_of_is h) (Nat.ne_of_lt hpos)

/-- Texts that differ in case only are the same keywords. -/
theorem is_congr (h : t.eqIgnoreCase u = true) (k : Keyword) : k.is t = k.is u := by
  rw [Text.eqIgnoreCase, beq_iff_eq] at h
  rw [is, is, Text.eqIgnoreCase, Text.eqIgnoreCase, h]

/-- No keyword has a digit in it. -/
theorem is_eq_false_of_isDigit (k : Keyword) {c : Char} (hc : c ∈ t) (h : c.isDigit = true) :
    k.is t = false := by
  have hletters : k.spelling.all (!·.toLower.isDigit) = true := by cases k <;> decide
  have hlower : c.toLower = c := by
    rw [Char.isDigit, Bool.and_eq_true, decide_eq_true_eq, decide_eq_true_eq] at h
    refine dif_neg fun hupper => ?_
    exact absurd (Nat.le_trans (UInt32.le_iff_toNat_le.1 hupper.1) (UInt32.le_iff_toNat_le.1 h.2))
      (by decide)
  by_contra his
  rw [Bool.not_eq_false, is, Text.eqIgnoreCase, beq_iff_eq] at his
  have hmem : c.toLower ∈ k.spelling.map Char.toLower := his ▸ List.mem_map_of_mem hc
  obtain ⟨d, hd, heq⟩ := List.mem_map.1 hmem
  have hdigit := List.all_eq_true.1 hletters d hd
  rw [heq, hlower, h] at hdigit
  cases hdigit

/-- A text is at most one keyword. -/
theorem is_eq_false_of_is {k' : Keyword} (h : k.is t = true)
    (hne : k.spelling.map Char.toLower ≠ k'.spelling.map Char.toLower) : k'.is t = false := by
  rw [is, Text.eqIgnoreCase, beq_iff_eq] at h
  rwa [is, Text.eqIgnoreCase, beq_eq_false_iff_ne, h]

theorem strip?_eq_some_iff : k.strip? t = some u ↔
    ∃ w, t = w ++ u ∧ k.is w = true ∧ u.startsIdentifier = false := by
  simp only [strip?, Option.ite_none_right_eq_some, Bool.and_eq_true, Bool.not_eq_true',
    Option.some.injEq]
  constructor
  · rintro ⟨⟨hword, hend⟩, rfl⟩
    exact ⟨_, (List.take_append_drop _ t).symm, hword, hend⟩
  · rintro ⟨w, rfl, hword, hend⟩
    rw [← length_of_is hword, List.take_left, List.drop_left]
    exact ⟨⟨hword, hend⟩, rfl⟩

theorem strip?_eq (k : Keyword) (t : Text) :
    k.strip? t = if k.is (t.takeWhile isIdentifierChar) = true then
      some (t.dropWhile isIdentifierChar) else none := by
  have hsplit : t.takeWhile isIdentifierChar ++ t.dropWhile isIdentifierChar = t :=
    List.takeWhile_append_dropWhile
  have hend := Text.startsIdentifier_dropWhile t
  cases hstrip : k.strip? t with
  | some u =>
      obtain ⟨w, rfl, hword, hu⟩ := strip?_eq_some_iff.1 hstrip
      rw [(isBare_of_is hword).takeWhile_append hu, if_pos hword,
        (isBare_of_is hword).dropWhile_append hu]
  | none =>
      split
      · rename_i hword
        have hsome := strip?_eq_some_iff.2 ⟨_, hsplit.symm, hword, hend⟩
        rw [hstrip] at hsome
        exact hsome
      · rfl

/-- A bare word that no identifier character follows is stripped if it is the keyword. -/
theorem strip?_append (hw : w.IsBare) (hu : u.startsIdentifier = false) :
    k.strip? (w ++ u) = if k.is w = true then some u else none := by
  rw [strip?_eq, hw.takeWhile_append hu, hw.dropWhile_append hu]

/-- No keyword starts where no bare word does. -/
theorem strip?_of_startsIdentifier (k : Keyword) (h : t.startsIdentifier = false) :
    k.strip? t = none := by
  rw [← List.nil_append t, strip?_append (fun c hc => absurd hc List.not_mem_nil) h, if_neg]
  intro hnil
  exact ne_nil_of_is hnil rfl

end Keyword
end DdlDiagram
