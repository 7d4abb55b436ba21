import DdlDiagram.Identifier
import DdlDiagram.Proofs.Respaced.Basic
import DdlDiagram.Proofs.Statement.Keyword

/-!
# Texts with carriage returns

Where lines end in a carriage return and a line feed, a text has a return in front of each of its
line feeds. What is left of it without comments has some feeds that lost theirs, so the relation of
two such texts asks for no more than this: the second one is the first one with returns in front of
some of its feeds. A scan that makes no difference between the two characters takes corresponding
parts of both texts.
-/

namespace DdlDiagram

/-- Two texts of which the first has no carriage returns, and the second has one in front of some
of its line feeds. -/
inductive Returned : Text → Text → Prop where
  | nil : Returned [] []
  | feed {t t' : Text} : Returned t t' → Returned ('\n' :: t) ('\r' :: '\n' :: t')
  | cons {c : Char} {t t' : Text} : c ≠ '\r' → Returned t t' → Returned (c :: t) (c :: t')

variable {s s' t t' u : Text} {c sep : Char} {p : Char → Bool}

namespace Text

/-- The text with a carriage return in front of every line feed. -/
def withReturns (t : Text) : Text := t.replaceChar '\n' "\r\n".toList

def withoutReturns (t : Text) : Text := t.filter (· != '\r')

theorem isGap_return_feed : IsGap ['\r', '\n'] := isGap_cons.2 ⟨by decide, isGap_feed⟩

theorem withReturns_append (s t : Text) :
    (s ++ t).withReturns = s.withReturns ++ t.withReturns := List.flatMap_append

theorem withReturns_cons (hc : c ≠ '\n') (t : Text) :
    withReturns (c :: t) = c :: t.withReturns := by
  simp [withReturns, replaceChar, hc]

theorem withReturns_of_not_mem (h : '\n' ∉ t) : t.withReturns = t := by
  induction t with
  | nil => rfl
  | cons c rest ih =>
      rw [List.mem_cons, not_or] at h
      rw [withReturns_cons (Ne.symm h.1), ih h.2]

end Text

namespace Returned

theorem refl (h : '\r' ∉ t) : Returned t t := by
  induction t with
  | nil => exact .nil
  | cons c rest ih =>
      rw [List.mem_cons, not_or] at h
      exact .cons (Ne.symm h.1) (ih h.2)

theorem append (hs : Returned s s') (ht : Returned t t') : Returned (s ++ t) (s' ++ t') := by
  induction hs with
  | nil => exact ht
  | feed _ ih => exact .feed ih
  | cons hc _ ih => exact .cons hc ih

/-- A cut in the first text is one in the second, in front of the return of a feed behind it. -/
theorem of_append (h : Returned (s ++ t) u) :
    ∃ s' t', u = s' ++ t' ∧ Returned s s' ∧ Returned t t' := by
  induction s generalizing u with
  | nil => exact ⟨[], u, rfl, .nil, h⟩
  | cons c rest ih =>
      cases h with
      | feed hrest =>
          obtain ⟨s', t', rfl, hs, ht⟩ := ih hrest
          exact ⟨'\r' :: '\n' :: s', t', rfl, .feed hs, ht⟩
      | cons hc hrest =>
          obtain ⟨s', t', rfl, hs, ht⟩ := ih hrest
          exact ⟨c :: s', t', rfl, .cons hc hs, ht⟩

theorem withoutReturns (h : Returned t t') : t'.withoutReturns = t := by
  induction h with
  | nil => rfl
  | feed _ ih => exact congrArg ('\n' :: ·) ih
  | cons hc _ ih => simpa [Text.withoutReturns, hc] using ih

theorem nil_iff (h : Returned t t') : t = [] ↔ t' = [] := by
  cases h <;> simp

theorem isEmpty_eq (h : Returned t t') : t'.isEmpty = t.isEmpty := by
  cases h <;> rfl

/-- Returns and feeds apart, both texts have the same characters. -/
theorem mem_iff (h : Returned t t') (hc : c ≠ '\r') : c ∈ t ↔ c ∈ t' := by
  induction h with
  | nil => exact Iff.rfl
  | feed _ ih => simp [ih, hc]
  | cons _ _ ih => simp [ih]

theorem eq_of_not_mem (h : Returned t t') (ht : '\n' ∉ t) : t' = t := by
  induction h with
  | nil => rfl
  | feed => simp at ht
  | cons _ _ ih => rw [ih fun hmem => ht (List.mem_cons_of_mem _ hmem)]

/-- A character that is no line feed ends one text if it ends the other. -/
theorem of_concat (h : Returned (s ++ [c]) u) (hc : c ≠ '\n') :
    ∃ s', u = s' ++ [c] ∧ Returned s s' := by
  obtain ⟨s', t', rfl, hs, ht⟩ := h.of_append
  have hlast : t' = [c] := ht.eq_of_not_mem (by simpa using Ne.symm hc)
  exact ⟨s', by rw [hlast], hs⟩

/-- A run that takes returns if it takes feeds ends at the same point in both texts. -/
theorem run (h : Returned t t') (hp : p '\r' = p '\n') :
    Returned (t.takeWhile p) (t'.takeWhile p) ∧ Returned (t.dropWhile p) (t'.dropWhile p) := by
  induction h with
  | nil => exact ⟨.nil, .nil⟩
  | feed hrest ih =>
      cases hfeed : p '\n' with
      | true => simpa [hp, hfeed] using ⟨Returned.feed ih.1, ih.2⟩
      | false => simpa [hp, hfeed] using ⟨Returned.nil, Returned.feed hrest⟩
  | @cons c t t' hc hrest ih =>
      cases htake : p c with
      | true => simpa [htake] using ⟨Returned.cons hc ih.1, ih.2⟩
      | false => simpa [htake] using ⟨Returned.nil, Returned.cons hc hrest⟩

/-- Both texts start with the same bare word. -/
theorem bareWord (h : Returned t t') :
    t'.takeWhile isIdentifierChar = t.takeWhile isIdentifierChar ∧
      Returned (t.dropWhile isIdentifierChar) (t'.dropWhile isIdentifierChar) := by
  obtain ⟨hword, hrest⟩ := h.run (p := isIdentifierChar) rfl
  refine ⟨hword.eq_of_not_mem fun hmem => ?_, hrest⟩
  exact absurd (List.mem_takeWhile_imp hmem) (by decide)

theorem trimStart (h : Returned t t') : Returned t.trimStart t'.trimStart :=
  (h.run (p := isBlank) rfl).2

theorem isGap_iff (h : Returned t t') : Text.IsGap t ↔ Text.IsGap t' := by
  have hreturn : isBlank '\r' = true := by decide
  induction h with
  | nil => exact Iff.rfl
  | feed _ ih => simp [ih, hreturn]
  | cons _ _ ih => simp [ih]

/-- Both texts end in the same character. -/
theorem getLast?_eq (h : Returned t t') : t'.getLast? = t.getLast? := by
  rcases List.eq_nil_or_concat t with rfl | ⟨s, c, rfl⟩
  · rw [h.nil_iff.1 rfl]
  · rw [List.concat_eq_append] at h ⊢
    obtain ⟨s', t', rfl, -, hlast⟩ := h.of_append
    cases hlast with
    | feed hnil =>
        cases hnil
        simp
    | cons _ hnil =>
        cases hnil
        simp

theorem trimEnd (h : Returned t t') : Returned t.trimEnd t'.trimEnd := by
  obtain ⟨g, hg, ht⟩ := Text.exists_trimEnd_append_gap t
  generalize hs : t.trimEnd = s at ht ⊢
  subst ht
  obtain ⟨s', g', rfl, hkept, hgap⟩ := h.of_append
  rw [(hgap.isGap_iff.1 hg).trimEnd_append]
  have hend : s'.trimEnd = s' := by
    rw [Text.trimEnd_eq_self_iff, hkept.getLast?_eq, ← Text.trimEnd_eq_self_iff, ← hs,
      Text.trimEnd_trimEnd]
  rwa [hend]

theorem trim (h : Returned t t') : Returned t.trim t'.trim := h.trimStart.trimEnd

/-- Both texts split at the same place. -/
theorem splitOnce (h : Returned t t') (hreturn : sep ≠ '\r') (hfeed : sep ≠ '\n') :
    Option.Rel (fun x x' => Returned x.1 x'.1 ∧ Returned x.2 x'.2) (Text.splitOnce sep t)
      (Text.splitOnce sep t') := by
  induction h with
  | nil => exact .none
  | feed _ ih =>
      simp only [Text.splitOnce, hreturn.symm, hfeed.symm, if_false, Option.map_map]
      exact ih.map fun _ _ hx => ⟨.feed hx.1, hx.2⟩
  | @cons c t t' hc hrest ih =>
      rw [Text.splitOnce, Text.splitOnce]
      split
      · exact .some ⟨.nil, hrest⟩
      · exact ih.map fun _ _ hx => ⟨.cons hc hx.1, hx.2⟩

/-- A word is a keyword if the other one is: keywords hold no line feed. -/
theorem is (h : Returned t t') (k : Keyword) : k.is t' = k.is t := by
  have hfeed : ∀ {t : Text}, k.is t = true → '\n' ∉ t := fun ht hmem =>
    absurd (Keyword.isBare_of_is ht _ hmem) (by decide)
  have hne : ('\n' : Char) ≠ '\r' := by decide
  rw [Bool.eq_iff_iff]
  constructor
  · intro ht'
    have heq := h.eq_of_not_mem ((h.mem_iff hne).not.2 (hfeed ht'))
    rwa [heq] at ht'
  · intro ht
    rwa [h.eq_of_not_mem (hfeed ht)]

/-- Both texts start with the same keyword. -/
theorem strip? (k : Keyword) (h : Returned t t') :
    Option.Rel Returned (k.strip? t) (k.strip? t') := by
  obtain ⟨hword, hrest⟩ := h.bareWord
  rw [Keyword.strip?_eq, Keyword.strip?_eq, hword]
  split
  · exact .some hrest
  · exact .none

end Returned
end DdlDiagram
