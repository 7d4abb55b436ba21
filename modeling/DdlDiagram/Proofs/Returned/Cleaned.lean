import DdlDiagram.Proofs.Cleaned.Lines
import DdlDiagram.Proofs.Returned.Basic

/-!
# Cleaned texts with carriage returns

A return at the end of a line is kept outside of comments and dropped within them, and a directive
goes with its whole line. So a text with returns is cleaned to one with fewer returns, and its
directives are those of the text without returns.
-/

namespace DdlDiagram

variable {marks : List Text} {place : Place} {t : Text} {c : Char}

namespace Cleaned

/-- Stripping adds no characters but blanks. -/
theorem mem_of_mem_strip (h : c ∈ (strip place t).1) : c ∈ t ∨ c = ' ' := by
  fun_induction strip place t <;> simp_all <;> grind

/-- A return in front of a line feed is kept outside of comments, and changes nothing else. -/
theorem strip_append_return_feed (place : Place) (line : Text) :
    ∃ kept, strip place (line ++ ['\r', '\n']) = (kept, (strip place (line ++ ['\n'])).2) ∧
      (kept = (strip place line).1 ++ ['\r', '\n'] ∨ kept = (strip place line).1 ++ ['\n']) := by
  rw [strip_append_cons (by decide) (by decide) (by decide), strip_append_singleton_feed]
  cases (strip place line).2 with
  | code q => cases q <;> exact ⟨_, rfl, .inl rfl⟩
  | lineComment => exact ⟨_, rfl, .inr rfl⟩
  | blockComment => exact ⟨_, rfl, .inr rfl⟩

theorem directive?_append_return (marks : List Text) (place : Place) (line : Text) :
    directive? marks place (line ++ ['\r', '\n']) = directive? marks place (line ++ ['\n']) := by
  rw [directive?_append_feed, directive?, directive?,
    Directive.bodyOfLine?_padded marks (Text.isGap_return_feed.padded line)]

/-- The lines of a text with returns have the same directives, and what else they say differs in
returns. -/
theorem ofLines_withReturns (h : '\r' ∉ t) (marks : List Text) (place : Place) :
    Returned (ofLines marks place t.lines).text (ofLines marks place t.withReturns.lines).text ∧
      (ofLines marks place t.withReturns.lines).directives =
        (ofLines marks place t.lines).directives := by
  have hkept : ∀ {t : Text}, '\r' ∉ t → ∀ place, '\r' ∉ (strip place t).1 := by
    intro t ht place hmem
    rcases mem_of_mem_strip hmem with hmem | hblank
    · exact ht hmem
    · exact absurd hblank (by decide)
  induction t using Text.line_induction generalizing place with
  | last line hline =>
      rw [Text.withReturns_of_not_mem hline]
      refine ⟨.refl ?_, rfl⟩
      rcases eq_or_ne line [] with rfl | hne
      · simp [ofLines, Text.lines]
      · rw [Text.lines_of_not_mem hline hne]
        cases hbody : directive? marks place line with
        | some body => simp [ofLines, hbody]
        | none => simpa [ofLines, hbody] using hkept h place
  | feed line rest hline ih =>
      rw [List.mem_append, List.mem_cons, not_or, not_or] at h
      obtain ⟨hreturn, -, hrest⟩ := h
      have hlines : Text.lines (line ++ '\n' :: rest).withReturns =
          (line ++ ['\r', '\n']) :: Text.lines rest.withReturns := by
        have hfeeds : '\n' ∉ line ++ ['\r'] := by simp [hline]
        have happend := Text.lines_append_feed hfeeds rest.withReturns
        rw [List.append_assoc, List.append_assoc] at happend
        rw [Text.withReturns_append, Text.withReturns_of_not_mem hline]
        exact happend
      rw [hlines, Text.lines_append_feed hline]
      cases hbody : directive? marks place (line ++ ['\n']) with
      | some body =>
          rw [ofLines_cons_some hbody,
            ofLines_cons_some ((directive?_append_return marks place line).trans hbody)]
          exact ⟨(ih hrest place).1, congrArg (body :: ·) (ih hrest place).2⟩
      | none =>
          obtain ⟨kept, hstrip, hends⟩ := strip_append_return_feed place line
          rw [ofLines_cons_none hbody,
            ofLines_cons_none ((directive?_append_return marks place line).trans hbody), hstrip]
          obtain ⟨htext, hdirectives⟩ := ih hrest (strip place (line ++ ['\n'])).2
          refine ⟨.append ?_ htext, hdirectives⟩
          have hfront := Returned.refl (hkept hreturn place)
          rw [strip_append_singleton_feed]
          rcases hends with rfl | rfl
          · exact hfront.append (.feed .nil)
          · exact hfront.append (.refl (by decide))

end Cleaned
end DdlDiagram
