import DdlDiagram.Text.Basic

/-!
# Lines

A text is cut behind its line feeds. A text that is empty or ends in a line feed leaves no line
open, so the lines of the text behind it start anew.
-/

namespace DdlDiagram
namespace Text

variable {s t line rest : Text}

/-- Texts that leave no line open: they are empty or end in a line feed. -/
def EndsLine (t : Text) : Prop := t = [] ∨ t.getLast? = some '\n'

theorem endsLine_nil : EndsLine [] := .inl rfl

theorem endsLine_append_feed (t : Text) : EndsLine (t ++ ['\n']) := .inr (by simp)

theorem EndsLine.eq_nil_or_eq_append (h : EndsLine t) : t = [] ∨ ∃ s, t = s ++ ['\n'] :=
  h.imp id List.getLast?_eq_some_iff.1

theorem EndsLine.append (hs : EndsLine s) (ht : EndsLine t) : EndsLine (s ++ t) := by
  obtain rfl | ⟨u, rfl⟩ := ht.eq_nil_or_eq_append
  · rwa [List.append_nil]
  · rw [← List.append_assoc]
    exact endsLine_append_feed _

theorem EndsLine.of_append (h : EndsLine (s ++ t)) : EndsLine t := by
  rcases List.eq_nil_or_concat t with rfl | ⟨u, c, rfl⟩
  · exact endsLine_nil
  · obtain hnil | hlast := h
    · simp at hnil
    · obtain rfl : c = '\n' := by simpa using hlast
      rw [List.concat_eq_append]
      exact endsLine_append_feed u

/-- A line with its feed is the first of the lines. -/
theorem lines_append_feed (hline : '\n' ∉ line) (rest : Text) :
    lines (line ++ '\n' :: rest) = (line ++ ['\n']) :: lines rest := by
  induction line with
  | nil => simp [lines]
  | cons c line ih =>
      rw [List.mem_cons, not_or] at hline
      rw [List.cons_append, lines, if_neg (Ne.symm hline.1), ih hline.2]
      rfl

theorem lines_of_not_mem (hline : '\n' ∉ line) (hne : line ≠ []) : lines line = [line] := by
  induction line with
  | nil => exact absurd rfl hne
  | cons c rest ih =>
      rw [List.mem_cons, not_or] at hline
      rw [lines, if_neg (Ne.symm hline.1)]
      cases rest with
      | nil => rfl
      | cons d others => rw [ih hline.2 (by simp)]; rfl

/-- Every text is a line without a feed, or such a line, a feed and a text. -/
theorem line_induction {motive : Text → Prop} (last : ∀ line, '\n' ∉ line → motive line)
    (feed : ∀ line rest, '\n' ∉ line → motive rest → motive (line ++ '\n' :: rest)) (t : Text) :
    motive t := by
  suffices h : ∀ line, '\n' ∉ line → motive (line ++ t) from h [] List.not_mem_nil
  induction t with
  | nil =>
      intro line hline
      rw [List.append_nil]
      exact last line hline
  | cons c rest ih =>
      intro line hline
      by_cases hc : c = '\n'
      · rw [hc]
        exact feed line rest hline (ih [] List.not_mem_nil)
      · rw [List.append_cons]
        refine ih _ ?_
        rw [List.mem_append, List.mem_singleton, not_or]
        exact ⟨hline, Ne.symm hc⟩

/-- A line has at most one feed, at its end. -/
theorem exists_of_mem_lines (h : line ∈ lines t) :
    ∃ front, '\n' ∉ front ∧ (line = front ∨ line = front ++ ['\n']) := by
  induction t using line_induction with
  | last front hfront =>
      by_cases hne : front = []
      · rw [hne] at h
        exact nomatch h
      · rw [lines_of_not_mem hfront hne, List.mem_singleton] at h
        exact ⟨front, hfront, .inl h⟩
  | feed front rest hfront ih =>
      rw [lines_append_feed hfront, List.mem_cons] at h
      rcases h with hline | hrest
      · exact ⟨front, hfront, .inr hline⟩
      · exact ih hrest

/-- Behind a text that leaves no line open, the lines are those of the text that follows. -/
theorem EndsLine.lines_append (hs : EndsLine s) (t : Text) :
    lines (s ++ t) = lines s ++ lines t := by
  induction s using line_induction with
  | last line hline =>
      obtain rfl | ⟨u, rfl⟩ := hs.eq_nil_or_eq_append
      · rfl
      · simp at hline
  | feed line rest hline ih =>
      have hrest : EndsLine rest := EndsLine.of_append (s := line ++ ['\n']) (by simpa using hs)
      rw [List.append_assoc, List.cons_append, lines_append_feed hline, lines_append_feed hline,
        ih hrest, List.cons_append]

end Text
end DdlDiagram
