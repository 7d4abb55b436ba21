import DdlDiagram.Proofs.Cleaned.Strip
import DdlDiagram.Proofs.Directive.Line
import DdlDiagram.Proofs.Text.Lines

/-!
# Cleaning line by line

A text that leaves no line open and no block comment is cleaned apart from the text behind it:
the two cleaned texts stand one after the other, and so do their directives. A line feed at the
end of a text changes neither.
-/

namespace DdlDiagram

variable {s t line rest : Text} {place : Place}

namespace Place

/-- The places at which a line starts: no quoted run and no line comment is open. -/
def StartsLine (place : Place) : Prop := place.afterFeed = place

theorem startsLine_code : StartsLine (.code none) := rfl

theorem startsLine_afterFeed (place : Place) : place.afterFeed.StartsLine := by
  cases place <;> rfl

theorem afterFeed_ne_blockComment (h : place ≠ .blockComment) :
    place.afterFeed ≠ .blockComment := by
  cases place with
  | blockComment => exact absurd rfl h
  | _ => exact nofun

theorem StartsLine.eq_code (h : place.StartsLine) (hne : place ≠ .blockComment) :
    place = .code none := by
  cases place with
  | code quote => exact h.symm
  | lineComment => exact nomatch h
  | blockComment => exact absurd rfl hne

end Place

namespace Cleaned

variable {marks : List Text} {body : Text} {ls : List Text}

/-- A directive is taken out with its line and leads nowhere. -/
theorem ofLines_cons_some (h : directive? marks place line = some body) :
    ofLines marks place (line :: ls) = ⟨(ofLines marks place ls).text,
      body :: (ofLines marks place ls).directives, (ofLines marks place ls).place⟩ := by
  rw [ofLines, h]

theorem ofLines_cons_none (h : directive? marks place line = none) :
    ofLines marks place (line :: ls) =
      ⟨(strip place line).1 ++ (ofLines marks (strip place line).2 ls).text,
        (ofLines marks (strip place line).2 ls).directives,
        (ofLines marks (strip place line).2 ls).place⟩ := by
  rw [ofLines, h]

/-- The directives of a text are read off its lines. -/
theorem exists_of_mem_directives {lines : List Text}
    (h : body ∈ (ofLines marks place lines).directives) :
    ∃ line ∈ lines, Directive.bodyOfLine? marks line = some body := by
  induction lines generalizing place with
  | nil => simp [ofLines] at h
  | cons line rest ih =>
      cases hline : directive? marks place line with
      | none =>
          rw [ofLines_cons_none hline] at h
          obtain ⟨other, hmem, hbody⟩ := ih h
          exact ⟨other, List.mem_cons_of_mem line hmem, hbody⟩
      | some found =>
          rw [ofLines_cons_some hline, List.mem_cons] at h
          obtain rfl | hrest := h
          · rw [directive?, Option.ite_none_left_eq_some] at hline
            exact ⟨line, List.mem_cons_self, hline.2⟩
          · obtain ⟨other, hmem, hbody⟩ := ih hrest
            exact ⟨other, List.mem_cons_of_mem line hmem, hbody⟩

/-- Directives hold no characters that their text does not hold. -/
theorem subset_of_mem_directives (h : body ∈ (ofText marks t).directives) : body ⊆ t := by
  obtain ⟨line, hmem, hbody⟩ := exists_of_mem_directives h
  intro c hc
  rw [← Text.flatten_lines t]
  exact List.mem_flatten_of_mem hmem (Directive.subset_of_bodyOfLine? hbody hc)

/-- A directive is a part of a single line. -/
theorem feed_not_mem_of_mem_directives (h : body ∈ (ofText marks t).directives) :
    '\n' ∉ body := by
  obtain ⟨line, hmem, hbody⟩ := exists_of_mem_directives h
  have hfront : ∃ front, '\n' ∉ front ∧ Directive.bodyOfLine? marks front = some body := by
    obtain ⟨front, hfront, rfl | rfl⟩ := Text.exists_of_mem_lines hmem
    · exact ⟨line, hfront, hbody⟩
    · rw [Directive.bodyOfLine?_padded marks (Text.isGap_feed.padded front)] at hbody
      exact ⟨front, hfront, hbody⟩
  obtain ⟨front, hfeed, hbody⟩ := hfront
  exact fun hmem => hfeed (Directive.subset_of_bodyOfLine? hbody hmem)

/-- The line feed at the end of a line does not make it a directive or keep it from being one. -/
theorem directive?_append_feed (marks : List Text) (place : Place) (line : Text) :
    directive? marks place (line ++ ['\n']) = directive? marks place line := by
  rw [directive?, directive?, Directive.bodyOfLine?_padded marks (Text.isGap_feed.padded line)]

def append (a b : Cleaned) : Cleaned := ⟨a.text ++ b.text, a.directives ++ b.directives, b.place⟩

theorem ofLines_append (marks : List Text) (place : Place) (ls others : List Text) :
    ofLines marks place (ls ++ others) = (ofLines marks place ls).append
      (ofLines marks (ofLines marks place ls).place others) := by
  induction ls generalizing place with
  | nil => rfl
  | cons line rest ih =>
      rw [List.cons_append, ofLines, ofLines]
      split <;> simp [ih, append]

theorem strip_append_singleton_feed (place : Place) (t : Text) : strip place (t ++ ['\n']) =
    ((strip place t).1 ++ ['\n'], (strip place t).2.afterFeed) := by
  rw [strip_append_feed, strip_nil]

/-- From the start of a line, a text that leaves no line open leads to the start of a line, and
so does its cleaned text. -/
theorem ofLines_of_endsLine (marks : List Text) (hs : s.EndsLine) (hplace : place.StartsLine) :
    (ofLines marks place s.lines).place.StartsLine ∧
      (ofLines marks place s.lines).text.EndsLine := by
  induction s using Text.line_induction generalizing place with
  | last line hline =>
      obtain rfl | ⟨u, rfl⟩ := hs.eq_nil_or_eq_append
      · exact ⟨hplace, Text.endsLine_nil⟩
      · simp at hline
  | feed line rest hline ih =>
      rw [List.append_cons] at hs
      have hrest : rest.EndsLine := hs.of_append
      rw [Text.lines_append_feed hline, ofLines]
      split
      · exact ih hrest hplace
      · rw [strip_append_singleton_feed]
        obtain ⟨hend, htext⟩ := ih hrest (Place.startsLine_afterFeed (strip place line).2)
        exact ⟨hend, (Text.endsLine_append_feed _).append htext⟩

/-- Texts are cleaned apart where no line and no block comment is open between them. -/
theorem ofText_append (marks : List Text) (hs : s.EndsLine)
    (hplace : (ofText marks s).place ≠ .blockComment) (t : Text) :
    ofText marks (s ++ t) = (ofText marks s).append (ofText marks t) := by
  have hstart := (ofLines_of_endsLine marks hs Place.startsLine_code).1.eq_code hplace
  rw [ofText, hs.lines_append, ofLines_append, hstart]
  rfl

/-- A line feed behind a text ends its last line, if that is open, and leaves no line open. Of a
last line that is a directive nothing is kept, not even the feed. -/
theorem ofLines_append_feed (marks : List Text) (hplace : place.StartsLine) (t : Text) :
    ∃ g, ofLines marks place (t ++ ['\n']).lines = ⟨(ofLines marks place t.lines).text ++ g,
        (ofLines marks place t.lines).directives, (ofLines marks place t.lines).place.afterFeed⟩ ∧
      (g = ['\n'] ∨ g = [] ∧ (ofLines marks place t.lines).text.EndsLine) := by
  induction t using Text.line_induction generalizing place with
  | last line hline =>
      have hbody := directive?_append_feed marks place line
      rw [Text.lines_append_feed hline]
      cases hline' : directive? marks place line with
      | some body =>
          have hne : line ≠ [] := by
            rintro rfl
            simp [directive?, Directive.bodyOfLine?] at hline'
          rw [Text.lines_of_not_mem hline hne, ofLines_cons_some hline',
            ofLines_cons_some (hbody.trans hline')]
          exact ⟨[], by rw [Text.lines, ofLines, hplace]; rfl, .inr ⟨rfl, Text.endsLine_nil⟩⟩
      | none =>
          have htext : ofLines marks place line.lines =
              ⟨(strip place line).1, [], (strip place line).2⟩ := by
            by_cases hne : line = []
            · rw [hne, strip_nil]
              rfl
            · rw [Text.lines_of_not_mem hline hne, ofLines_cons_none hline']
              simp [ofLines]
          rw [htext, ofLines_cons_none (hbody.trans hline'), strip_append_singleton_feed]
          exact ⟨['\n'], by simp [ofLines, Text.lines], .inl rfl⟩
  | feed line rest hline ih =>
      rw [List.append_assoc, List.cons_append, Text.lines_append_feed hline,
        Text.lines_append_feed hline]
      cases hline' : directive? marks place (line ++ ['\n']) with
      | some body =>
          obtain ⟨g, heq, hg⟩ := ih hplace
          rw [ofLines_cons_some hline', ofLines_cons_some hline', heq]
          exact ⟨g, rfl, hg⟩
      | none =>
          obtain ⟨g, heq, hg⟩ := ih (Place.startsLine_afterFeed (strip place line).2)
          rw [ofLines_cons_none hline', ofLines_cons_none hline', strip_append_singleton_feed, heq]
          refine ⟨g, by rw [← List.append_assoc], ?_⟩
          rcases hg with hkept | ⟨hnil, hend⟩
          · exact .inl hkept
          · exact .inr ⟨hnil, (Text.endsLine_append_feed _).append hend⟩

/-- Texts with a line feed between them are cleaned apart if no block comment is open there. The
feed is kept unless the first text ends with its line or in a directive. -/
theorem ofText_append_feed (hplace : (ofText marks s).place ≠ .blockComment) (t : Text) :
    ∃ g, ofText marks (s ++ '\n' :: t) = ⟨(ofText marks s).text ++ g ++ (ofText marks t).text,
        (ofText marks s).directives ++ (ofText marks t).directives, (ofText marks t).place⟩ ∧
      (g = ['\n'] ∨ g = [] ∧ (ofText marks s).text.EndsLine) := by
  obtain ⟨g, hfeed, hg⟩ := ofLines_append_feed marks Place.startsLine_code s
  have hend : (ofText marks (s ++ ['\n'])).place ≠ .blockComment := by
    rw [ofText, hfeed]
    exact Place.afterFeed_ne_blockComment hplace
  refine ⟨g, ?_, hg⟩
  rw [List.append_cons, ofText_append marks (Text.endsLine_append_feed s) hend, ofText, hfeed]
  rfl

/-- A directive in a line of its own is taken out and stands in front of those behind it. -/
theorem ofText_directive_append (hline : '\n' ∉ line)
    (hbody : Directive.bodyOfLine? marks line = some body) (t : Text) :
    ofText marks (line ++ '\n' :: t) =
      { ofText marks t with directives := body :: (ofText marks t).directives } := by
  have hdirective : directive? marks (.code none) (line ++ ['\n']) = some body :=
    (directive?_append_feed marks (.code none) line).trans hbody
  rw [ofText, Text.lines_append_feed hline, ofLines_cons_some hdirective]
  rfl

end Cleaned
end DdlDiagram
