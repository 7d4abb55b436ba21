import DdlDiagram.Proofs.Cleaned.Tokens
import DdlDiagram.Proofs.Reading.Parts

/-!
# Cleaned texts, cleaned again

What stands on either side of a comment or of a directive comes together in the cleaned text. It
never makes the mark of a comment there: of a block comment a blank is kept, and a line comment
and a directive end with their line. So there is nothing left to clean, whatever words mark a
directive, and the cleaned text reads as the text does without its directives.
-/

namespace DdlDiagram

variable {q : Quote} {place : Place} {c : Char} {rest t u : Text}

/-- The quoted run that is open at a place. -/
def Place.quote : Place → Quote
  | .code q => q
  | _ => none

theorem Place.StartsLine.quote_eq (h : place.StartsLine) : place.quote = none := by
  cases place with
  | code q => exact (congrArg Place.quote h).symm
  | _ => rfl

namespace Cleaned

open Token

/-- Stripping what stands behind a character makes no mark with it. -/
theorem marks_bare (hline : startsLineComment (c :: rest) = false)
    (hblock : startsBlockComment (c :: rest) = false) :
    startsLineComment (c :: bare rest) = false ∧ startsBlockComment (c :: bare rest) = false := by
  cases rest with
  | nil => exact ⟨hline, hblock⟩
  | cons d others =>
      rw [startsLineComment_cons] at *
      rw [startsBlockComment_cons] at *
      rcases bare_cons d others with hclear | ⟨-, -, u, hu⟩
      · have hhead : ∀ e, isBlank e = false → ((bare (d :: others)).head? == some e) = false := by
          intro e he
          rw [beq_eq_false_iff_ne]
          intro heq
          exact Bool.false_ne_true (he.symm.trans (hclear e heq))
        rw [hhead '-' rfl, hhead '*' rfl]
        exact ⟨Bool.and_false _, Bool.and_false _⟩
      · rw [hu]
        exact ⟨hline, hblock⟩

theorem Unmarked.feed (h : Unmarked none t) : Unmarked q ('\n' :: t) :=
  ⟨fun _ => marks_of_ne (by decide) (by decide) t, h⟩

theorem Unmarked.blank (h : Unmarked none t) : Unmarked none (' ' :: t) :=
  h.gap_append Text.isGap_space

/-- In what is kept of a text no comment starts. -/
theorem unmarked_strip (place : Place) (t : Text) : Unmarked place.quote (strip place t).1 := by
  fun_induction strip place t with
  | case1 place => trivial
  | case2 q c =>
      refine ⟨fun _ => ?_, trivial⟩
      simp [startsLineComment_cons, startsBlockComment_cons]
  | case3 q d rest ih => exact ih.feed
  | case4 q c d rest hfeed hcovers ih =>
      refine ⟨fun hopen => absurd (hcovers.symm.trans hopen) Bool.noConfusion, ?_⟩
      rw [quoteAfter, if_neg hfeed]
      exact ih
  | case5 q c d rest hfeed hcovers hdash ih =>
      obtain ⟨rfl, -⟩ := Quote.eq_none_of_not_covers (Bool.not_eq_true _ ▸ hcovers)
      exact ih
  | case6 q c d rest hfeed hcovers hdash hslash ih =>
      obtain ⟨rfl, -⟩ := Quote.eq_none_of_not_covers (Bool.not_eq_true _ ▸ hcovers)
      exact ih
  | case7 q c d rest hfeed hcovers hdash hslash ih =>
      have hquote := Bool.not_eq_true _ ▸ hcovers
      obtain ⟨rfl, -⟩ := Quote.eq_none_of_not_covers hquote
      refine .cons hquote (marks_bare ?_ ?_) ih
      · simpa [startsLineComment_cons] using hdash
      · simpa [startsBlockComment_cons] using hslash
  | case8 rest ih => exact ih.feed
  | case9 c rest hfeed ih => exact ih
  | case10 c =>
      by_cases hfeed : c = '\n'
      · rw [if_pos hfeed, hfeed]
        exact Unmarked.feed trivial
      · rw [if_neg hfeed]
        trivial
  | case11 c d rest hclose ih => exact ih.blank
  | case12 d rest hclose ih => exact ih.feed
  | case13 c d rest hclose hfeed ih => exact ih

/-- A line feed keeps texts apart: a run ends there, and no mark is made over it. -/
theorem Unmarked.append_feed (ht : Unmarked q t) (hu : Unmarked none u) :
    Unmarked q (t ++ '\n' :: u) := by
  induction t generalizing q with
  | nil => exact hu.feed
  | cons c rest ih =>
      obtain ⟨hmarks, hrest⟩ := ht
      refine ⟨?_, ih hrest⟩
      intro hcovers
      obtain ⟨hline, hblock⟩ := hmarks hcovers
      rw [startsLineComment_cons] at *
      rw [startsBlockComment_cons] at *
      cases rest with
      | nil => simp
      | cons d others => exact ⟨hline, hblock⟩

theorem unmarked_ofLines (marks : List Text) (hplace : place.StartsLine) (t : Text) :
    Unmarked none (ofLines marks place t.lines).text := by
  induction t using Text.line_induction generalizing place with
  | last line hline =>
      by_cases hne : line = []
      · rw [hne]
        trivial
      rw [Text.lines_of_not_mem hline hne]
      cases hbody : directive? marks place line with
      | some body =>
          rw [ofLines_cons_some hbody]
          trivial
      | none =>
          have hstripped := unmarked_strip place line
          rw [hplace.quote_eq] at hstripped
          rw [ofLines_cons_none hbody, ofLines, List.append_nil]
          exact hstripped
  | feed line rest hline ih =>
      rw [Text.lines_append_feed hline]
      cases hbody : directive? marks place (line ++ ['\n']) with
      | some body =>
          rw [ofLines_cons_some hbody]
          exact ih hplace
      | none =>
          have hstripped := unmarked_strip place line
          rw [hplace.quote_eq] at hstripped
          rw [ofLines_cons_none hbody, strip_append_singleton_feed, List.append_assoc]
          exact hstripped.append_feed (ih (Place.startsLine_afterFeed _))

/-- In a cleaned text no comment starts outside of the quoted runs. -/
theorem unmarked_ofText (marks : List Text) (t : Text) : Unmarked none (ofText marks t).text :=
  unmarked_ofLines marks Place.startsLine_code t

/-- Dashes with a comment between them make no mark: a blank or a line feed keeps them apart. -/
example : (ofText ["fk".toList] "-/*'*/-/--\n--fk: a\n*/*\n-*/-".toList).text =
    "- -/\n*\n -".toList := by decide +kernel

end Cleaned

namespace Reading

/-- The reading of a text without what its directives add to it. -/
def withoutDirectives (r : Reading) : Reading :=
  ⟨⟨r.schema.tables, r.schema.ofOrigin .structural⟩, r.ofStatements⟩

theorem withoutDirectives_ofParts (chunks bodies : List Text) :
    (ofParts chunks bodies).withoutDirectives = ofParts chunks [] := by
  rw [withoutDirectives, ofOrigin_structural_ofParts, ofStatements_ofParts, ofParts_eq, ofParts_eq]
  simp [manualOf, unreadOf]

/-- Cleaning a cleaned text changes nothing and finds no directives, whatever words mark them.
So the cleaned text reads as the text does, but for its directives. -/
theorem ofText?_cleaned (marks marks' : List Text) (t : Text) :
    (Cleaned.ofText marks' (Cleaned.ofText marks t).text).text = (Cleaned.ofText marks t).text ∧
      (Cleaned.ofText marks' (Cleaned.ofText marks t).text).directives = [] ∧
      ofText? marks' (Cleaned.ofText marks t).text =
        (ofText? marks t).map withoutDirectives := by
  obtain ⟨htext, hdirectives⟩ := (Cleaned.unmarked_ofText marks t).ofText_eq marks'
  refine ⟨htext, hdirectives, ?_⟩
  rw [ofText?, ofText?, htext, hdirectives]
  split
  · rfl
  · rw [Option.map_some, withoutDirectives_ofParts]

end Reading
end DdlDiagram
