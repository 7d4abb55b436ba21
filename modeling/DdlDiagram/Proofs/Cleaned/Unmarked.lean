import DdlDiagram.Cleaned
import DdlDiagram.Proofs.Text.Lines
import DdlDiagram.Proofs.Token.Runs

/-!
# Texts without comments

Cleaning keeps a text as it is when no comment starts outside its quoted runs. Here a run ends at
the latest with its line, so a run over several lines leaves its later lines to the comments.
-/

namespace DdlDiagram
namespace Cleaned

/-- The quoted run behind a character, where a line feed ends every run. -/
def quoteAfter (q : Quote) (c : Char) : Quote := if c = '\n' then none else q.after c

/-- Texts in which no comment starts outside the quoted runs. The first run may be open. -/
def Unmarked : Quote → Text → Prop
  | _, [] => True
  | q, c :: rest =>
    (q.covers c = false → Token.startsLineComment (c :: rest) = false ∧
      Token.startsBlockComment (c :: rest) = false) ∧ Unmarked (quoteAfter q c) rest

variable {q : Quote} {t u : Text}

/-- Texts without quotes and without the characters that comments start with. -/
def Unremarkable (t : Text) : Prop := (t.all fun c => !isQuote c && c != '-' && c != '/') = true

theorem unremarkable_iff :
    Unremarkable t ↔ ∀ c ∈ t, isQuote c = false ∧ c ≠ '-' ∧ c ≠ '/' := by
  simp [Unremarkable, and_assoc]

theorem Unremarkable.append (ht : Unremarkable t) (hu : Unremarkable u) :
    Unremarkable (t ++ u) := by
  rw [Unremarkable, List.all_append, ht, hu, Bool.and_true]

theorem Unremarkable.unmarked (h : Unremarkable t) : Unmarked none t := by
  rw [unremarkable_iff] at h
  induction t with
  | nil => trivial
  | cons c rest ih =>
      obtain ⟨⟨hquote, hdash, hslash⟩, hrest⟩ := List.forall_mem_cons.1 h
      have hafter : quoteAfter none c = none := by simp [quoteAfter, Quote.after, hquote]
      have hunmarked := ih hrest
      rw [← hafter] at hunmarked
      refine ⟨fun _ => ⟨?_, ?_⟩, hunmarked⟩
      · simp [Token.startsLineComment_cons, hdash]
      · simp [Token.startsBlockComment_cons, hslash]

/-- Stripping keeps such a text. -/
theorem Unmarked.strip_eq (h : Unmarked q t) :
    strip (.code q) t = (t, .code (t.foldl quoteAfter q)) := by
  induction t generalizing q with
  | nil => rfl
  | cons c rest ih =>
      obtain ⟨hmark, hrest⟩ := h
      have hread := ih hrest
      cases rest with
      | nil => rfl
      | cons d others =>
          have hfold : (c :: d :: others).foldl quoteAfter q =
              (d :: others).foldl quoteAfter (quoteAfter q c) := rfl
          rw [strip, hfold]
          by_cases hfeed : c = '\n'
          · rw [quoteAfter, if_pos hfeed] at hread ⊢
            rw [if_pos hfeed, hread]
            rfl
          rw [quoteAfter, if_neg hfeed] at hread ⊢
          rw [if_neg hfeed]
          cases hcovers : q.covers c with
          | true =>
              rw [if_pos rfl, hread]
              rfl
          | false =>
              obtain ⟨hline, hblock⟩ := hmark hcovers
              obtain ⟨hopen, hclosed⟩ := Quote.eq_none_of_not_covers hcovers
              have hdash : ¬ (c = '-' ∧ d = '-') := by
                rintro ⟨rfl, rfl⟩
                simp [Token.startsLineComment_cons] at hline
              have hslash : ¬ (c = '/' ∧ d = '*') := by
                rintro ⟨rfl, rfl⟩
                simp [Token.startsBlockComment_cons] at hblock
              rw [hclosed] at hread ⊢
              rw [if_neg Bool.false_ne_true, if_neg hdash, if_neg hslash, hopen, hread]
              rfl

theorem Unmarked.of_append (h : Unmarked q (t ++ u)) :
    Unmarked q t ∧ Unmarked (t.foldl quoteAfter q) u := by
  induction t generalizing q with
  | nil => exact ⟨trivial, h⟩
  | cons c rest ih =>
      obtain ⟨hmark, hrest⟩ := h
      obtain ⟨hleft, hright⟩ := ih hrest
      refine ⟨⟨fun hcovers => ⟨?_, ?_⟩, hleft⟩, hright⟩
      · have hline := (hmark hcovers).1
        rw [List.append_eq, Token.startsLineComment_cons] at hline
        rw [Token.startsLineComment_cons]
        cases rest <;> simp_all
      · have hblock := (hmark hcovers).2
        rw [List.append_eq, Token.startsBlockComment_cons] at hblock
        rw [Token.startsBlockComment_cons]
        cases rest <;> simp_all

/-- No directive starts where no comment does. -/
theorem Unmarked.startsLineComment_trimStart (h : Unmarked none t) :
    Token.startsLineComment t.trimStart = false := by
  induction t with
  | nil => rfl
  | cons c rest ih =>
      obtain ⟨hmark, hrest⟩ := h
      cases hblank : isBlank c with
      | true =>
          have hquote : isQuote c = false := by
            by_contra hquote
            rw [Token.not_isBlank_of_isQuote (Bool.not_eq_false _ ▸ hquote)] at hblank
            exact absurd hblank Bool.false_ne_true
          have hafter : quoteAfter none c = none := by simp [quoteAfter, Quote.after, hquote]
          rw [hafter] at hrest
          rw [Text.trimStart, List.dropWhile_cons_of_pos hblank]
          exact ih hrest
      | false =>
          rw [Text.trimStart, List.dropWhile_cons_of_neg (by simp [hblank])]
          cases hquote : isQuote c with
          | true =>
              have hdash : c ≠ '-' := by
                rintro rfl
                exact absurd hquote (by decide)
              simp [Token.startsLineComment_cons, hdash]
          | false => exact (hmark hquote).1

theorem Unmarked.directive?_eq_none (h : Unmarked none t) (marks : List Text) (place : Place) :
    directive? marks place t = none := by
  have hstart := h.startsLineComment_trimStart
  have hbody : Directive.bodyOfLine? marks t = none := by
    unfold Directive.bodyOfLine?
    split
    · rename_i comment heq
      rw [heq] at hstart
      exact absurd hstart (by simp [Token.startsLineComment_cons])
    · rfl
  rw [directive?, hbody, ite_self]

/-- Behind a line no run is open. -/
theorem foldl_quoteAfter_feed (q : Quote) (line : Text) :
    (line ++ ['\n']).foldl quoteAfter q = none := by
  rw [List.foldl_append]
  rfl

/-- Cleaning keeps a text in which no comment starts, and finds no directives. -/
theorem Unmarked.ofText_eq (h : Unmarked none t) (marks : List Text) :
    (ofText marks t).text = t ∧ (ofText marks t).directives = [] := by
  rw [ofText]
  induction t using Text.line_induction with
  | last line hline =>
      by_cases hne : line = []
      · rw [hne]
        exact ⟨rfl, rfl⟩
      · rw [Text.lines_of_not_mem hline hne, ofLines, h.directive?_eq_none]
        simp [h.strip_eq, ofLines]
  | feed line rest hline ih =>
      rw [List.append_cons] at h
      obtain ⟨hleft, hright⟩ := Unmarked.of_append h
      rw [foldl_quoteAfter_feed] at hright
      obtain ⟨htext, hdirectives⟩ := ih hright
      rw [Text.lines_append_feed hline, ofLines, hleft.directive?_eq_none]
      simp only [hleft.strip_eq, foldl_quoteAfter_feed]
      exact ⟨by rw [htext, ← List.append_cons], hdirectives⟩

end Cleaned
end DdlDiagram
