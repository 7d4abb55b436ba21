import DdlDiagram.Cleaned
import DdlDiagram.Proofs.Token.Runs

/-!
# Stripping character by character

What stripping does with a character depends on the place, the character and the one behind it.
A line feed is kept everywhere and is part of no mark, so a text that ends in one can be stripped
apart from what follows it.
-/

namespace DdlDiagram

def Place.afterFeed : Place → Place
  | .blockComment => .blockComment
  | _ => .code none

namespace Cleaned

open Token

variable {q : Quote} {place : Place} {c : Char} {s t rest : Text}

theorem strip_nil (place : Place) : strip place [] = ([], place) := by
  cases place <;> rfl

/-- One step of stripping outside of comments. -/
theorem strip_code_cons (q : Quote) (c : Char) (rest : Text) : strip (.code q) (c :: rest) =
    if c = '\n' then (strip (.code none) rest).map (c :: ·) id
    else if q.covers c then (strip (.code (q.after c)) rest).map (c :: ·) id
    else if startsLineComment (c :: rest) then strip .lineComment (rest.drop 1)
    else if startsBlockComment (c :: rest) then strip .blockComment (rest.drop 1)
    else (strip (.code q) rest).map (c :: ·) id := by
  cases rest with
  | nil =>
      have hline : startsLineComment [c] = false := by simp [startsLineComment_cons]
      have hblock : startsBlockComment [c] = false := by simp [startsBlockComment_cons]
      have hlast : strip (.code q) [c] =
          ([c], .code (if c = '\n' then none else q.after c)) := by rw [strip]
      rw [hlast, hline, hblock]
      by_cases hfeed : c = '\n'
      · simp [hfeed, strip_nil]
      · cases hcovers : q.covers c with
        | true => simp [hfeed, strip_nil]
        | false =>
            obtain ⟨rfl, hafter⟩ := Quote.eq_none_of_not_covers hcovers
            simp [hfeed, strip_nil, hafter]
  | cons d others => simp [strip, startsLineComment_cons, startsBlockComment_cons]

/-- A character that starts no comment is kept. -/
theorem strip_code_cons_of_keeps (hfeed : c ≠ '\n') (hmarks : q.covers c = false →
    startsLineComment (c :: rest) = false ∧ startsBlockComment (c :: rest) = false) :
    strip (.code q) (c :: rest) = (strip (.code (q.after c)) rest).map (c :: ·) id := by
  rw [strip_code_cons, if_neg hfeed]
  cases hcovers : q.covers c with
  | true => rw [if_pos rfl]
  | false =>
      obtain ⟨hline, hblock⟩ := hmarks hcovers
      obtain ⟨rfl, hafter⟩ := Quote.eq_none_of_not_covers hcovers
      simp [hline, hblock, hafter]

theorem strip_code_feed (q : Quote) (rest : Text) :
    strip (.code q) ('\n' :: rest) = (strip (.code none) rest).map ('\n' :: ·) id := by
  rw [strip_code_cons, if_pos rfl]

/-- One step of stripping in a block comment. -/
theorem strip_blockComment_cons (c : Char) (rest : Text) : strip .blockComment (c :: rest) =
    if commentEnd <+: c :: rest then (strip (.code none) (rest.drop 1)).map (' ' :: ·) id
    else (strip .blockComment rest).map ((if c = '\n' then [c] else []) ++ ·) id := by
  cases rest with
  | nil =>
      have hend : ¬ commentEnd <+: [c] := fun h => absurd h.length_le (by simp [commentEnd])
      rw [if_neg hend, strip_nil, strip]
      simp
  | cons d others =>
      have hend : commentEnd <+: c :: d :: others ↔ c = '*' ∧ d = '/' := by
        simp [commentEnd, List.cons_prefix_cons, eq_comm]
      rw [strip]
      by_cases hclose : c = '*' ∧ d = '/'
      · rw [if_pos hclose, if_pos (hend.2 hclose), List.drop_one, List.tail_cons]
      · rw [if_neg hclose, if_neg (hend.not.2 hclose)]
        by_cases hfeed : c = '\n' <;> simp [hfeed]
        rfl

theorem strip_feed_cons (place : Place) (rest : Text) :
    strip place ('\n' :: rest) = (strip place.afterFeed rest).map ('\n' :: ·) id := by
  cases place with
  | code q => exact strip_code_feed q rest
  | lineComment => exact (strip.eq_4 _ _).trans (if_pos rfl)
  | blockComment =>
      have hend : ¬ commentEnd <+: '\n' :: rest := by simp [commentEnd, List.cons_prefix_cons]
      rw [strip_blockComment_cons, if_neg hend]
      rfl

/-- From a character that is part of no mark on, a text is stripped on its own. -/
theorem strip_append_cons (hdash : c ≠ '-') (hslash : c ≠ '/') (hstar : c ≠ '*') (place : Place)
    (t u : Text) : strip place (t ++ c :: u) =
      ((strip place t).1 ++ (strip (strip place t).2 (c :: u)).1,
        (strip (strip place t).2 (c :: u)).2) := by
  fun_induction strip place t with
  | case1 place => rfl
  | case2 q d =>
      by_cases hfeed : d = '\n'
      · simp [strip, hfeed, Prod.map]
      · cases hcovers : q.covers d with
        | true => simp [strip, hfeed, hcovers, Prod.map]
        | false =>
            obtain ⟨rfl, hafter⟩ := Quote.eq_none_of_not_covers hcovers
            simp [strip, hfeed, hcovers, hafter, hdash, hstar, Prod.map]
  | case7 q d e rest hfeed hcovers hline hblock ih =>
      rw [List.cons_append, List.cons_append, strip, if_neg hfeed, if_neg hcovers, if_neg hline,
        if_neg hblock, ← List.cons_append, ih]
      rfl
  | case10 d => by_cases hfeed : d = '\n' <;> simp [strip, hfeed, hslash, Prod.map]
  | _ => simp_all [strip]

/-- The text behind a line feed is stripped on its own, and the feed is kept. -/
theorem strip_append_feed (place : Place) (t u : Text) : strip place (t ++ '\n' :: u) =
    ((strip place t).1 ++ '\n' :: (strip (strip place t).2.afterFeed u).1,
      (strip (strip place t).2.afterFeed u).2) := by
  rw [strip_append_cons (by decide) (by decide) (by decide), strip_feed_cons]
  rfl

end Cleaned
end DdlDiagram
