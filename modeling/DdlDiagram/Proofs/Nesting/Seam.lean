import DdlDiagram.Proofs.Nesting.Uncut
import DdlDiagram.Proofs.Respaced.Pieces

/-!
# Scans of a text that goes on

A scan that comes to the end of a text goes on with what is open there. So the body of a group
that the text leaves open, its last part and its last word are all continued by the text behind
it, and nothing before them is read differently.
-/

namespace DdlDiagram

variable {s : Nesting} {t u : Text} {c : Char}

namespace Nesting

/-- A group that is still open at the end of a text is closed in what follows, if at all. -/
theorem upToClose_append (h : s.upToClose t = none) (u : Text) :
    s.upToClose (t ++ u) = ((s.afterText t).upToClose u).map (t ++ ·) := by
  induction t generalizing s with
  | nil => simp
  | cons c rest ih =>
      rw [upToClose] at h
      split at h
      · cases h
      · rename_i hclose
        rw [Option.map_eq_none_iff] at h
        rw [List.cons_append, upToClose, if_neg hclose, ih h, Option.map_map]
        rfl

/-- While a group is open, one parenthesis more is open than in its body. -/
theorem exists_afterText_within {q : Quote} {k : Depth} (h : upToClose ⟨q, k + 1⟩ t = none) :
    ∃ m : Depth, afterText ⟨q, k + 1⟩ t = ⟨q.afterText t, m + 1⟩ ∧
      afterText ⟨q, k⟩ t = ⟨q.afterText t, m⟩ := by
  induction t generalizing q k with
  | nil => exact ⟨k, rfl, rfl⟩
  | cons c rest ih =>
      rw [upToClose] at h
      split at h
      · cases h
      · rename_i hclose
        obtain ⟨m, hgroup, hbody, -⟩ := after_within hclose
        rw [Option.map_eq_none_iff, hgroup] at h
        rw [afterText_cons, afterText_cons, hgroup, hbody, Quote.afterText_cons]
        exact ih h

/-- Where only the group itself is open, nothing is open in its body. -/
theorem afterText_eq_top (h : upToClose ⟨none, 1⟩ t = none)
    (hopen : afterText ⟨none, 1⟩ t = ⟨none, 1⟩) : top.afterText t = top := by
  obtain ⟨m, hgroup, hbody⟩ := exists_afterText_within (k := 0) h
  rw [hgroup] at hopen
  obtain ⟨hquote, hdepth⟩ := Nesting.mk.inj hopen
  obtain rfl : m = 0 := Nat.succ.inj hdepth
  rw [hquote] at hbody
  exact hbody

/-- The last piece of a text goes on in what follows. Behind it as much is open as behind the
text: a piece behind a cut starts with nothing open. -/
theorem exists_pieces_append (cut : Char → Bool) (s : Nesting) (t u : Text) :
    ∃ front last, pieces cut s t = front ++ [last] ∧
      pieces cut s (t ++ u) = front ++ Text.prepend last (pieces cut (s.afterText t) u) ∧
      (if front = [] then s else top).afterText last = s.afterText t := by
  induction t generalizing s with
  | nil => exact ⟨[], [], rfl, rfl, rfl⟩
  | cons c rest ih =>
      obtain ⟨front, last, heq, heq', hlast⟩ := ih (s.after c)
      rw [List.cons_append, pieces, pieces, heq, heq', afterText_cons]
      split
      · rename_i hcut
        have hafter := after_eq_top_of_atTop ((Bool.and_eq_true _ _).mp hcut).1
        rw [hafter] at hlast ⊢
        exact ⟨[] :: front, last, rfl, rfl, by simpa using hlast⟩
      · cases front with
        | nil => exact ⟨[], c :: last, rfl, rfl, hlast⟩
        | cons first front => exact ⟨(c :: first) :: front, last, rfl, rfl, hlast⟩

end Nesting

namespace Text

open Nesting

/-- Where nothing is open, the last part goes on with an uncut text and the first part of what
follows. Nothing is open behind it either. -/
theorem partsBetween_append {sep : Char} (hsep : sep ≠ ')') (ht : top.afterText t = top)
    {r line part : Text} {front others : List Text} (hline : partsBetween sep t = front ++ [line])
    (hu : Uncut (· == sep) u) (hpart : partsBetween sep r = part :: others) :
    partsBetween sep (t ++ (u ++ r)) = front ++ (line ++ (u ++ part)) :: others ∧
      top.afterText line = top := by
  obtain ⟨front', line', heq, heq', hopen⟩ := exists_pieces_append (· == sep) top t (u ++ r)
  obtain ⟨rfl, hsame⟩ := List.append_inj' (heq.symm.trans hline) rfl
  obtain rfl := (List.cons.inj hsame).1
  have hclose : (')' == sep) = false := beq_eq_false_iff_ne.2 hsep.symm
  rw [partsBetween] at hpart
  rw [ite_self, ht] at hopen
  refine ⟨?_, hopen⟩
  rw [partsBetween, heq', ht, hu.pieces_append hclose, hpart, prepend_head, prepend_head]

/-- A blank at the end of a text is at top level if nothing is open behind it. -/
theorem atTop_of_afterText (hc : isBlank c = true) (ht : top.afterText (t ++ [c]) = top) :
    (top.afterText t).atTop c = true := by
  have hquote := all_isQuote_afterText (s := top) t rfl
  rw [afterText_append, afterText_cons, afterText_nil,
    after_of_isBlank hc hquote] at ht
  exact (atTop_iff_of_isBlank hc).2 ht

/-- A text that ends in a blank and leaves nothing open ends a word. -/
theorem words_append_of_endsBlank (ht : top.afterText t = top)
    (hend : t.getLast?.any isBlank = true) (u : Text) : words (t ++ u) = words t ++ words u := by
  obtain ⟨c, hlast, hc⟩ := (Option.any_eq_true _ _).1 hend
  obtain ⟨s, rfl⟩ := List.getLast?_eq_some_iff.1 hlast
  have htop := atTop_of_afterText hc ht
  have hend : words (s ++ [c]) = words s := by
    rw [words_append_cons htop hc]
    exact List.append_nil _
  rw [hend, List.append_assoc, List.singleton_append, words_append_cons htop hc]

/-- An uncut text in front of a blank is a word. -/
theorem words_uncut_append (hu : Uncut isBlank u) (hne : u ≠ []) {r : Text}
    (hr : r = [] ∨ r.startsBlank = true) : words (u ++ r) = u :: words r := by
  have hword := words_eq_singleton_iff.2 ⟨hne, hu.pieces_eq rfl⟩
  exact words_append_of_startsBlank hword (hu.afterText 0) hr

/-- An uncut text between blanks is a word. -/
theorem words_append_uncut (ht : top.afterText t = top) (hend : t.getLast?.any isBlank = true)
    (hu : Uncut isBlank u) (hne : u ≠ []) {r : Text} (hr : r = [] ∨ r.startsBlank = true) :
    words (t ++ (u ++ r)) = words t ++ u :: words r := by
  rw [words_append_of_endsBlank ht hend, words_uncut_append hu hne hr]

end Text
end DdlDiagram
