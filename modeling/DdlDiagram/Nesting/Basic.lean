import DdlDiagram.Nesting.Depth
import DdlDiagram.Nesting.Quote

/-!
# Nesting

Most cuts in a text are made only where nothing is open: outside quoted runs and outside
parentheses. The nesting at a point is the pair of the quoted run and the depth there. Quoted
characters move only the run, the others only the depth, so a parenthesis in a quoted run does
not count.
-/

namespace DdlDiagram

/-- What is open at a point of a text. -/
structure Nesting where
  quote : Quote := none
  depth : Depth := 0
  deriving DecidableEq, Repr

namespace Nesting

def top : Nesting := {}

def after (s : Nesting) (c : Char) : Nesting :=
  if s.quote.covers c then { s with quote := s.quote.after c }
  else { s with depth := s.depth.after c }

def afterText (s : Nesting) (t : Text) : Nesting := t.foldl after s

/-- Whether a character is unquoted and leaves no parenthesis open. -/
def atTop (s : Nesting) (c : Char) : Bool := !s.quote.covers c && (s.after c).depth == 0

@[simp] theorem afterText_nil (s : Nesting) : s.afterText [] = s := rfl

@[simp] theorem afterText_cons (s : Nesting) (c : Char) (t : Text) :
    s.afterText (c :: t) = (s.after c).afterText t := rfl

theorem afterText_append (s : Nesting) (t u : Text) :
    s.afterText (t ++ u) = (s.afterText t).afterText u := List.foldl_append

/-- The quoted run moves by its own rule, whatever the depth. -/
@[simp] theorem quote_after (s : Nesting) (c : Char) :
    (s.after c).quote = s.quote.after c := by
  unfold after
  split
  · rfl
  · rename_i h
    have hq := Quote.eq_none_of_not_covers (Bool.eq_false_iff.2 h)
    exact hq.1.trans hq.2.symm

@[simp] theorem quote_afterText (s : Nesting) (t : Text) :
    (s.afterText t).quote = s.quote.afterText t := by
  induction t generalizing s with
  | nil => rfl
  | cons c rest ih => simp [ih]

/-- A character at top level leaves nothing open. -/
theorem after_eq_top_of_atTop {s : Nesting} {c : Char} (h : s.atTop c = true) :
    s.after c = top := by
  simp only [atTop, Bool.and_eq_true, Bool.not_eq_true', beq_iff_eq] at h
  have hq := (Quote.eq_none_of_not_covers h.1).2
  rw [← quote_after] at hq
  cases hs : s.after c
  simp_all [top]

end Nesting
end DdlDiagram
