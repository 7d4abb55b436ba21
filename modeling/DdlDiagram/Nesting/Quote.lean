import DdlDiagram.Text.Basic

/-!
# Quoted runs

A quoted run starts at a single quote, a double quote or a backtick and ends at the next
occurrence of the same character. A doubled quote inside a run ends it and starts it again, so
the characters after the pair are quoted as they were before.
-/

namespace DdlDiagram

/-- Whether a character opens a quoted run. -/
def isQuote (c : Char) : Bool := c == '\'' || c == '"' || c == '\x60'

/-- The quoted run that is open at a point of a text, by the character that will end it. -/
abbrev Quote := Option Char

namespace Quote

def after (q : Quote) (c : Char) : Quote :=
  match q with
  | some close => if c = close then none else some close
  | none => if isQuote c then some c else none

/-- Whether a character is quoted: it lies inside a run or delimits one. -/
def covers (q : Quote) (c : Char) : Bool := q.isSome || isQuote c

def afterText (q : Quote) (t : Text) : Quote := t.foldl after q

@[simp] theorem covers_some (close c : Char) : covers (some close) c = true := rfl

@[simp] theorem covers_none (c : Char) : covers none c = isQuote c := rfl

@[simp] theorem after_close (close : Char) : after (some close) close = none := if_pos rfl

theorem after_open {c : Char} (h : isQuote c = true) : after none c = some c := if_pos h

/-- A character that is not quoted leaves no run open. -/
theorem eq_none_of_not_covers {q : Quote} {c : Char} (h : q.covers c = false) :
    q = none ∧ q.after c = none := by
  cases q <;> simp_all [after]

@[simp] theorem afterText_nil (q : Quote) : q.afterText [] = q := rfl

@[simp] theorem afterText_cons (q : Quote) (c : Char) (t : Text) :
    q.afterText (c :: t) = (q.after c).afterText t := rfl

theorem afterText_append (q : Quote) (s t : Text) :
    q.afterText (s ++ t) = (q.afterText s).afterText t := List.foldl_append

/-- Characters that are no quotes open no run. -/
theorem afterText_of_not_isQuote {t : Text} (h : ∀ c ∈ t, isQuote c = false) :
    afterText none t = none := by
  induction t with
  | nil => rfl
  | cons c rest ih =>
      obtain ⟨hc, hrest⟩ := List.forall_mem_cons.1 h
      have hafter : after none c = none := by simp [Quote.after, hc]
      rw [afterText_cons, hafter, ih hrest]

theorem afterText_of_not_mem {q : Char} {t : Text} (h : q ∉ t) :
    afterText (some q) t = some q := by
  induction t with
  | nil => rfl
  | cons c rest ih =>
      rw [List.mem_cons, not_or] at h
      have hafter : after (some q) c = some q := by simp [Quote.after, Ne.symm h.1]
      rw [afterText_cons, hafter, ih h.2]

end Quote
end DdlDiagram
