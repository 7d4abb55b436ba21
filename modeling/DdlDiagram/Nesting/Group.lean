import DdlDiagram.Nesting.Basic

/-!
# Parenthesised groups

A group is `(`, a body and the `)` that closes it, parentheses in quoted runs not counting. The
scan of a body starts outside quoted runs: what stands before the `(` has no say in it.
-/

namespace DdlDiagram
namespace Nesting

/-- The text up to the unquoted `)` that leaves no parenthesis open, if there is one. -/
def upToClose (s : Nesting) : Text → Option Text
  | [] => none
  | c :: rest =>
    if c = ')' ∧ s.atTop c then some []
    else (upToClose (s.after c) rest).map (c :: ·)

end Nesting

namespace Text

/-- The body of the group that a text starts with, if it starts with one. -/
def groupBody? : Text → Option Text
  | [] => none
  | c :: rest => if c = '(' then Nesting.upToClose { depth := 1 } rest else none

/-- A body with the byte offsets of its two ends. -/
structure Located where
  start : Nat
  stop : Nat
  text : Text
  deriving DecidableEq, Repr

/-- The body of the group whose `(` stands at a byte offset. -/
def groupBodyAt? (t : Text) (offset : Nat) : Option Located := do
  let body ← groupBody? (← t.dropBytes? offset)
  return ⟨offset + 1, offset + 1 + body.utf8Size, body⟩

/-- A text up to its first `(`, with the body of the group there. Blanks before the group and
all that follows it are dropped. A text without a group, or with one that is never closed, is
kept as it is. -/
def splitGroup (t : Text) : Text × Option Text :=
  match groupBody? (t.dropWhile (· != '(')) with
  | some body => (trimEnd (t.takeWhile (· != '(')), some body)
  | none => (t, none)

/-- The part of a word before its group, or the whole word if it has none. -/
def beforeGroup (t : Text) : Text := t.splitGroup.1

def group? (t : Text) : Option Text := t.splitGroup.2

@[simp] theorem groupBody?_nil : groupBody? [] = none := rfl

@[simp] theorem groupBody?_open (t : Text) :
    groupBody? ('(' :: t) = Nesting.upToClose { depth := 1 } t := rfl

/-- A text without `(` has no group. -/
theorem splitGroup_of_not_mem {t : Text} (h : '(' ∉ t) : splitGroup t = (t, none) := by
  have hdrop : t.dropWhile (· != '(') = [] := by
    induction t with
    | nil => rfl
    | cons c rest ih =>
      simp only [List.mem_cons, not_or] at h
      simp [Ne.symm h.1, ih h.2]
  simp [splitGroup, hdrop]

end Text
end DdlDiagram
