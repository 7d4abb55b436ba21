/-!
# Depth of parentheses

The depth at a point of a text is the number of `(` still open there. A `)` with nothing open
closes nothing: it leaves the depth at zero and counts as any other character.
-/

namespace DdlDiagram

/-- The number of parentheses open at a point of a text. -/
abbrev Depth := Nat

namespace Depth

/-- Where a depth lies with respect to a table body. -/
inductive Region where
  /-- No parenthesis is open. -/
  | outside
  /-- One is open, as among the declarations of a table. -/
  | body
  /-- Several are open, as among the parameters of a type. -/
  | nested (depth : Depth)
  deriving DecidableEq, Repr

/-- What a character does to the depth. -/
inductive Step where
  /-- It opens a pair; the depth is the one after it. -/
  | opened (depth : Depth)
  /-- It closes a pair; the depth is the one after it. -/
  | closed (depth : Depth)
  | other
  deriving DecidableEq, Repr

def after (d : Depth) (c : Char) : Depth :=
  if c = '(' then d + 1 else if c = ')' then d - 1 else d

def step (d : Depth) (c : Char) : Step :=
  if c = '(' then .opened (d + 1)
  else if c = ')' ∧ d ≠ 0 then .closed (d - 1)
  else .other

def region : Depth → Region
  | 0 => .outside
  | 1 => .body
  | n => .nested n

@[simp] theorem after_open (d : Depth) : d.after '(' = d + 1 := rfl

@[simp] theorem after_close (d : Depth) : d.after ')' = d - 1 := rfl

theorem after_other (d : Depth) {c : Char} (ho : c ≠ '(') (hc : c ≠ ')') : d.after c = d := by
  simp [after, ho, hc]

/-- The step tells the depth after it. -/
theorem after_eq_of_step (d : Depth) (c : Char) :
    d.after c = match d.step c with
      | .opened n => n
      | .closed n => n
      | .other => d := by
  unfold after step
  split
  · rfl
  · by_cases hc : c = ')' <;> by_cases hd : d = 0 <;> simp [hc, hd]

end Depth
end DdlDiagram
