/-!
# Blank characters

A character is blank when it has the Unicode property `White_Space`. The property holds of
twenty-five code points; those beyond ASCII count here exactly as the space does. Characters
that merely take no room, such as the zero-width space `U+200B` or the byte order mark
`U+FEFF`, do not have the property.
-/

namespace DdlDiagram

/-- The code points with the property `White_Space`, as inclusive ranges. -/
def blankRanges : List (Nat × Nat) :=
  [(0x09, 0x0D), (0x20, 0x20), (0x85, 0x85), (0xA0, 0xA0), (0x1680, 0x1680),
    (0x2000, 0x200A), (0x2028, 0x2029), (0x202F, 0x202F), (0x205F, 0x205F), (0x3000, 0x3000)]

/-- Whether a character has the property `White_Space`. -/
def isBlank (c : Char) : Bool :=
  blankRanges.any fun range => range.1 ≤ c.toNat && c.toNat ≤ range.2

/-- Every character that core counts as white space is blank. -/
theorem isBlank_of_isWhitespace {c : Char} (h : c.isWhitespace) : isBlank c := by
  simp only [Char.isWhitespace, Bool.or_eq_true, decide_eq_true_eq] at h
  rcases h with ((rfl | rfl) | rfl) | rfl <;> decide

@[simp] theorem isBlank_space : isBlank ' ' = true := rfl

@[simp] theorem isBlank_newline : isBlank '\n' = true := rfl

@[simp] theorem isBlank_zeroWidthSpace : isBlank '\u200B' = false := rfl

end DdlDiagram
