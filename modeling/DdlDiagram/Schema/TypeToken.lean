import DdlDiagram.Text.Basic

/-!
# Type tokens

A diagram shows the type of a column as a single word. The token of a type keeps the ASCII
letters and digits of the type as declared and writes one underscore for whatever separates two
of them: `DECIMAL(10,2)` becomes `DECIMAL_10_2`. What stands behind the last of them is dropped,
what stands before the first becomes an underscore too.
-/

namespace DdlDiagram

/-- The letters and digits of a type, an underscore between two that are separated. `separated`
tells whether something separates the text from the letter or digit before it. -/
def typeTokenFrom (separated : Bool) : Text → Text
  | [] => []
  | c :: rest =>
    if c.isAlphanum then
      if separated then '_' :: c :: typeTokenFrom false rest else c :: typeTokenFrom false rest
    else typeTokenFrom true rest

/-- The word that stands for a type in a diagram. -/
def typeToken (rawType : Text) : Text := typeTokenFrom false rawType

@[simp] theorem typeToken_nil : typeToken [] = [] := rfl

/-- A word of ASCII letters and digits is its own token. -/
theorem typeToken_of_all_isAlphanum {t : Text} (h : t.all Char.isAlphanum) :
    typeToken t = t := by
  unfold typeToken
  induction t with
  | nil => rfl
  | cons c rest ih =>
    simp only [List.all_cons, Bool.and_eq_true] at h
    simp [typeTokenFrom, h.1, ih h.2]

end DdlDiagram
