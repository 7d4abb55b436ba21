import DdlDiagram.Identifier

/-!
# Keywords

The words of the language that the reader acts on. A keyword is recognised in any mix of upper
and lower case; only ASCII letters have a case here. In running text it counts only as a whole
word: an identifier character right behind it makes it the start of some other word.
-/

namespace DdlDiagram

/-- The words that the reader acts on. -/
inductive Keyword where
  | create
  | temporary
  | temp
  | table
  | ifWord
  | notWord
  | existsWord
  | primary
  | foreign
  | constraint
  | key
  | unique
  | index
  | fulltext
  | spatial
  | check
  | references
  | null
  deriving DecidableEq, Repr

namespace Keyword

def spelling : Keyword → Text
  | create => "CREATE".toList
  | temporary => "TEMPORARY".toList
  | temp => "TEMP".toList
  | table => "TABLE".toList
  | ifWord => "IF".toList
  | notWord => "NOT".toList
  | existsWord => "EXISTS".toList
  | primary => "PRIMARY".toList
  | foreign => "FOREIGN".toList
  | constraint => "CONSTRAINT".toList
  | key => "KEY".toList
  | unique => "UNIQUE".toList
  | index => "INDEX".toList
  | fulltext => "FULLTEXT".toList
  | spatial => "SPATIAL".toList
  | check => "CHECK".toList
  | references => "REFERENCES".toList
  | null => "NULL".toList

/-- Whether a text is the keyword, in any case. -/
def is (k : Keyword) (t : Text) : Bool := t.eqIgnoreCase k.spelling

/-- The text behind the keyword, if the text starts with it as a whole word. -/
def strip? (k : Keyword) (t : Text) : Option Text :=
  let rest : Text := t.drop k.spelling.length
  if k.is (t.take k.spelling.length) && !rest.startsIdentifier then some rest else none

@[simp] theorem is_spelling (k : Keyword) : k.is k.spelling = true := by
  simp [is, Text.eqIgnoreCase]

/-- A text that starts with a keyword is longer than what stands behind it. -/
theorem length_lt_of_strip? {k : Keyword} {t rest : Text} (h : k.strip? t = some rest) :
    rest.length < t.length := by
  simp only [strip?, is, Text.eqIgnoreCase, Option.ite_none_right_eq_some, Bool.and_eq_true,
    beq_iff_eq, Option.some.injEq] at h
  obtain ⟨⟨heq, -⟩, rfl⟩ := h
  have hlen := congrArg List.length heq
  have hpos : 0 < k.spelling.length := by cases k <;> decide
  simp only [List.length_map, List.length_take] at hlen
  simp only [List.length_drop]
  omega

end Keyword
end DdlDiagram
