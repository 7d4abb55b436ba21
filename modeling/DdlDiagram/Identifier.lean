import DdlDiagram.Nesting.Group
import DdlDiagram.Nesting.Pieces
import DdlDiagram.Text.Alphanumeric

/-!
# Identifiers

An identifier is written bare, as a run of identifier characters, or between a pair of quoting
characters: backticks, double quotes or square brackets. Reading an identifier takes off one
such pair, and nothing inside the pair.
-/

namespace DdlDiagram

/-- Whether a character may stand in a bare identifier. -/
def isIdentifierChar (c : Char) : Bool := isAlphanumeric c || c == '_' || c == '$'

/-- The character that ends an identifier quoted by an opening character. -/
def closingQuote? (c : Char) : Option Char :=
  if c = '\x60' then some '\x60'
  else if c = '"' then some '"'
  else if c = '[' then some ']'
  else none

namespace Text

def startsIdentifier : Text → Bool
  | [] => false
  | c :: _ => isIdentifierChar c

/-- An identifier without the blanks around it and without one pair of quoting characters. The
two characters of the pair have to be distinct places of the text. -/
def unquote (t : Text) : Text :=
  match t.trim with
  | [] => []
  | first :: rest =>
    match closingQuote? first, rest.getLast? with
    | some close, some last => if last = close then rest.dropLast else first :: rest
    | _, _ => first :: rest

/-- The identifiers of a list separated by commas. A group behind an identifier, such as the
length in `name(10)`, is not part of it, and empty entries are dropped. -/
def identifiers (t : Text) : List Text :=
  (t.partsBetween ',' |>.map fun part => part.trim.beforeGroup.unquote).filter (!·.isEmpty)

@[simp] theorem unquote_nil : unquote [] = [] := rfl

theorem ne_nil_of_mem_identifiers {t name : Text} (h : name ∈ identifiers t) : name ≠ [] := by
  simpa using (List.mem_filter.1 h).2

end Text

@[simp] theorem isIdentifierChar_underscore : isIdentifierChar '_' = true := by decide

@[simp] theorem isIdentifierChar_dollar : isIdentifierChar '$' = true := by decide

/-- ASCII letters and digits may stand in a bare identifier. -/
theorem isIdentifierChar_of_isAlphanum {c : Char} (h : c.isAlphanum) :
    isIdentifierChar c = true := by
  simp [isIdentifierChar, isAlphanumeric_of_isAlphanum h]

end DdlDiagram
