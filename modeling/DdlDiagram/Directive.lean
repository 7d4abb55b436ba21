import DdlDiagram.Text.Basic

/-!
# Directives

A relationship that the tables do not declare can be given by a comment line of its own, such as
`-- diagram: Users }|--|| Teams : "member of"`. The word before the first colon marks the line
as a directive; what follows is its body: the source, the cardinality and the target, and after
a further colon the label. The parts are taken as they stand, in particular a label may contain
colons and quotes.
-/

namespace DdlDiagram

/-- A relationship given by a comment line. -/
structure Directive where
  source : Text
  cardinality : Text
  target : Text
  label : Text
  deriving DecidableEq, Repr

namespace Directive

/-- The body of a directive, if the whole line is one: a line comment whose text up to its first
colon is one of the marking words, in any case. -/
def bodyOfLine? (marks : List Text) (line : Text) : Option Text :=
  match line.trimStart with
  | '-' :: '-' :: comment => do
    let (mark, body) ← Text.splitOnce ':' (Text.trimStart comment)
    if marks.any (·.eqIgnoreCase mark.trimEnd) then some body.trim else none
  | _ => none

/-- A label without one pair of double quotes around it. -/
def bareLabel (label : Text) : Text :=
  match label with
  | '"' :: rest => if rest.getLast? = some '"' then rest.dropLast else label
  | _ => label

/-- The parts of a body before its first colon and the label behind it. A body without a colon
has an empty label. -/
def splitLabel (body : Text) : Text × Text :=
  match body.splitOnce ':' with
  | some (parts, label) => (parts, bareLabel label.trim)
  | none => (body, [])

/-- The directive with the parts of a body, if there are exactly three before the label. -/
def ofBody? (body : Text) : Option Directive :=
  match (splitLabel body).1.fields with
  | [source, cardinality, target] =>
    some { source, cardinality, target, label := (splitLabel body).2 }
  | _ => none

/-- The word that marks the directive lines this library writes. -/
def defaultMark : Text := "diagram".toList

/-- The words that mark a line as a directive where no others are asked for. -/
def defaultMarks : List Text := [defaultMark, "mermaid".toList]

/-- The comment line that declares a relationship. -/
def toLine (d : Directive) : Text :=
  "-- ".toList ++ defaultMark ++ ": ".toList ++ d.source ++ " ".toList ++ d.cardinality ++
    " ".toList ++ d.target ++ " : \"".toList ++ d.label.trim ++ "\"".toList

/-- Without marking words no line is a directive. -/
@[simp] theorem bodyOfLine?_nil (line : Text) : bodyOfLine? [] line = none := by
  unfold bodyOfLine?
  split <;> simp

@[simp] theorem bareLabel_nil : bareLabel [] = [] := rfl

/-- A label written between quotes is read back, whatever it contains. -/
@[simp] theorem bareLabel_quoted (label : Text) :
    bareLabel ('"' :: (label ++ ['"'])) = label := by
  simp [bareLabel]

end Directive
end DdlDiagram
