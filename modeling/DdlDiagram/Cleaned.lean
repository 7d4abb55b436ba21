import DdlDiagram.Directive
import DdlDiagram.Nesting.Quote

/-!
# Cleaned text

Before statements are read, comments and directive lines are taken out of the text. A quoted run
ends at the latest with its line here. A block comment may extend over lines; it leaves a single
blank where it closes and keeps the line feeds within it. A line that starts within a block
comment is never a directive.
-/

namespace DdlDiagram

/-- Where a point of a text lies. A line feed leads out of everything but a block comment. -/
inductive Place where
  /-- Outside comments, with the quoted run that is open there. -/
  | code (quote : Quote)
  | lineComment
  | blockComment
  deriving DecidableEq, Repr

/-- A text without comments, the bodies of the directives it held, in order, and the place at
which it ended. -/
structure Cleaned where
  text : Text
  directives : List Text
  place : Place
  deriving DecidableEq, Repr

namespace Cleaned

/-- A text without its comments, read from a place on, and the place at its end. Every line feed
is kept. -/
def strip : Place → Text → Text × Place
  | place, [] => ([], place)
  | .code quote, [c] => ([c], .code (if c = '\n' then none else quote.after c))
  | .code quote, c :: d :: rest =>
    if c = '\n' then (strip (.code none) (d :: rest)).map (c :: ·) id
    else if quote.covers c then (strip (.code (quote.after c)) (d :: rest)).map (c :: ·) id
    else if c = '-' ∧ d = '-' then strip .lineComment rest
    else if c = '/' ∧ d = '*' then strip .blockComment rest
    else (strip (.code quote) (d :: rest)).map (c :: ·) id
  | .lineComment, c :: rest =>
    if c = '\n' then (strip (.code none) rest).map (c :: ·) id else strip .lineComment rest
  | .blockComment, [c] => (if c = '\n' then [c] else [], .blockComment)
  | .blockComment, c :: d :: rest =>
    if c = '*' ∧ d = '/' then (strip (.code none) rest).map (' ' :: ·) id
    else if c = '\n' then (strip .blockComment (d :: rest)).map (c :: ·) id
    else strip .blockComment (d :: rest)

/-- The body of the directive that a line is, if it starts outside of comments. -/
def directive? (marks : List Text) (place : Place) (line : Text) : Option Text :=
  if place = .blockComment then none else Directive.bodyOfLine? marks line

/-- The lines without comments and directives. The first one starts at the given place. -/
def ofLines (marks : List Text) (place : Place) : List Text → Cleaned
  | [] => ⟨[], [], place⟩
  | line :: rest =>
    match directive? marks place line with
    | some body =>
      let cleaned := ofLines marks place rest
      { cleaned with directives := body :: cleaned.directives }
    | none =>
      let stripped := strip place line
      let cleaned := ofLines marks stripped.2 rest
      { cleaned with text := stripped.1 ++ cleaned.text }

/-- The text without comments and without the directives that the words `marks` mark. -/
def ofText (marks : List Text) (t : Text) : Cleaned := ofLines marks (.code none) t.lines

@[simp] theorem directive?_nil (place : Place) (line : Text) :
    directive? [] place line = none := by
  simp [directive?]

/-- Without marking words a text has no directives. -/
theorem directives_ofLines_nil (place : Place) (lines : List Text) :
    (ofLines [] place lines).directives = [] := by
  induction lines generalizing place with
  | nil => rfl
  | cons line rest ih => simp [ofLines, ih]

end Cleaned
end DdlDiagram
