import DdlDiagram.Directive
import DdlDiagram.Layout

/-!
# Settings

The words that mark directives and the width of the indentation can be set. How a document sets
them is for a reader of settings to say: it gives the settings, or none where the document is not
valid.
-/

namespace DdlDiagram

/-- What a document can set. -/
structure Settings where
  directiveMarks : List Text
  indent : Nat
  deriving DecidableEq, Repr

namespace Settings

/-- The settings of a document that sets nothing. -/
def default : Settings where
  directiveMarks := Directive.defaultMarks
  indent := Layout.defaultIndent

end Settings
end DdlDiagram
