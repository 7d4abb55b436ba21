import DdlDiagram.Text.Basic

/-!
# Declarations

A declaration in a table body is a column, a key clause, a clause that says nothing about the
diagram, or something the reader does not know, of which it keeps the text.
-/

namespace DdlDiagram

structure ColumnDeclaration where
  name : Text
  rawType : Text
  nullable : Bool
  primaryKey : Bool
  /-- The table that a `REFERENCES` clause of the column names. -/
  references : Option Text
  deriving DecidableEq, Repr

/-- What a line of a table body declares. -/
inductive Declaration where
  | column (column : ColumnDeclaration)
  | primaryKey (columns : List Text)
  | foreignKey (columns : List Text) (target : Text)
  /-- An index, unique or check clause. -/
  | ignored
  | unknown (text : Text)
  deriving DecidableEq, Repr

end DdlDiagram
