import DdlDiagram.Text.Basic

/-!
# Arguments of a run

A run is asked for one of three commands and given the places that it reads from and writes to.
-/

namespace DdlDiagram

inductive Command where
  /-- Write the diagram. -/
  | render
  /-- Lay the text out anew. -/
  | format
  /-- List the names of the tables. -/
  | tables
  deriving DecidableEq, Repr

structure Arguments where
  command : Command
  /-- The path to read from, instead of the standard input. -/
  input : Option Text
  /-- The path to write to, instead of the standard output. The list of tables has none. -/
  output : Option Text
  /-- The path of the settings. -/
  config : Option Text
  logLevel : Text
  output_eq_none : command = .tables → output = none
  deriving DecidableEq, Repr

def Arguments.defaultLogLevel : Text := "warn".toList

end DdlDiagram
