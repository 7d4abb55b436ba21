import DdlDiagram.CommandLine.Options
import DdlDiagram.CommandLine.Perform
import DdlDiagram.Toml.Settings

/-!
# Runs of the program

The program reads its settings as TOML documents.
-/

namespace DdlDiagram

/-- A run in a file tree, where no request is refused. -/
def Arguments.run (arguments : Arguments) (tree : FileTree) (userSettings : Option Text)
    (standardInput : ByteArray) : Aftermath :=
  arguments.runIn Settings.ofToml? userSettings ⟨tree, standardInput, [], [], []⟩

end DdlDiagram
