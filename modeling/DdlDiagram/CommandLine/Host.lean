import DdlDiagram.Files.Tree
import DdlDiagram.Reading

/-!
# Hosts of a run

A run asks the system around it for what it needs and hands it what it makes. Requests to read
and to write can be refused. The system can be the real one, or a state that has files, a
standard input and a standard output.
-/

namespace DdlDiagram

/-- What a run can ask of the system around it. -/
structure Host (m : Type → Type) where
  isPresent : Text → m Bool
  readFile : Text → m (Except FileError ByteArray)
  readStandardInput : m (Except FileError ByteArray)
  warn : Warning → m Unit
  writeFile : Text → ByteArray → m (Except FileError Unit)
  writeStandardOutput : Text → m (Except FileError Unit)

structure World where
  files : FileTree
  /-- What is left to read. -/
  standardInput : ByteArray
  /-- What has been written. -/
  standardOutput : Text
  /-- The warnings that have been reported, in order. -/
  warnings : List Warning
  /-- The errors with which the next requests are refused, in order. A request whose turn has none
  is granted, and so are all requests behind the last one here. -/
  refusals : List (Option FileError)

namespace World

/-- An action of the system, unless the request for it is refused. Then nothing is done. -/
def request (action : StateM World (Except FileError α)) : StateM World (Except FileError α) :=
  fun world =>
    match world.refusals with
    | [] => action world
    | none :: rest => action { world with refusals := rest }
    | some error :: rest => (.error error, { world with refusals := rest })

/-- A state as the system around a run. -/
def host : Host (StateM World) where
  isPresent path world := (world.files.isPresent path, world)
  readFile path := request fun world => (world.files.read path, world)
  readStandardInput := request fun world =>
    (.ok world.standardInput, { world with standardInput := .empty })
  warn warning world := ((), { world with warnings := world.warnings ++ [warning] })
  writeFile path content := request fun world =>
    match world.files.write path content with
    | .ok files => (.ok (), { world with files })
    | .error error => (.error error, world)
  writeStandardOutput t := request fun world =>
    (.ok (), { world with standardOutput := world.standardOutput ++ t })

end World
end DdlDiagram
