import DdlDiagram.CommandLine.Run

/-!
# The program

Runs the command of its arguments in the operating system. Warnings and failures go to the
standard error.
-/

namespace DdlDiagram
namespace Program

/-- The error for a refusal of the operating system. Its code may come with either sign. -/
def fileErrorOf (error : IO.Error) : FileError :=
  match error with
  | .noFileOrDirectory .. => .notFound
  | .inappropriateType _ code _ =>
    if code = 21 || code + 21 = 0 then .isDirectory else .notDirectory
  | .invalidArgument _ code _ =>
    if code = 36 || code + 36 = 0 then .nameTooLong else .refused (toString error).toList
  | _ => .refused (toString error).toList

def observe (action : IO α) : IO (Except FileError α) := do
  match ← action.toBaseIO with
  | .ok a => return .ok a
  | .error error => return .error (fileErrorOf error)

def readFile (path : Text) : IO (Except FileError ByteArray) :=
  observe (IO.FS.readBinFile (String.ofList path))

def userSettings? : IO (Option Text) := do
  match ← IO.getEnv "XDG_CONFIG_HOME", ← IO.getEnv "HOME" with
  | some directory, home =>
    if directory.startsWith "/" then return some (directory.toList ++ '/' :: Settings.userPath)
    else return home.map fun home => home.toList ++ "/.config/".toList ++ Settings.userPath
  | none, home => return home.map fun home => home.toList ++ "/.config/".toList ++ Settings.userPath

/-- Whether a log level lets messages of a severity through. A level that is not known counts as
the default one. -/
def shows (logLevel : Text) (warning : Bool) : Bool :=
  if logLevel.eqIgnoreCase "off".toList then false
  else if logLevel.eqIgnoreCase "error".toList then !warning
  else true

def say (arguments : Arguments) (warning : Bool) (message : Text) : IO Unit :=
  if shows arguments.logLevel warning then IO.eprintln (String.ofList message) else pure ()

/-- Report a failure; the code is that of the program's exit. -/
def fail (arguments : Arguments) (failure : Failure) : IO UInt32 := do
  say arguments false (failure.message?.getD "Failed to parse TOML configuration".toList)
  return 1

/-- The operating system. A path leads to something if reading there does not say otherwise. -/
def host (arguments : Arguments) : Host IO where
  isPresent path := do
    match ← readFile path with
    | .ok _ => return true
    | .error error => return !([.notFound, .notDirectory, .nameTooLong].contains error)
  readFile := readFile
  readStandardInput := observe do (← IO.getStdin).readBinToEnd
  warn warning := say arguments true warning.message
  writeFile path content := observe (IO.FS.writeBinFile (String.ofList path) content)
  writeStandardOutput t := observe do (← IO.getStdout).putStr (String.ofList t)

def run (arguments : Arguments) : IO UInt32 := do
  let userSettings ← userSettings?
  match ← (arguments.perform (host arguments) Settings.ofToml? userSettings).run with
  | .ok () => return 0
  | .error failure => fail arguments failure

def usage : String :=
  "usage: render|format|tables [INPUT] [-o OUTPUT] [-c CONFIG] [--log-level LEVEL]"

end Program
end DdlDiagram

/-- The exit code is 0 after a success, 1 after a failure and 2 for arguments not understood. -/
def main (arguments : List String) : IO UInt32 := do
  match DdlDiagram.Arguments.ofList? (arguments.map String.toList) with
  | some arguments => DdlDiagram.Program.run arguments
  | none =>
    IO.eprintln DdlDiagram.Program.usage
    return 2
