import DdlDiagram.CommandLine.Arguments
import DdlDiagram.CommandLine.Host
import DdlDiagram.Diagram
import DdlDiagram.Settings

/-!
# Performing a command

A run finds its settings, reads its input, makes its result and writes it, in this order. Each
of these steps can fail, and the run fails with the first one that does. Writing is the last
step, so a run that fails has written nothing, and one that reads the file it writes to has read
it as it was before. The reader of settings comes from outside: a run takes its verdict on a
document as it is.
-/

namespace DdlDiagram

inductive Failure where
  | missingSettings (path : Text)
  | unreadableSettings (error : FileError)
  | malformedSettings
  | file (error : FileError)
  | noSchema
  deriving DecidableEq, Repr

/-- The wording of a failure, where it is this program's own. -/
def Failure.message? : Failure → Option Text
  | missingSettings path => some ("Missing configuration file: ".toList ++ path)
  | unreadableSettings error => some ("Failed to read configuration: ".toList ++ error.message)
  | malformedSettings => none
  | file error => some ("I/O error: ".toList ++ error.message)
  | noSchema => some "no CREATE TABLE statements found".toList

section

variable {m : Type → Type} [Monad m] (host : Host m) (readSettings : Text → Option Settings)

/-- What a request gives, or the failure that its refusal is. -/
def Host.ask (request : m (Except FileError α)) (failure : FileError → Failure) :
    ExceptT Failure m α := ExceptT.mk ((·.mapError failure) <$> request)

def Host.askText (request : m (Except FileError ByteArray)) (failure : FileError → Failure) :
    ExceptT Failure m Text := Host.ask ((· >>= decodeUtf8) <$> request) failure

namespace Settings

def localPath : Text := "sqlerd.toml".toList

/-- The settings of the user, below the directory for the settings of all programs. -/
def userPath : Text := "sqlerd/config.toml".toList

def load (path : Text) : ExceptT Failure m Settings := do
  if ← host.isPresent path then
    let t ← Host.askText (host.readFile path) .unreadableSettings
    match readSettings t with
    | some settings => return settings
    | none => throw .malformedSettings
  else throw (.missingSettings path)

def pathsToTry (userSettings : Option Text) : List Text := localPath :: userSettings.toList

def firstPresent? : List Text → m (Option Text)
  | [] => return none
  | path :: rest => do if ← host.isPresent path then return some path else firstPresent? rest

/-- The settings for a run. A path that is given is the only one looked at. -/
def find (userSettings config : Option Text) : ExceptT Failure m Settings := do
  match config with
  | some path => load host readSettings path
  | none =>
    match ← (firstPresent? host (pathsToTry userSettings) : m (Option Text)) with
    | some path => load host readSettings path
    | none => return default

end Settings

def Host.readInput (input : Option Text) : ExceptT Failure m Text :=
  match input with
  | some path => Host.askText (host.readFile path) .file
  | none => Host.askText host.readStandardInput .file

def Host.writeOutput (output : Option Text) (t : Text) : ExceptT Failure m Unit :=
  match output with
  | some path => Host.ask (host.writeFile path (encodeUtf8 t)) .file
  | none => Host.ask (host.writeStandardOutput t) .file

/-- The diagram of a text. What was left out of it is reported. -/
def Host.render (settings : Settings) (t : Text) : ExceptT Failure m Text := do
  match Reading.ofText? settings.directiveMarks t with
  | some reading =>
    reading.warnings.forM fun warning => host.warn warning
    return reading.schema.diagram
  | none => throw .noSchema

namespace Arguments

/-- The part of a run behind the search for its settings. The list of tables is always written to
the standard output. -/
def performWith (arguments : Arguments) (settings : Settings) : ExceptT Failure m Unit := do
  let t ← host.readInput arguments.input
  match arguments.command with
  | .render =>
    let diagram ← host.render settings t
    host.writeOutput arguments.output diagram
  | .format => host.writeOutput arguments.output (t.format settings.indent ++ ['\n'])
  | .tables =>
    match Reading.ofText? settings.directiveMarks t with
    | some reading => host.writeOutput none (reading.schema.tableNames.flatMap (· ++ ['\n']))
    | none => throw .noSchema

def perform (arguments : Arguments) (userSettings : Option Text) : ExceptT Failure m Unit := do
  let settings ← Settings.find host readSettings userSettings arguments.config
  arguments.performWith host settings

end Arguments

end

structure Aftermath where
  standardOutput : Text
  files : FileTree
  warnings : List Warning
  failure : Option Failure

def Aftermath.ofOutcome (outcome : Except Failure Unit × World) : Aftermath where
  standardOutput := outcome.2.standardOutput
  files := outcome.2.files
  warnings := outcome.2.warnings
  failure := match outcome.1 with
    | .ok () => none
    | .error failure => some failure

namespace Arguments

def runIn (arguments : Arguments) (readSettings : Text → Option Settings)
    (userSettings : Option Text) (world : World) : Aftermath :=
  .ofOutcome ((arguments.perform World.host readSettings userSettings).run world)

end Arguments
end DdlDiagram
