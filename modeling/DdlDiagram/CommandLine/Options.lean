import DdlDiagram.CommandLine.Arguments

/-!
# Command-line options

A command is named by the first argument that is not an option; its own arguments follow. The
options for the settings file and the log level may stand before the command or behind it, and
behind it they win. An option is given at most once on each side, as `--output file`,
`--output=file`, `-o file`, `-ofile` or `-o=file`. Behind `--` nothing is an option any more.
-/

namespace DdlDiagram

namespace Command

/-- The command of a name. Only the whole name in lower case counts. -/
def ofName? (name : Text) : Option Command :=
  if name = "render".toList then some .render
  else if name = "format".toList then some .format
  else if name = "tables".toList then some .tables
  else none

end Command

namespace Arguments

/-- The options. Each of them takes a value. -/
inductive Flag where
  | config
  | logLevel
  | output
  deriving DecidableEq, Repr

/-- The options that may stand before the command. -/
def globalFlags : List Flag := [.config, .logLevel]

def flagsOf : Command → List Flag
  | .render => .output :: globalFlags
  | .format => .output :: globalFlags
  | .tables => globalFlags

def Flag.longName : Flag → Text
  | config => "config".toList
  | logLevel => "log-level".toList
  | output => "output".toList

def Flag.letter? : Flag → Option Char
  | config => some 'c'
  | logLevel => none
  | output => some 'o'

inductive Argument where
  /-- An option, with its value if that stands in the same argument. -/
  | option (flag : Flag) (value : Option Text)
  /-- The mark behind which nothing is an option. -/
  | endOfOptions
  | plain (text : Text)
  | unknown
  deriving DecidableEq, Repr

def dropEquals : Text → Text
  | '=' :: rest => rest
  | t => t

/-- What a text is as an argument where some options may stand. A dash alone is no option. -/
def argumentOf (flags : List Flag) : Text → Argument
  | ['-', '-'] => .endOfOptions
  | '-' :: '-' :: text =>
    let (name, value) := match Text.splitOnce '=' text with
      | some (name, value) => (name, some value)
      | none => (text, none)
    match flags.find? (·.longName = name) with
    | some flag => .option flag value
    | none => .unknown
  | '-' :: letter :: rest =>
    match flags.find? (·.letter? = some letter) with
    | some flag => .option flag (if rest.isEmpty then none else some (dropEquals rest))
    | none => .unknown
  | text => .plain text

/-- Whether an argument may be the value of the option before it. -/
def isValue (text : Text) : Bool := text.head? != some '-' || text == ['-']

/-- The values collected on one side of the command. -/
structure Given where
  input : Option Text := none
  output : Option Text := none
  config : Option Text := none
  logLevel : Option Text := none
  deriving DecidableEq, Repr

namespace Given

/-- A path that was not given before. It must not be empty. -/
def newPath? (old : Option Text) (path : Text) : Option Text :=
  if old.isSome || path.isEmpty then none else some path

def set? (given : Given) (flag : Flag) (value : Text) : Option Given :=
  match flag with
  | .config => (newPath? given.config value).map ({ given with config := some · })
  | .output => (newPath? given.output value).map ({ given with output := some · })
  | .logLevel => if given.logLevel.isSome then none else some { given with logLevel := some value }

def setInput? (given : Given) (path : Text) : Option Given :=
  (newPath? given.input path).map ({ given with input := some · })

end Given

/-- The arguments before the command, the command, and the arguments behind it. -/
def splitCommand? (given : Given) : List Text → Option (Given × Command × List Text)
  | [] => none
  | text :: rest =>
    match argumentOf globalFlags text with
    | .option flag (some value) => do splitCommand? (← given.set? flag value) rest
    | .option flag none =>
      match rest with
      | [] => none
      | value :: others =>
        if isValue value then do splitCommand? (← given.set? flag value) others else none
    | .plain name => (Command.ofName? name).map (given, ·, rest)
    | _ => none

/-- The arguments behind the command. -/
def collect? (flags : List Flag) (given : Given) : List Text → Option Given
  | [] => some given
  | text :: rest =>
    match argumentOf flags text with
    | .option flag (some value) => do collect? flags (← given.set? flag value) rest
    | .option flag none =>
      match rest with
      | [] => none
      | value :: others =>
        if isValue value then do collect? flags (← given.set? flag value) others else none
    | .plain path => do collect? flags (← given.setInput? path) rest
    | .endOfOptions => rest.foldlM Given.setInput? given
    | .unknown => none

/-- The command that the arguments of a program give, if they give one. -/
def ofList? (arguments : List Text) : Option Arguments := do
  let (before, command, rest) ← splitCommand? {} arguments
  let behind ← collect? (flagsOf command) {} rest
  return {
    command
    input := behind.input
    output := if command = .tables then none else behind.output
    config := behind.config.or before.config
    logLevel := (behind.logLevel.or before.logLevel).getD defaultLogLevel
    output_eq_none := fun h => if_pos h }

end Arguments
end DdlDiagram
