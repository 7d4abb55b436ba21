import DdlDiagram.CommandLine.Run
import DdlDiagram.Proofs.CommandLine.Contract
import DdlDiagram.Proofs.Files.Written

/-!
# Runs write once, at their end

Each part of a run but the last one looks at the world and leaves files and standard output as
they are, whether it fails or not. The last one writes the result, or fails and writes nothing.
So what a run makes is made of the files as they were before it, also where it writes to one of
them, and a run that fails has changed nothing.
-/

namespace DdlDiagram

variable {world middle : World} (readSettings : Text → Option Settings)

def FileTree.HasText (tree : FileTree) (path t : Text) : Prop :=
  ∃ content, tree.read path = .ok content ∧ decodeUtf8 content = .ok t

namespace Settings

/-- A file that holds settings. -/
def AreIn (tree : FileTree) (path : Text) (settings : Settings) : Prop :=
  ∃ t, tree.HasText path t ∧ readSettings t = some settings

/-- The settings for a run in a file tree. A path that is given has to lead to them. Otherwise the
first path that leads to anything does, and if there is none, the settings are the default ones. -/
inductive Govern (tree : FileTree) (userSettings : Option Text) :
    (config : Option Text) → (settings : Settings) → Prop
  | given {path settings} (h : AreIn readSettings tree path settings) :
    Govern tree userSettings (some path) settings
  | present {path settings} (hpath : (pathsToTry userSettings).find? tree.isPresent = some path)
    (h : AreIn readSettings tree path settings) : Govern tree userSettings none settings
  | absent (h : (pathsToTry userSettings).find? tree.isPresent = none) :
    Govern tree userSettings none default

end Settings

/-- The text that a run reads, from a path or the standard input. -/
inductive IsInput (tree : FileTree) (standardInput : ByteArray) :
    (input : Option Text) → (t : Text) → Prop
  | file {path t} (h : tree.HasText path t) : IsInput tree standardInput (some path) t
  | standardInput {t} (h : decodeUtf8 standardInput = .ok t) : IsInput tree standardInput none t

inductive Makes (settings : Settings) (t : Text) : Command → (result : Text) → Prop
  | render {r : Reading} (h : Reading.ofText? settings.directiveMarks t = some r) :
    Makes settings t .render r.schema.diagram
  | format : Makes settings t .format (t.format settings.indent ++ ['\n'])
  | tables {r : Reading} (h : Reading.ofText? settings.directiveMarks t = some r) :
    Makes settings t .tables (r.schema.tableNames.flatMap (· ++ ['\n']))

/-- A text has been written, to a path or the standard output, and nothing else has. -/
def World.Delivers (world left : World) (t : Text) : (output : Option Text) → Prop
  | some path => left.standardOutput = world.standardOutput ∧
      world.files.IsWritten left.files path (encodeUtf8 t)
  | none => left.standardOutput = world.standardOutput ++ t ∧ left.files = world.files

namespace Meets

open World

variable {failure : FileError → Failure} {failed : World → Prop} {path t : Text}

theorem readFile : Meets ((Host.askText (World.host.readFile path) failure).run world)
    (fun t left => world.files.HasText path t ∧ world.Untouched left ∧
      left.standardInput = world.standardInput) world.Untouched := by
  apply askText
  apply request
  · exact fun _ => ⟨rfl, rfl⟩
  · intro refusals
    unfold Meets
    cases hread : world.files.read path with
    | error error => exact ⟨rfl, rfl⟩
    | ok content =>
        refine ⟨?_, rfl, rfl⟩
        intro t hdecode
        exact ⟨⟨content, hread, hdecode⟩, ⟨rfl, rfl⟩, rfl⟩

theorem isPresent : Meets ((liftM (World.host.isPresent path) :
      ExceptT Failure (StateM World) Bool).run world)
    (fun present left => present = world.files.isPresent path ∧ left = world) failed :=
  lift ⟨rfl, rfl⟩

theorem load : Meets ((Settings.load World.host readSettings path).run world)
    (fun settings left => Settings.AreIn readSettings world.files path settings ∧
      world.Untouched left ∧ left.standardInput = world.standardInput) world.Untouched := by
  apply bind isPresent
  rintro present left ⟨rfl, rfl⟩
  split
  · apply bind readFile
    rintro t left ⟨htext, huntouched, hinput⟩
    split
    · rename_i settings hsettings
      exact ⟨⟨t, htext, hsettings⟩, huntouched, hinput⟩
    · exact huntouched
  · exact Untouched.refl _

theorem firstPresent? (paths : List Text) :
    Meets ((liftM (Settings.firstPresent? World.host paths) :
      ExceptT Failure (StateM World) (Option Text)).run world)
      (fun path left => path = paths.find? world.files.isPresent ∧ left = world) failed := by
  apply lift
  rw [Settings.firstPresent?_eq]
  exact ⟨rfl, rfl⟩

theorem find (userSettings config : Option Text) :
    Meets ((Settings.find World.host readSettings userSettings config).run world)
      (fun settings left => Settings.Govern readSettings world.files userSettings config settings ∧
        world.Untouched left ∧ left.standardInput = world.standardInput) world.Untouched := by
  cases config with
  | some path =>
      apply (load readSettings).imp
      rintro settings left ⟨hsettings, hsame⟩
      exact ⟨.given hsettings, hsame⟩
  | none =>
      apply bind (firstPresent? (Settings.pathsToTry userSettings))
      rintro path left ⟨hpath, rfl⟩
      cases path with
      | some path =>
          apply (load readSettings).imp
          rintro settings left ⟨hsettings, hsame⟩
          exact ⟨.present hpath.symm hsettings, hsame⟩
      | none => exact ⟨.absent hpath.symm, .refl left, rfl⟩

theorem readInput (input : Option Text) : Meets ((World.host.readInput input).run world)
    (fun t left => IsInput world.files world.standardInput input t ∧ world.Untouched left)
    world.Untouched := by
  cases input with
  | some path =>
      apply readFile.imp
      rintro t left ⟨htext, huntouched, -⟩
      exact ⟨.file htext, huntouched⟩
  | none =>
      apply askText
      apply request
      · exact fun _ => ⟨rfl, rfl⟩
      · exact fun _ => ⟨fun t hdecode => ⟨.standardInput hdecode, ⟨rfl, rfl⟩⟩, ⟨rfl, rfl⟩⟩

theorem warn {warning : Warning} :
    Meets ((liftM (World.host.warn warning) : ExceptT Failure (StateM World) Unit).run world)
      (fun _ => world.Untouched) failed := lift ⟨rfl, rfl⟩

theorem warnAll (warnings : List Warning) :
    Meets ((warnings.forM fun warning => World.host.warn warning :
      ExceptT Failure (StateM World) Unit).run world) (fun _ => world.Untouched) failed := by
  induction warnings generalizing world with
  | nil => exact Untouched.refl world
  | cons warning rest ih =>
      apply bind warn
      intro _ left huntouched
      exact ih.imp fun _ _ => huntouched.trans

theorem render (settings : Settings) (t : Text) :
    Meets ((World.host.render settings t).run world)
      (fun result left => Makes settings t .render result ∧ world.Untouched left)
      world.Untouched := by
  unfold Host.render
  split
  · rename_i reading hreading
    apply bind (warnAll reading.warnings)
    intro _ left huntouched
    exact ⟨.render hreading, huntouched⟩
  · exact Untouched.refl world

theorem writeOutput (output : Option Text) (t : Text) :
    Meets ((World.host.writeOutput output t).run world)
      (fun _ left => world.Delivers left t output) world.Untouched := by
  cases output with
  | some path =>
      apply ask
      apply request
      · exact fun _ => ⟨rfl, rfl⟩
      · intro refusals
        unfold Meets
        cases hwrite : world.files.write path (encodeUtf8 t) with
        | error error => exact ⟨rfl, rfl⟩
        | ok written => exact ⟨rfl, FileTree.isWritten_of_write hwrite⟩
  | none =>
      apply ask
      apply request
      · exact fun _ => ⟨rfl, rfl⟩
      · exact fun _ => ⟨rfl, rfl⟩

/-- Writing as the last step, where nothing has been written before. -/
theorem deliver (h : world.Untouched middle) (output : Option Text) (t : Text) :
    Meets ((World.host.writeOutput output t).run middle)
      (fun _ left => world.Delivers left t output) world.Untouched := by
  apply (writeOutput output t).mono
  · intro _ left hdelivers
    cases output with
    | some path =>
        obtain ⟨hsame, hwritten⟩ := hdelivers
        rw [h.files] at hwritten
        exact ⟨hsame.trans h.standardOutput, hwritten⟩
    | none =>
        obtain ⟨hwritten, hsame⟩ := hdelivers
        rw [h.standardOutput] at hwritten
        exact ⟨hwritten, hsame.trans h.files⟩
  · exact fun _ => h.trans

/-- Up to its last step a run only looks at the world, and its last step writes what it makes. -/
theorem perform (arguments : Arguments) (userSettings : Option Text) (world : World) :
    Meets ((arguments.perform World.host readSettings userSettings).run world)
      (fun _ left => ∃ settings t result,
        Settings.Govern readSettings world.files userSettings arguments.config settings ∧
        IsInput world.files world.standardInput arguments.input t ∧
        Makes settings t arguments.command result ∧ world.Delivers left result arguments.output)
      world.Untouched := by
  apply bind (find readSettings userSettings arguments.config)
  rintro settings first ⟨hsettings, hfirst, hstandard⟩
  apply bind ((readInput arguments.input).mono (fun _ _ => id) fun _ => hfirst.trans)
  rintro t second ⟨hinput, hsecond⟩
  rw [hfirst.files, hstandard] at hinput
  have huntouched := hfirst.trans hsecond
  cases hcommand : arguments.command with
  | render =>
      apply bind ((render settings t).mono (fun _ _ => id) fun _ => huntouched.trans)
      rintro diagram third ⟨hmakes, hthird⟩
      apply (deliver (huntouched.trans hthird) arguments.output diagram).imp
      intro _ left hdelivers
      exact ⟨settings, t, diagram, hsettings, hinput, hmakes, hdelivers⟩
  | format =>
      apply (deliver huntouched arguments.output _).imp
      intro _ left hdelivers
      exact ⟨settings, t, _, hsettings, hinput, .format, hdelivers⟩
  | tables =>
      simp only
      split
      · rename_i reading hreading
        rw [arguments.output_eq_none hcommand]
        apply (deliver huntouched none _).imp
        intro _ left hdelivers
        exact ⟨settings, t, _, hsettings, hinput, .tables hreading, hdelivers⟩
      · exact huntouched

end Meets

namespace Arguments

/-- A run that fails has changed neither a file nor the standard output. One that succeeds has
written what its command makes of the input, with the settings and the input as they were before
it, and nothing else. Each of its requests may be refused, and its settings are whatever a reader
makes of documents. -/
theorem runIn_unchanged_or_delivers (arguments : Arguments)
    (readSettings : Text → Option Settings) (tree : FileTree) (userSettings : Option Text)
    (standardInput : ByteArray) (refusals : List (Option FileError)) :
    let left := arguments.runIn readSettings userSettings ⟨tree, standardInput, [], [], refusals⟩
    (left.failure ≠ none → left.standardOutput = [] ∧ left.files = tree) ∧
    (left.failure = none → ∃ settings t result,
      Settings.Govern readSettings tree userSettings arguments.config settings ∧
      IsInput tree standardInput arguments.input t ∧ Makes settings t arguments.command result ∧
      match arguments.output with
      | some path => left.standardOutput = [] ∧
          tree.IsWritten left.files path (encodeUtf8 result)
      | none => left.standardOutput = result ∧ left.files = tree) := by
  intro left
  have hmeets := Meets.perform readSettings arguments userSettings
    ⟨tree, standardInput, [], [], refusals⟩
  obtain ⟨hfailed, hdone⟩ := hmeets.aftermath
  constructor
  · intro hfailure
    obtain ⟨hfiles, hstandard⟩ := hfailed hfailure
    exact ⟨hstandard, hfiles⟩
  · intro hnone
    obtain ⟨settings, t, result, hsettings, hinput, hmakes, hdelivers⟩ := hdone hnone
    refine ⟨settings, t, result, hsettings, hinput, hmakes, ?_⟩
    cases houtput : arguments.output with
    | some path =>
        rw [houtput] at hdelivers
        exact hdelivers
    | none =>
        rw [houtput] at hdelivers
        exact hdelivers

/-- A document without settings that is a text with a table as well. -/
def commented : Text := "# CREATE TABLE b (c INT)".toList

def commentedTree : FileTree :=
  (FileTree.ofWorkingDirectory []).addFile ['a'] (encodeUtf8 commented)

/-- A run that takes the settings and the input from the file that it writes to. -/
def rewriting : Arguments :=
  ⟨.render, some ['a'], some ['a'], some ['a'], defaultLogLevel, by decide⟩

/-- If all of its requests are granted it replaces the file, and if the last one is refused it
leaves the file as it is. -/
theorem runIn_rewriting :
    let left := rewriting.runIn Settings.ofToml? none ⟨commentedTree, .empty, [], [], []⟩
    left.failure = none ∧
    (∃ settings t result, Settings.Govern Settings.ofToml? commentedTree none (some ['a']) settings ∧
      IsInput commentedTree .empty (some ['a']) t ∧ Makes settings t .render result ∧
      left.standardOutput = [] ∧ commentedTree.IsWritten left.files ['a'] (encodeUtf8 result)) ∧
    (rewriting.runIn Settings.ofToml? none
      ⟨commentedTree, .empty, [], [], [none, none, some (.refused [])]⟩).files = commentedTree := by
  intro left
  have hgranted : left.failure = none := by decide +kernel
  have hrefused : (rewriting.runIn Settings.ofToml? none
      ⟨commentedTree, .empty, [], [], [none, none, some (.refused [])]⟩).failure ≠ none := by
    decide +kernel
  refine ⟨hgranted, ?_, ?_⟩
  · exact (rewriting.runIn_unchanged_or_delivers Settings.ofToml? commentedTree none .empty []).2
      hgranted
  · exact ((rewriting.runIn_unchanged_or_delivers Settings.ofToml? commentedTree none .empty
      [none, none, some (.refused [])]).1 hrefused).2

end Arguments
end DdlDiagram
