import DdlDiagram.Proofs.CommandLine.Footprint
import DdlDiagram.Proofs.CommandLine.Run

/-!
# The search for settings

A run without a path of settings takes the first place where something is, and goes on exactly as
if that path had been given. What it finds there is final: settings that cannot be read or are not
valid fail the run. So the settings of a run depend on one file only, and with a path that is given
no other file matters but the one that is read and the place that is written.
-/

namespace DdlDiagram

variable {world : World} {tree tree' : FileTree} {path : Text} {failure : Failure}
variable {userSettings : Option Text} {arguments : Arguments}
variable {readSettings : Text → Option Settings}

namespace Settings

/-- Why settings at a path fail a run: nothing is there, the request to read it is refused, it is no
file that can be read, or not text in UTF-8, or no document of settings. -/
inductive FailAt (readSettings : Text → Option Settings) (world : World) (path : Text) :
    Failure → Prop
  | missing (h : world.files.isPresent path = false) :
    FailAt readSettings world path (.missingSettings path)
  | refused {error} (hpresent : world.files.isPresent path = true)
    (h : world.refusals.head?.join = some error) :
    FailAt readSettings world path (.unreadableSettings error)
  | unreadable {error} (hpresent : world.files.isPresent path = true)
    (hgranted : world.refusals.head?.join = none) (h : world.files.read path = .error error) :
    FailAt readSettings world path (.unreadableSettings error)
  | notUtf8 {content} (hpresent : world.files.isPresent path = true)
    (hgranted : world.refusals.head?.join = none) (hread : world.files.read path = .ok content)
    (h : decodeUtf8 content = .error .notUtf8) :
    FailAt readSettings world path (.unreadableSettings .notUtf8)
  | malformed {t} (hpresent : world.files.isPresent path = true)
    (hgranted : world.refusals.head?.join = none) (htext : world.files.HasText path t)
    (h : readSettings t = none) : FailAt readSettings world path .malformedSettings

/-- Settings that fail a run give the failure when they are loaded. -/
theorem FailAt.loaded_eq (h : FailAt readSettings world path failure) :
    loaded readSettings world path = .error failure := by
  cases h with
  | missing hmissing => rw [loaded, if_neg (by simp [hmissing])]
  | refused hpresent hrefused => rw [loaded, if_pos hpresent, hrefused]
  | unreadable hpresent hgranted hread =>
      rw [loaded, if_pos hpresent, hgranted, hread]
      rfl
  | @notUtf8 content hpresent hgranted hread hdecode =>
      have hbind : (Except.ok content >>= decodeUtf8) = .error .notUtf8 := hdecode
      rw [loaded, if_pos hpresent, hgranted, hread, hbind]
      rfl
  | @malformed t hpresent hgranted htext hinvalid =>
      obtain ⟨content, hread, hdecode⟩ := htext
      have hbind : (Except.ok content >>= decodeUtf8) = .ok t := hdecode
      have hverdict : verdict readSettings t = .error .malformedSettings := by
        rw [verdict, hinvalid]
        rfl
      rw [loaded, if_pos hpresent, hgranted, hread, hbind]
      exact hverdict

/-- The path of the settings for a run: the one that is given, or else the first place where
something is. -/
inductive IsChosen (tree : FileTree) (userSettings : Option Text) :
    (config : Option Text) → (path : Text) → Prop
  | given {path : Text} : IsChosen tree userSettings (some path) path
  | inDirectory (h : tree.isPresent localPath = true) : IsChosen tree userSettings none localPath
  | ofUser {path : Text} (hlocal : tree.isPresent localPath = false) (huser : userSettings = some path)
    (h : tree.isPresent path = true) : IsChosen tree userSettings none path

theorem find?_pathsToTry (userSettings : Option Text) (tree : FileTree) :
    (pathsToTry userSettings).find? tree.isPresent =
      if tree.isPresent localPath = true then some localPath
      else userSettings.filter tree.isPresent := by
  have huser : userSettings.toList.find? tree.isPresent = userSettings.filter tree.isPresent := by
    cases userSettings with
    | none => rfl
    | some path => simp [Option.filter, List.find?_singleton]
  rw [pathsToTry, List.find?_cons, huser]
  cases tree.isPresent localPath <;> rfl

theorem IsChosen.run_find {config : Option Text}
    (h : IsChosen world.files userSettings config path)
    (readSettings : Text → Option Settings) :
    (find World.host readSettings userSettings config).run world =
      (load World.host readSettings path).run world := by
  cases h with
  | given => rfl
  | inDirectory h => rw [run_find_none, find?_pathsToTry, if_pos h]
  | ofUser hlocal huser h =>
      have huser' : userSettings.filter world.files.isPresent = some path := by
        rw [huser, Option.filter_some, if_pos h]
      rw [run_find_none, find?_pathsToTry, if_neg (by simp [hlocal]), huser']

end Settings

/-- Two file trees in which the settings at a path, the input and the output of a run are the same
places. -/
structure FileTree.LeadSame (tree tree' : FileTree) (path : Text) (arguments : Arguments) :
    Prop where
  settings : tree'.lookUp path = tree.lookUp path
  input : ∀ path ∈ arguments.input, tree'.lookUp path = tree.lookUp path
  output : ∀ path ∈ arguments.output, tree'.locationToWrite path = tree.locationToWrite path

namespace Arguments

def runWith (arguments : Arguments) (settings : Settings) (world : World) : Aftermath :=
  .ofOutcome ((arguments.performWith World.host settings).run world)

/-- A run is decided by the settings that it finds. -/
theorem runIn_congr {config : Option Text} (arguments : Arguments) (userSettings : Option Text)
    (h : (Settings.find World.host readSettings userSettings arguments.config).run world =
      (Settings.find World.host readSettings userSettings config).run world) :
    arguments.runIn readSettings userSettings world =
      { arguments with config }.runIn readSettings userSettings world := by
  have hrun : ∀ arguments : Arguments, arguments.runIn readSettings userSettings world =
      .ofOutcome (ExceptT.bindCont (arguments.performWith World.host)
        ((Settings.find World.host readSettings userSettings arguments.config).run world).1
        ((Settings.find World.host readSettings userSettings arguments.config).run world).2) :=
    fun _ => rfl
  rw [hrun, hrun, h]
  rfl

/-- Without a path of settings a run is the one with the path that the search finds, or the one
with the default settings. -/
theorem runIn_of_config_eq_none (hconfig : arguments.config = none)
    (readSettings : Text → Option Settings) (userSettings : Option Text) (world : World) :
    arguments.runIn readSettings userSettings world =
      if world.files.isPresent Settings.localPath = true then
        { arguments with config := some Settings.localPath }.runIn readSettings userSettings world
      else
        match userSettings.filter world.files.isPresent with
        | some path =>
          { arguments with config := some path }.runIn readSettings userSettings world
        | none => arguments.runWith .default world := by
  have hfind := Settings.run_find_none readSettings userSettings world
  rw [Settings.find?_pathsToTry] at hfind
  split
  · rename_i hlocal
    rw [if_pos hlocal] at hfind
    apply runIn_congr
    rw [hconfig]
    exact hfind
  · rename_i hlocal
    rw [if_neg hlocal] at hfind
    split
    · rename_i path hpath
      rw [hpath] at hfind
      apply runIn_congr
      rw [hconfig]
      exact hfind
    · rename_i hnone
      rw [hnone] at hfind
      have hrun : (arguments.perform World.host readSettings userSettings).run world =
          (arguments.performWith World.host .default).run world := by
        rw [perform, hconfig]
        exact Host.run_bind_of_ok hfind
      rw [runIn, hrun, runWith]

/-- Settings that cannot be loaded end the run before it has done anything. -/
theorem runIn_of_failAt
    (hchosen : Settings.IsChosen world.files userSettings arguments.config path)
    (hfail : Settings.FailAt readSettings world path failure) :
    arguments.runIn readSettings userSettings world =
      ⟨world.standardOutput, world.files, world.warnings, some failure⟩ := by
  have hload := hchosen.run_find readSettings
  rw [Settings.run_load, hfail.loaded_eq] at hload
  rw [runIn, perform, Host.run_bind_of_error hload]
  rfl

/-- With a path of settings a run does the same in file trees that have the same at its paths. -/
theorem runIn_of_leadSame (hconfig : arguments.config = some path)
    (hsame : world.files.LeadSame tree' path arguments) (readSettings : Text → Option Settings)
    (userSettings userSettings' : Option Text) : ∃ file,
      (arguments.runIn readSettings userSettings world).files = world.files.withFile file ∧
      arguments.runIn readSettings userSettings' { world with files := tree' } =
        { arguments.runIn readSettings userSettings world with files := tree'.withFile file } := by
  have hacts : ActsAlike world.files tree' (fun _ => True)
      (arguments.perform World.host readSettings userSettings) := by
    rw [perform, hconfig]
    exact (ActsAlike.load readSettings hsame.settings).bind trivial
      (ActsAlike.performWith hsame.input hsame.output)
  -- The settings of the user are asked for by a search only.
  have hsearch : arguments.perform World.host readSettings userSettings' =
      arguments.perform World.host readSettings userSettings := by
    rw [perform, perform, hconfig]
    rfl
  obtain ⟨file, -, hfiles, hother⟩ := hacts world rfl
  refine ⟨file, hfiles, ?_⟩
  rw [runIn, hsearch, hother]
  rfl

/-- Without a path of settings a run is the one with the path of the settings in the working
directory, or else with that of the settings of the user, wherever something is, and otherwise the
one with the default settings. Whether it is given or found, settings at that path that cannot be
loaded fail the run, and nothing is written or reported. With a path that is given, the run does
the same in all file trees that have the same at this path and at the paths of its input and its
output. -/
theorem runIn_search (arguments : Arguments) (readSettings : Text → Option Settings)
    (userSettings : Option Text) (world : World) :
    (arguments.config = none → arguments.runIn readSettings userSettings world =
      if world.files.isPresent Settings.localPath = true then
        { arguments with config := some Settings.localPath }.runIn readSettings userSettings world
      else
        match userSettings.filter world.files.isPresent with
        | some path =>
          { arguments with config := some path }.runIn readSettings userSettings world
        | none => arguments.runWith .default world) ∧
    (∀ path failure, Settings.IsChosen world.files userSettings arguments.config path →
      Settings.FailAt readSettings world path failure →
      arguments.runIn readSettings userSettings world =
        ⟨world.standardOutput, world.files, world.warnings, some failure⟩) ∧
    ∀ path, arguments.config = some path → ∀ userSettings' tree',
      world.files.LeadSame tree' path arguments → ∃ file,
        (arguments.runIn readSettings userSettings world).files = world.files.withFile file ∧
        arguments.runIn readSettings userSettings' { world with files := tree' } =
          { arguments.runIn readSettings userSettings world with
            files := tree'.withFile file } := by
  refine ⟨?_, fun path failure => runIn_of_failAt, ?_⟩
  · intro hconfig
    exact runIn_of_config_eq_none hconfig readSettings userSettings world
  · intro path hconfig userSettings' tree' hsame
    exact runIn_of_leadSame hconfig hsame readSettings userSettings userSettings'

/-- A tree with a text and with the settings of the user. -/
def plainTree : FileTree :=
  ((FileTree.ofWorkingDirectory []).addFile ['a'] (encodeUtf8 "x  y".toList)).addFile ['u']
    (encodeUtf8 "[format]\nindent = 2".toList)

/-- The same tree with a directory where the settings of the working directory should be. -/
def blockedTree : FileTree := plainTree.addDirectories [Settings.localPath]

def formatting : Arguments := ⟨.format, some ['a'], none, none, defaultLogLevel, by decide⟩

/-- Without a path the directory fails the run, though the settings of the user could be read. With
their path the run does the same whether the directory is there or not. -/
theorem runIn_search_blockedTree :
    formatting.runIn Settings.ofToml? (some ['u']) ⟨blockedTree, .empty, [], [], []⟩ =
      ⟨[], blockedTree, [], some (.unreadableSettings .isDirectory)⟩ ∧
    blockedTree.LeadSame plainTree ['u'] { formatting with config := some ['u'] } ∧
    ({ formatting with config := some ['u'] }.runIn Settings.ofToml? none
      ⟨blockedTree, .empty, [], [], []⟩).standardOutput = "x y\n".toList ∧
    ({ formatting with config := some ['u'] }.runIn Settings.ofToml? (some ['v'])
      ⟨plainTree, .empty, [], [], []⟩).standardOutput = "x y\n".toList := by
  have hchosen : Settings.IsChosen blockedTree (some ['u']) none Settings.localPath :=
    .inDirectory (by decide +kernel)
  have hnode : ∀ {x : Except FileError FileNode} {node}, x.toOption = some node → x = .ok node := by
    intro x node h
    cases x with
    | error error => cases h
    | ok found => rw [Option.some.inj h]
  have hdirectory : blockedTree.lookUp Settings.localPath = .ok .directory :=
    hnode (by decide +kernel)
  have hfail : Settings.FailAt Settings.ofToml? ⟨blockedTree, .empty, [], [], []⟩
      Settings.localPath (.unreadableSettings .isDirectory) := by
    refine .unreadable (by decide +kernel) rfl ?_
    rw [FileTree.read, hdirectory]
    rfl
  have hsettings : ∀ tree ∈ [plainTree, blockedTree],
      tree.lookUp ['u'] = .ok (.file (encodeUtf8 "[format]\nindent = 2".toList)) ∧
      tree.lookUp ['a'] = .ok (.file (encodeUtf8 "x  y".toList)) := by
    simp only [List.forall_mem_cons]
    exact ⟨⟨hnode (by decide +kernel), hnode (by decide +kernel)⟩,
      ⟨hnode (by decide +kernel), hnode (by decide +kernel)⟩, List.forall_mem_nil _⟩
  obtain ⟨hplain, hplain'⟩ := hsettings plainTree List.mem_cons_self
  obtain ⟨hother, hother'⟩ := hsettings blockedTree (by simp)
  have hsame : blockedTree.LeadSame plainTree ['u'] { formatting with config := some ['u'] } := by
    refine ⟨hplain.trans hother.symm, ?_, by simp [formatting]⟩
    intro path hpath
    obtain rfl := Option.some.inj hpath
    exact hplain'.trans hother'.symm
  have houtput : ({ formatting with config := some ['u'] }.runIn Settings.ofToml? none
      ⟨blockedTree, .empty, [], [], []⟩).standardOutput = "x y\n".toList := by decide +kernel
  obtain ⟨-, hblocked, -⟩ :=
    formatting.runIn_search Settings.ofToml? (some ['u']) ⟨blockedTree, .empty, [], [], []⟩
  obtain ⟨-, -, halike⟩ := { formatting with config := some ['u'] }.runIn_search Settings.ofToml?
    none ⟨blockedTree, .empty, [], [], []⟩
  obtain ⟨file, -, hleft⟩ := halike ['u'] rfl (some ['v']) plainTree hsame
  refine ⟨hblocked _ _ hchosen hfail, hsame, houtput, ?_⟩
  rw [hleft]
  -- The run before is to be compared with this one in what it writes only, not in its file trees.
  simpa only using houtput

end Arguments
end DdlDiagram
