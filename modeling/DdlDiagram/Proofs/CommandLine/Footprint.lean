import DdlDiagram.Proofs.CommandLine.Requests

/-!
# Runs in two file trees

A run looks at a file tree at the paths of its settings, its input and its output only. In two file
trees that have the same there, each of its parts does the same: it gives the same result, leaves
the same world but for the files, and writes the same file or none.
-/

namespace DdlDiagram

variable {α β : Type} {tree tree' : FileTree} {path : Text} {arguments : Arguments}

def FileTree.withFile (tree : FileTree) (file : Option (Location × ByteArray)) : FileTree :=
  match file with
  | some (location, content) => tree.put location (.file content)
  | none => tree

/-- A part of a run that does the same in two file trees: it writes the same file to both, one of
those that it may write. -/
def ActsAlike (tree tree' : FileTree) (mayWrite : Option (Location × ByteArray) → Prop)
    (x : ExceptT Failure (StateM World) α) : Prop :=
  ∀ world : World, world.files = tree → ∃ file, mayWrite file ∧
    (x.run world).2.files = tree.withFile file ∧
    x.run { world with files := tree' } =
      ((x.run world).1, { (x.run world).2 with files := tree'.withFile file })

/-- A part of a run that does the same in two file trees and writes no file. -/
abbrev SeesSame (tree tree' : FileTree) (x : ExceptT Failure (StateM World) α) : Prop :=
  ActsAlike tree tree' (· = none) x

variable {x : ExceptT Failure (StateM World) α} {f : α → ExceptT Failure (StateM World) β}
variable {mayWrite : Option (Location × ByteArray) → Prop}

namespace ActsAlike

theorem of_files_eq (h : ∀ world : World, world.files = tree → (x.run world).2.files = tree ∧
    x.run { world with files := tree' } =
      ((x.run world).1, { (x.run world).2 with files := tree' })) : SeesSame tree tree' x :=
  fun world hfiles => ⟨none, rfl, h world hfiles⟩

/-- What is written behind a part that writes nothing is all that is written. -/
theorem bind (hx : SeesSame tree tree' x) (hnone : mayWrite none)
    (hf : ∀ a, ActsAlike tree tree' mayWrite (f a)) : ActsAlike tree tree' mayWrite (x >>= f) := by
  intro world hfiles
  obtain ⟨_, rfl, hsame, hother⟩ := hx world hfiles
  rcases hrun : x.run world with ⟨result, left⟩
  rw [hrun] at hsame hother
  cases result with
  | ok a =>
      rw [Host.run_bind_of_ok hrun, Host.run_bind_of_ok hother]
      exact hf a left hsame
  | error failure =>
      rw [Host.run_bind_of_error hrun, Host.run_bind_of_error hother]
      exact ⟨none, hnone, hsame, rfl⟩

theorem pure (a : α) : SeesSame tree tree' (Pure.pure a : ExceptT Failure (StateM World) α) :=
  of_files_eq fun _ hfiles => ⟨hfiles, rfl⟩

theorem throw (hnone : mayWrite none) (failure : Failure) : ActsAlike tree tree' mayWrite
    (MonadExcept.throw failure : ExceptT Failure (StateM World) α) :=
  fun _ hfiles => ⟨none, hnone, hfiles, rfl⟩

theorem warnAll (warnings : List Warning) : SeesSame tree tree'
    (warnings.forM fun warning => World.host.warn warning :
      ExceptT Failure (StateM World) Unit) := by
  have hwarn : ∀ warning, SeesSame tree tree'
      (liftM (World.host.warn warning) : ExceptT Failure (StateM World) Unit) :=
    fun _ => of_files_eq fun _ hfiles => ⟨hfiles, rfl⟩
  induction warnings with
  | nil => exact pure ()
  | cons warning rest ih => exact bind (hwarn warning) rfl fun _ => ih

theorem render (settings : Settings) (t : Text) :
    SeesSame tree tree' (World.host.render settings t) := by
  unfold Host.render
  split
  · exact bind (warnAll _) rfl fun _ => pure _
  · exact throw (by exact rfl) .noSchema

theorem read_congr (h : tree'.lookUp path = tree.lookUp path) :
    tree'.read path = tree.read path := by
  rw [FileTree.read, h, ← FileTree.read]

theorem readInput {input : Option Text}
    (h : ∀ path ∈ input, tree'.lookUp path = tree.lookUp path) :
    SeesSame tree tree' (World.host.readInput input) := by
  refine of_files_eq fun world hfiles => ?_
  subst hfiles
  cases input with
  | some path =>
      have hrun := Host.run_askText_readFile path .file
      rw [Host.readInput, hrun, hrun, read_congr (h path rfl)]
      exact ⟨rfl, rfl⟩
  | none =>
      have hrun := Host.run_askText_readStandardInput .file
      rw [Host.readInput, hrun, hrun]
      cases world.refusals.head?.join <;> exact ⟨rfl, rfl⟩

theorem load (readSettings : Text → Option Settings) (h : tree'.lookUp path = tree.lookUp path) :
    SeesSame tree tree' (Settings.load World.host readSettings path) := by
  refine of_files_eq fun world hfiles => ?_
  subst hfiles
  have hpresent : tree'.isPresent path = world.files.isPresent path := by
    rw [FileTree.isPresent, h, FileTree.isPresent]
  have hloaded : Settings.loaded readSettings { world with files := tree' } path =
      Settings.loaded readSettings world path := by
    simp only [Settings.loaded, hpresent, read_congr h]
  have hrun := Settings.run_load readSettings path { world with files := tree' }
  simp only [hloaded, hpresent] at hrun
  rw [hrun, Settings.run_load]
  exact ⟨rfl, rfl⟩

theorem writeOutput {output : Option Text}
    (h : ∀ path ∈ output, tree'.locationToWrite path = tree.locationToWrite path) (t : Text) :
    ActsAlike tree tree' (fun _ => True) (World.host.writeOutput output t) := by
  intro world hfiles
  subst hfiles
  cases output with
  | none =>
      have hrun := Host.run_ask_writeStandardOutput t .file
      refine ⟨none, trivial, ?_⟩
      rw [Host.writeOutput, hrun, hrun]
      cases world.refusals.head?.join <;> exact ⟨rfl, rfl⟩
  | some path =>
      have hrun := Host.run_ask_writeFile path (encodeUtf8 t) .file
      rw [Host.writeOutput, hrun, hrun, h path rfl]
      cases world.refusals.head?.join with
      | some error => exact ⟨none, trivial, rfl, rfl⟩
      | none =>
          cases world.files.locationToWrite path with
          | error error => exact ⟨none, trivial, rfl, rfl⟩
          | ok location => exact ⟨some (location, encodeUtf8 t), trivial, rfl, rfl⟩

/-- What a run does with its settings depends on the input and the output only. -/
theorem performWith (hinput : ∀ path ∈ arguments.input, tree'.lookUp path = tree.lookUp path)
    (houtput : ∀ path ∈ arguments.output, tree'.locationToWrite path = tree.locationToWrite path)
    (settings : Settings) : ActsAlike tree tree' (fun _ => True)
      (arguments.performWith World.host settings) := by
  refine bind (readInput hinput) trivial fun t => ?_
  cases arguments.command with
  | render => exact bind (render settings t) trivial fun diagram => writeOutput houtput diagram
  | format => exact writeOutput houtput _
  | tables =>
      simp only
      split
      · exact writeOutput (by simp) _
      · exact throw trivial .noSchema

end ActsAlike

end DdlDiagram
