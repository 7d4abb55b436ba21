import DdlDiagram.Files.Tree

/-!
# Written files

Writing replaces or makes the file that the path leads to and nothing else. The way to that file
goes through directories only, so the path still leads there afterwards, and reading it gives
what was written.
-/

namespace DdlDiagram
namespace FileTree

variable {tree written : FileTree} {location other start directory : Location} {path name : Text}
variable {names : List Text} {node : FileNode} {content : ByteArray}

theorem find?_putNode_self (location : Location) (node : FileNode)
    (nodes : List (Location × FileNode)) :
    (putNode location node nodes).find? (·.1 = location) = some (location, node) := by
  induction nodes with
  | nil => simp [putNode]
  | cons first rest ih =>
      rw [putNode]
      split
      · simp
      · rename_i hne
        rw [List.find?_cons_of_neg (by simpa using hne), ih]

theorem find?_putNode_of_ne (h : other ≠ location) (node : FileNode)
    (nodes : List (Location × FileNode)) :
    (putNode location node nodes).find? (·.1 = other) = nodes.find? (·.1 = other) := by
  induction nodes with
  | nil => simp [putNode, Ne.symm h]
  | cons first rest ih =>
      obtain ⟨place, old⟩ := first
      rw [putNode]
      split
      · rename_i heq
        have hplace : place ≠ other := by
          rw [heq]
          exact Ne.symm h
        rw [List.find?_cons_of_neg (by simpa using Ne.symm h),
          List.find?_cons_of_neg (by simpa using hplace)]
      · rw [List.find?_cons, List.find?_cons, ih]

theorem node?_put_self (h : location ≠ []) :
    (tree.put location node).node? location = some node := by
  rw [node?, if_neg (by simpa using h), put, find?_putNode_self]
  rfl

theorem node?_put_of_ne (h : other ≠ location) :
    (tree.put location node).node? other = tree.node? other := by
  rw [node?, node?, put, find?_putNode_of_ne h]

theorem node?_of_enter (h : tree.enter directory name = .ok location) :
    tree.node? directory = some .directory := by
  rw [enter] at h
  cases hnode : tree.node? directory with
  | none =>
      rw [hnode] at h
      exact nomatch h
  | some node =>
      cases node with
      | directory => rfl
      | file content =>
          rw [hnode] at h
          exact nomatch h

/-- What an ordinary name leads to is in the directory. -/
theorem eq_append_of_enter (h : tree.enter directory name = .ok location) (hhere : name ≠ here)
    (hparent : name ≠ parent) : location = directory ++ [name] := by
  rw [enter, node?_of_enter h] at h
  simp only [if_neg hhere, if_neg hparent] at h
  split at h
  · exact nomatch h
  · exact (Except.ok.inj h).symm

theorem enter_here (h : tree.enter directory here = .ok location) : location = directory := by
  rw [enter, node?_of_enter h] at h
  exact (Except.ok.inj h).symm

/-- A file that is put where no directory is stands in the way of no step. -/
theorem enter_put (hlocation : tree.node? location ≠ some .directory)
    (h : tree.enter directory name = .ok other) :
    (tree.put location node).enter directory name = .ok other := by
  have hdirectory := node?_of_enter h
  have hne : directory ≠ location := by
    rintro rfl
    exact hlocation hdirectory
  rw [← h, enter, enter, node?_put_of_ne hne]

theorem walk_put (hlocation : tree.node? location ≠ some .directory)
    (h : tree.walk start names = .ok other) :
    (tree.put location node).walk start names = .ok other := by
  induction names generalizing start with
  | nil => exact h
  | cons name rest ih =>
      rw [walk, List.foldlM_cons] at h ⊢
      cases henter : tree.enter start name with
      | error error =>
          rw [henter] at h
          exact nomatch h
      | ok next =>
          rw [henter] at h
          rw [enter_put hlocation henter]
          exact ih h

theorem exists_of_bind_eq_ok {ε α β : Type} {x : Except ε α} {f : α → Except ε β} {b : β}
    (h : x >>= f = .ok b) : ∃ a, x = .ok a ∧ f a = .ok b := by
  cases x with
  | error error => exact nomatch h
  | ok a => exact ⟨a, rfl, h⟩

/-- The location to write to is entered by the last name of the path, and no directory is there. -/
theorem exists_of_locationToWrite (h : tree.locationToWrite path = .ok location) :
    checkPath path = .ok () ∧ tree.node? location ≠ some .directory ∧ ∃ name directory,
      (namesOf path).getLast? = some name ∧
      tree.walk (tree.startOf path) (namesOf path).dropLast = .ok directory ∧
      tree.enter directory (if name = parent || endsInSlash path then here else name) =
        .ok location := by
  obtain ⟨⟨⟩, hcheck, hlast⟩ := exists_of_bind_eq_ok h
  cases hname : (namesOf path).getLast? with
  | none =>
      rw [hname] at hlast
      cases hlast
  | some name =>
      rw [hname] at hlast
      obtain ⟨directory, hwalk, hentered⟩ := exists_of_bind_eq_ok hlast
      obtain ⟨found, henter, hfound⟩ := exists_of_bind_eq_ok hentered
      cases hnode : tree.node? found with
      | none =>
          rw [hnode] at hfound
          obtain rfl := Except.ok.inj hfound
          exact ⟨hcheck, by simp [hnode], name, directory, rfl, hwalk, henter⟩
      | some node =>
          rw [hnode] at hfound
          cases node with
          | directory => cases hfound
          | file content =>
              obtain rfl := Except.ok.inj hfound
              exact ⟨hcheck, by simp [hnode], name, directory, rfl, hwalk, henter⟩

/-- The location to write to is found by walking the path. -/
theorem walk_of_locationToWrite (h : tree.locationToWrite path = .ok location) :
    checkPath path = .ok () ∧ endsInSlash path = false ∧
      tree.walk (tree.startOf path) (namesOf path) = .ok location ∧
      location ≠ [] ∧ tree.node? location ≠ some .directory := by
  obtain ⟨hcheck, hnode, name, directory, hname, hwalk, henter⟩ := exists_of_locationToWrite h
  -- What is entered as `.` would be a directory.
  have hentered : tree.enter directory here ≠ .ok location := by
    intro hhere
    exact hnode (enter_here hhere ▸ node?_of_enter hhere)
  have hordinary : ¬ (name = parent || endsInSlash path) = true := by
    intro hend
    rw [if_pos hend] at henter
    exact hentered henter
  have hhere : name ≠ here := by
    rintro rfl
    rw [ite_self] at henter
    exact hentered henter
  rw [if_neg hordinary] at henter
  rw [Bool.or_eq_true, decide_eq_true_eq, not_or, Bool.not_eq_true] at hordinary
  obtain ⟨hparent, hslash⟩ := hordinary
  have hlocation := eq_append_of_enter henter hhere hparent
  refine ⟨hcheck, hslash, ?_, by simp [hlocation], hnode⟩
  obtain ⟨front, hfront⟩ := List.getLast?_eq_some_iff.1 hname
  rw [hfront, List.dropLast_concat] at hwalk
  rw [hfront, walk, List.foldlM_append, ← walk, hwalk]
  exact (congrArg (· >>= pure) henter).trans rfl

theorem lookUp_of_walk (hcheck : checkPath path = .ok ()) (hslash : endsInSlash path = false)
    (hwalk : tree.walk (tree.startOf path) (namesOf path) = .ok location)
    (hnode : tree.node? location = some node) : tree.lookUp path = .ok node := by
  rw [lookUp, hcheck, hslash]
  simp only [Bool.false_eq_true, if_false, List.append_nil, hwalk, bind, Except.bind, hnode]
  rfl

/-- What writing a file makes of a tree. -/
structure IsWritten (tree written : FileTree) (path : Text) (content : ByteArray) : Prop where
  workingDirectory : written.workingDirectory = tree.workingDirectory
  /-- The path leads to what was written. -/
  read : written.read path = .ok content
  /-- All is as it was but what the path led to, or would have led to. -/
  others : ∃ location, tree.locationToWrite path = .ok location ∧
    ∀ other ≠ location, written.node? other = tree.node? other

theorem isWritten_of_write (h : tree.write path content = .ok written) :
    tree.IsWritten written path content := by
  cases hlocation : tree.locationToWrite path with
  | error error =>
      rw [write, hlocation] at h
      exact nomatch h
  | ok location =>
      rw [write, hlocation] at h
      obtain rfl := Except.ok.inj h
      obtain ⟨hcheck, hslash, hwalk, hne, hnode⟩ := walk_of_locationToWrite hlocation
      have hfound : (tree.put location (.file content)).lookUp path = .ok (.file content) :=
        lookUp_of_walk hcheck hslash (walk_put hnode hwalk) (node?_put_self hne)
      refine ⟨rfl, ?_, location, hlocation, fun other hother => node?_put_of_ne hother⟩
      rw [FileTree.read, hfound]
      rfl

end FileTree
end DdlDiagram
