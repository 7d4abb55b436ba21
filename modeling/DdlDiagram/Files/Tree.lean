import DdlDiagram.Files.Basic

/-!
# File trees

A file tree holds directories and files at locations below a root, and has a working directory
from which relative paths are walked. A path is walked name by name: each name but the last has
to lead to a directory, `.` stays where it is and `..` goes to the parent. A slash at the end of
a path asks for a directory.
-/

namespace DdlDiagram

/-- A place in a file tree, by the names that lead to it from the root. -/
abbrev Location := List Text

inductive FileNode where
  | directory
  | file (content : ByteArray)

instance : DecidableEq FileNode
  | .directory, .directory => isTrue rfl
  | .directory, .file _ => isFalse FileNode.noConfusion
  | .file _, .directory => isFalse FileNode.noConfusion
  | .file content, .file other =>
    match ByteArray.instDecidableEq content other with
    | isTrue h => isTrue (congrArg FileNode.file h)
    | isFalse h => isFalse fun heq => h (FileNode.file.inj heq)

/-- Directories and files, and the directory that relative paths start from. -/
structure FileTree where
  /-- The places below the root at which something is. -/
  nodes : List (Location × FileNode)
  workingDirectory : Location
  deriving DecidableEq

namespace FileTree

/-- What is at a location. The root is always a directory. -/
def node? (tree : FileTree) (location : Location) : Option FileNode :=
  if location.isEmpty then some .directory
  else (tree.nodes.find? (·.1 = location)).map (·.2)

def putNode (location : Location) (node : FileNode) :
    List (Location × FileNode) → List (Location × FileNode)
  | [] => [(location, node)]
  | (other, old) :: rest =>
    if other = location then (location, node) :: rest
    else (other, old) :: putNode location node rest

/-- The tree with a node at a location, in the place of the old one if there is one. -/
def put (tree : FileTree) (location : Location) (node : FileNode) : FileTree :=
  { tree with nodes := putNode location node tree.nodes }

def maxNameSize : Nat := 255

/-- Paths have fewer bytes than this number. -/
def maxPathSize : Nat := 4096

/-- The name that leads from a directory to itself. -/
def here : Text := ['.']

/-- The name that leads from a directory to the one above it. -/
def parent : Text := ['.', '.']

/-- The location that a name leads to from a directory. Something may be there or not. -/
def enter (tree : FileTree) (location : Location) (name : Text) : Except FileError Location :=
  match tree.node? location with
  | none => .error .notFound
  | some (.file _) => .error .notDirectory
  | some .directory =>
    if name = here then .ok location
    else if name = parent then .ok location.dropLast
    else if maxNameSize < name.utf8Size then .error .nameTooLong
    else .ok (location ++ [name])

/-- The location that names lead to one after the other. -/
def walk (tree : FileTree) (location : Location) (names : List Text) :
    Except FileError Location := names.foldlM tree.enter location

def namesOf (path : Text) : List Text := (path.splitAll (· == '/')).filter (!·.isEmpty)

/-- Whether a path asks for a directory by a slash at its end. -/
def endsInSlash (path : Text) : Bool := path.getLast? == some '/'

def startOf (tree : FileTree) (path : Text) : Location :=
  if path.head? = some '/' then [] else tree.workingDirectory

/-- Refuses a path that cannot be walked wherever it starts. -/
def checkPath (path : Text) : Except FileError Unit :=
  if path.contains '\x00' then .error .nulInName
  else if path.isEmpty then .error .notFound
  else if maxPathSize ≤ path.utf8Size then .error .nameTooLong
  else .ok ()

def lookUp (tree : FileTree) (path : Text) : Except FileError FileNode := do
  checkPath path
  let names := namesOf path ++ if endsInSlash path then [here] else []
  let location ← tree.walk (tree.startOf path) names
  match tree.node? location with
  | some node => return node
  | none => throw .notFound

def read (tree : FileTree) (path : Text) : Except FileError ByteArray := do
  match ← tree.lookUp path with
  | .file content => return content
  | .directory => throw .isDirectory

/-- The location of the file that writing to a path would make or replace. The directory that
is to hold it has to exist. -/
def locationToWrite (tree : FileTree) (path : Text) : Except FileError Location := do
  checkPath path
  match (namesOf path).getLast? with
  | none => throw .isDirectory
  | some name =>
    let directory ← tree.walk (tree.startOf path) (namesOf path).dropLast
    let location ← tree.enter directory (if name = parent || endsInSlash path then here else name)
    match tree.node? location with
    | some .directory => throw .isDirectory
    | _ => return location

/-- The tree with the content of the file at a path, which is made if it is not there. -/
def write (tree : FileTree) (path : Text) (content : ByteArray) : Except FileError FileTree :=
  (tree.locationToWrite path).map fun location => tree.put location (.file content)

def isPresent (tree : FileTree) (path : Text) : Bool := (tree.lookUp path).toOption.isSome

def addDirectories (tree : FileTree) (location : Location) : FileTree :=
  (List.range location.length).foldl (fun tree n =>
    let above := location.take (n + 1)
    if (tree.node? above).isSome then tree else tree.put above .directory) tree

/-- The tree with a file at a path from its working directory, and the directories above it. -/
def addFile (tree : FileTree) (path : Text) (content : ByteArray) : FileTree :=
  let location := tree.workingDirectory ++ namesOf path
  (tree.addDirectories location.dropLast).put location (.file content)

def ofWorkingDirectory (location : Location) : FileTree :=
  addDirectories { nodes := [], workingDirectory := location } location

/-- The files below the working directory, by their paths from there. -/
def files (tree : FileTree) : List (Text × ByteArray) :=
  tree.nodes.filterMap fun (location, node) =>
    match node with
    | .file content =>
      if tree.workingDirectory.isPrefixOf location then
        some (Text.join ['/'] (location.drop tree.workingDirectory.length), content)
      else none
    | .directory => none

end FileTree
end DdlDiagram
