import TemporalMonitor.Path

/-!
# File trees

A part of a file system, as a value: files with their bytes, and directories. A path is resolved
name by name, and every name but the last has to lead to a directory. The operations are those of a
file system: they change the tree or say why they cannot.

The current directory, the directories above it and the root of all files are always there; they are
known by the names that lead to them from the current directory or from the root, so a node can be
listed in one of these two ways only.
-/

namespace TemporalMonitor

/-- Why a file cannot be used. -/
inductive FileError where
  | missing
  | alreadyExists
  | notADirectory
  | isADirectory
  | nameTooLong
  | nulInName
  deriving DecidableEq, Repr

/-- The text of a file error. -/
def FileError.message : FileError → String
  | missing => "No such file or directory (os error 2)"
  | alreadyExists => "File exists (os error 17)"
  | notADirectory => "Not a directory (os error 20)"
  | isADirectory => "Is a directory (os error 21)"
  | nameTooLong => "File name too long (os error 36)"
  | nulInName => "file name contained an unexpected NUL byte"

/-- What a name in a directory stands for. -/
inductive FileNode where
  | file (bytes : List UInt8)
  | directory
  deriving DecidableEq, Repr

/-- The names that lead from the current directory to a node, or from the root of all files, whose
name is a slash. -/
abbrev Location := List String

namespace Location

/-- The root of all files. -/
def root : Location := ["/"]

/-- A directory that is always there. -/
def isFixed (loc : Location) : Bool := loc = root || loc.all (· = "..")

/-- The directory above. -/
def parent (loc : Location) : Location :=
  if loc = root then root
  else if loc.isFixed then loc ++ [".."]
  else loc.dropLast

/-- A path that leads to a location. -/
def toPath (loc : Location) : Path :=
  match loc with
  | [] => "."
  | "/" :: names => "/" ++ String.intercalate "/" names
  | names => String.intercalate "/" names

end Location

/-- The files and directories that are known, without those that are always there. -/
structure FileTree where
  /-- The nodes, each with its location. -/
  nodes : List (Location × FileNode) := []

namespace FileTree

/-- The longest name of a file, in bytes. -/
def maxName : Nat := 255

/-- The length from which on a path is refused, in bytes. -/
def maxPath : Nat := 4096

/-- The node at a location. -/
def node? (t : FileTree) (loc : Location) : Option FileNode :=
  if loc.isFixed then some .directory else t.nodes.lookup loc

/-- The node has to be a directory. -/
def needDirectory : Option FileNode → Except FileError Unit
  | some .directory => .ok ()
  | some (.file _) => .error .notADirectory
  | none => .error .missing

/-- Follows names from a location. The node at the last one need not exist. -/
def walk (t : FileTree) : Location → List String → Except FileError Location
  | here, [] => .ok here
  | here, name :: rest => do
    needDirectory (t.node? here)
    if name = "." then t.walk here rest
    else if name = ".." then t.walk here.parent rest
    else if maxName < name.utf8ByteSize then .error .nameTooLong
    else t.walk (here ++ [name]) rest

/-- The location that a path names, whether or not it ends with a slash. -/
def locate (t : FileTree) (p : Path) : Except FileError Location :=
  if p.toList.contains '\x00' then .error .nulInName
  else if maxPath ≤ p.utf8ByteSize then .error .nameTooLong
  else if p.isEmpty then .error .missing
  else t.walk (if p.isAbsolute then Location.root else []) p.segments

/-- The location that a path leads to. A path that ends with a slash does not lead to a file. -/
def resolve (t : FileTree) (p : Path) : Except FileError Location := do
  let here ← t.locate p
  match p.endsWithSlash, t.node? here with
  | true, some (.file _) => .error .notADirectory
  | _, _ => .ok here

/-- Opens what a path leads to. -/
def openNode (t : FileTree) (p : Path) : Except FileError FileNode := do
  match t.node? (← t.resolve p) with
  | some n => .ok n
  | none => .error .missing

/-- Whether a path leads to a directory. -/
def isDirectory (t : FileTree) (p : Path) : Bool :=
  match t.openNode p with
  | .ok .directory => true
  | _ => false

/-- The names of the files, without the directories, directly in the directory at a path. -/
def fileNames (t : FileTree) (p : Path) : List String :=
  match t.resolve p with
  | .error _ => []
  | .ok here => t.nodes.filterMap fun (loc, n) ↦
    match n, loc.getLast? with
    | .file _, some name => if loc.dropLast = here then some name else none
    | _, _ => none

/-- Puts a node at a location, in place of what is there. -/
def put (t : FileTree) (loc : Location) (n : FileNode) : FileTree :=
  ⟨t.nodes.filter (·.1 ≠ loc) ++ [(loc, n)]⟩

/-- Takes away the node at a location. -/
def erase (t : FileTree) (loc : Location) : FileTree :=
  ⟨t.nodes.filter (·.1 ≠ loc)⟩

/-- Makes a directory, whose parent has to exist. Nothing may be there, whether or not the path ends
with a slash. -/
def createDirectory (t : FileTree) (p : Path) : Except FileError FileTree := do
  let here ← t.locate p
  match t.node? here with
  | some _ => .error .alreadyExists
  | none => .ok (t.put here .directory)

/-- Makes a directory, unless there is one. -/
def ensureDirectory (t : FileTree) (p : Path) : FileTree × Option FileError :=
  match t.createDirectory p with
  | .ok t => (t, none)
  | .error e => (t, if t.isDirectory p then none else some e)

/-- Makes the first path of a lineage a directory, and those after it as far as needed. -/
def createLineage (t : FileTree) : List Path → FileTree × Option FileError
  | [] => (t, none)
  | p :: parents =>
    match t.ensureDirectory p with
    | (t, some .missing) =>
      match t.createLineage parents with
      | (t, some e) => (t, some e)
      | (t, none) => t.ensureDirectory p
    | r => r

/-- Makes a directory and all directories that lead to it, as far as they do not exist: the tree
afterwards, and why the directory could not be made. -/
def createDirectories (t : FileTree) (p : Path) : FileTree × Option FileError :=
  t.createLineage p.lineage

/-- Writes a file, in place of a file that is there. -/
def writeFile (t : FileTree) (p : Path) (bytes : List UInt8) : Except FileError FileTree := do
  let here ← t.resolve p
  match t.node? here with
  | some .directory => .error .isADirectory
  | _ => .ok (t.put here (.file bytes))

/-- Moves a file to another path, in place of a file that is there. -/
def moveFile (t : FileTree) (p q : Path) : Except FileError FileTree := do
  let source ← t.resolve p
  let target ← t.resolve q
  match t.node? source, t.node? target with
  | none, _ => .error .missing
  | some _, some .directory => .error .isADirectory
  | some n, _ => .ok ((t.erase source).put target n)

end FileTree

end TemporalMonitor
