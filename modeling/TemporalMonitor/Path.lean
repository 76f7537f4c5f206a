/-!
# Paths

Paths are texts in which a slash separates names. Repeated slashes, a trailing slash and the name
`.` add nothing, except that a leading `.` is kept as a component; `..` is a component, but not the
name of a file. The stem and the extension of a file name are what stands before and after its last
dot, where a leading dot belongs to the stem.
-/

namespace TemporalMonitor

/-- A path, relative unless it starts with a slash. -/
abbrev Path := String

namespace Path

/-- The pieces of a text between slashes; the empty text has one piece. -/
def pieces (cs : List Char) : List (List Char) := cs.splitOn '/'

/-- The names on the way from the start of a path, `.` and `..` included. -/
def segments (p : Path) : List String :=
  ((pieces p.toList).filter (· ≠ [])).map String.ofList

/-- A path that starts from the root of all files. -/
def isAbsolute (p : Path) : Bool := p.toList.head? == some '/'

/-- A path whose last name has to be a directory. -/
def endsWithSlash (p : Path) : Bool := p.toList.getLast? == some '/'

/-- The components of a path: its segments, without `.` except at the start of a relative path. -/
def components (p : Path) : List String :=
  match p.segments with
  | [] => []
  | s :: rest =>
    let rest := rest.filter (· ≠ ".")
    if s = "." && p.isAbsolute then rest else s :: rest

/-- The name of the file that a path leads to. -/
def fileName? (p : Path) : Option String :=
  match p.components.getLast? with
  | some name => if name = "." || name = ".." then none else some name
  | none => none

/-- Splits a name at its last dot that is not at the start. -/
def splitExtension (name : List Char) : List Char × Option (List Char) :=
  let suffix := (name.reverse.takeWhile (· ≠ '.')).reverse
  let stem := name.take (name.length - suffix.length - 1)
  if suffix.length < name.length && !stem.isEmpty then (stem, some suffix) else (name, none)

/-- The file name without its extension. -/
def fileStem? (p : Path) : Option String :=
  p.fileName?.map fun name ↦ String.ofList (splitExtension name.toList).1

/-- The extension of the file name, without the dot. -/
def fileExtension? (p : Path) : Option String :=
  p.fileName?.bind fun name ↦ (splitExtension name.toList).2.map String.ofList

/-- The path that leads to `q` from where `p` leads to. -/
def join (p q : Path) : Path :=
  if q.isAbsolute || p.isEmpty then q
  else if p.endsWithSlash then p ++ q
  else p ++ "/" ++ q

/-- A path given by its components. -/
def ofComponents (absolute : Bool) (cs : List String) : Path :=
  (if absolute then "/" else "") ++ String.intercalate "/" cs

/-- The path itself and the paths that lead to its parent, the parent of its parent, and so on,
as far as they have a component. -/
def lineage (p : Path) : List Path :=
  let cs := p.components
  (List.range cs.length).map fun i ↦
    if i = 0 then p else ofComponents p.isAbsolute (cs.take (cs.length - i))

end Path

end TemporalMonitor
