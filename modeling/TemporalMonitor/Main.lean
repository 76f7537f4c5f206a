import TemporalMonitor.Command.Run

/-!
# The program

Reads the files that an invocation names into a file tree, runs the invocation, writes back what has
changed, and prints the results. All decisions are made by `Invocation.ofArguments` and
`Invocation.run`.
-/

namespace TemporalMonitor.Program

/-- The node at a path of the file system, if there is one. The bytes of a file are read only if
they are asked for. -/
def readNode (path : Path) (content : Bool) : IO (Option FileNode) := do
  let file := (← IO.currentDir) / path
  if ← file.isDir then return some .directory
  else if ← file.pathExists then
    let bytes ← if content then IO.FS.readBinFile file else pure ByteArray.empty
    return some (.file bytes.toList)
  else return none

/-- Adds the node at a path to a tree. -/
def addNode (t : FileTree) (path : Path) (content : Bool) : IO FileTree := do
  match t.resolve path with
  | .error _ => return t
  | .ok loc =>
    if loc.isFixed then return t
    match ← readNode path content with
    | some node => return t.put loc node
    | none => return t

/-- Adds what a path leads to, and all directories on the way. -/
def addPath (t : FileTree) (path : Path) : IO FileTree := do
  let names := path.segments
  let mut t := t
  for i in [1:names.length + 1] do
    let way := Path.ofComponents path.isAbsolute (names.take i)
    t ← addNode t way (i == names.length)
  return t

/-- Adds what is in a directory, with the bytes of trace files. -/
def addEntries (t : FileTree) (path : Path) : IO FileTree := do
  unless t.isDirectory path do return t
  let mut t := t
  for entry in ← ((← IO.currentDir) / path).readDir do
    t ← addNode t (path.join entry.fileName) (isTraceName entry.fileName)
  return t

/-- The part of the file system that an invocation works on. -/
def readTree (i : Invocation) : IO FileTree := do
  let mut t ← addPath {} i.properties
  for path in i.command.paths do
    t ← addEntries (← addPath t path) path
  if let .trace options := i.command then
    for folder in ["success", "failure", "incomplete"] do
      t ← addEntries t (options.output.join folder)
  return t

/-- Changes the file system as a tree was changed. -/
def writeTree (old new : FileTree) : IO Unit := do
  for (loc, node) in new.nodes do
    if old.node? loc ≠ some node then
      match node with
      | .directory => IO.FS.createDirAll loc.toPath
      | .file bytes => IO.FS.writeBinFile loc.toPath bytes.toByteArray
  for (loc, _) in old.nodes do
    if new.node? loc |>.isNone then IO.FS.removeFile loc.toPath

/-- Runs an invocation. The duration that is told is that of the whole. -/
def perform (i : Invocation) : IO UInt32 := do
  let start ← IO.monoNanosNow
  let old ← readTree i
  let e := i.run old
  writeTree old e.tree
  let elapsed := Elapsed.ofNanoseconds ((← IO.monoNanosNow) - start)
  for r in e.log.filter i.filter.passes do
    IO.eprintln (r.render elapsed)
  IO.eprint e.notes
  IO.print (e.output elapsed)
  match e.failure with
  | none => return 0
  | some f =>
    IO.eprintln f.report
    return 1

/-- Runs what arguments ask for. -/
def run (args : List String) : IO UInt32 := do
  match Invocation.ofArguments args with
  | .ok i => perform i
  | .error e =>
    match e.answer? with
    | some text =>
      IO.print text
      return 0
    | none =>
      IO.eprintln (e.message ++ "\n" ++ Invocation.usage)
      return 2

end TemporalMonitor.Program

/-- The program. -/
def main (args : List String) : IO UInt32 := TemporalMonitor.Program.run args
