import TemporalMonitor.Trace.Reader

/-!
# Trace files

A trace file is opened when its first state is asked for, and again at every call until opening it
succeeds. A file whose name ends with `.gz` is decompressed.

A list of paths stands for trace files: a directory stands for the files directly in it whose names
end with `.csv` or `.csv.gz`, in the order of their names, and any other path for itself.
-/

namespace TemporalMonitor

/-- A trace file, and its reader once it has been opened. -/
structure TraceFile where
  /-- The path of the file. -/
  path : Path
  /-- The signature by which the columns are placed. -/
  signature : Signature
  /-- The reader, once the file has been opened. -/
  reader : Option TraceReader := none

namespace TraceFile

/-- A file that is compressed. -/
def isCompressed (path : Path) : Bool := path.fileExtension? == some "gz"

/-- Opens a trace file: its reader, and the records of opening it. -/
def openReader (t : FileTree) (path : Path) (signature : Signature) :
    Except TraceError TraceReader × Log :=
  match t.openNode path with
  | .error e => (.error (.unopened path e), [])
  | .ok node =>
    let stream := ByteStream.ofNode node
    if isCompressed path then
      let (r, log) := TraceReader.ofStream signature stream.gunzip
      (r, .plain .debug ("decompressing trace '" ++ path ++ "'") :: log)
    else TraceReader.ofStream signature stream

/-- Reads the next state into a buffer: whether there was one, the buffer, the file afterwards, and
the records made. -/
def next (t : FileTree) (f : TraceFile) (buffer : State) :
    Except TraceError Bool × State × TraceFile × Log :=
  match f.reader.elim (openReader t f.path f.signature) fun r ↦ (.ok r, []) with
  | (.error e, log) => (.error e, buffer, f, log)
  | (.ok r, log) =>
    let reading := r.next buffer
    (reading.more, reading.buffer, { f with reader := some reading.reader }, log)

/-- The states of a trace file. -/
def source (t : FileTree) (signature : Signature) (path : Path) : Source TraceError :=
  match openReader t path signature with
  | (.error e, log) => ⟨log, [], some e⟩
  | (.ok r, log) => r.source log

end TraceFile

/-- The name of a file that is taken from a directory. -/
def isTraceName (name : String) : Bool :=
  name.endsWith ".csv" || name.endsWith ".csv.gz"

/-- The trace files that a path stands for. -/
def traceFilesAt (t : FileTree) (path : Path) : List Path :=
  if t.isDirectory path then
    let names := (t.fileNames path).filter isTraceName
    (names.mergeSort (· ≤ ·)).map path.join
  else [path]

/-- The trace files that paths stand for. -/
def traceFiles (t : FileTree) (paths : List Path) : List Path :=
  paths.flatMap (traceFilesAt t)

end TemporalMonitor
