import TemporalMonitor.FileTree
import TemporalMonitor.Gzip

/-!
# Streams of bytes

What reading a file delivers: bytes, and a fault that may be met after them in place of the end.
-/

namespace TemporalMonitor

/-- Why a file that was opened cannot be read. -/
inductive ReadError where
  /-- The file system refuses. -/
  | file (reason : FileError)
  /-- The file cannot be decompressed. -/
  | gzip (fault : Gzip.Fault)
  deriving DecidableEq, Repr

/-- The text of a read error. -/
def ReadError.message : ReadError → String
  | file reason => reason.message
  | gzip fault => fault.message

/-- The bytes that reading delivers. -/
structure ByteStream where
  /-- The bytes delivered. -/
  bytes : List UInt8
  /-- The fault met after them. -/
  fault : Option ReadError := none
  deriving DecidableEq, Repr

namespace ByteStream

/-- What reading a node of a file tree delivers. -/
def ofNode : FileNode → ByteStream
  | .directory => ⟨[], some (.file .isADirectory)⟩
  | .file bytes => ⟨bytes, none⟩

/-- What decompressing a stream delivers. A fault of the stream is met where its bytes end. -/
def gunzip (s : ByteStream) : ByteStream :=
  let content := Gzip.decode s.bytes
  match content.fault, s.fault with
  | some .unexpectedEnd, some e => ⟨content.bytes, some e⟩
  | some fault, _ => ⟨content.bytes, some (.gzip fault)⟩
  | none, _ => ⟨content.bytes, none⟩

end ByteStream

end TemporalMonitor
