import TemporalMonitor.FileTree
import TemporalMonitor.Monitor
import TemporalMonitor.Properties.Build
import TemporalMonitor.Properties.Reader
import TemporalMonitor.Text.Utf8

/-!
# Loading properties

Loading opens a properties file, reads its text, and makes the properties ready to be monitored.
Each stage has failures of its own, which name the file.
-/

namespace TemporalMonitor

/-- Why properties cannot be loaded. -/
inductive LoadError where
  /-- The file cannot be opened. -/
  | unopened (path : Path) (reason : FileError)
  /-- The path leads to a directory. -/
  | directory (path : Path)
  /-- The bytes of the file are not a text. -/
  | notText (path : Path)
  /-- The text does not describe properties. -/
  | unreadable (path : Path) (fault : Json.Fault)
  /-- The properties cannot be monitored. -/
  | unbuilt (reason : BuildError)
  deriving DecidableEq, Repr

namespace LoadError

/-- What failed. -/
def message : LoadError → String
  | unopened path _ => "failed to open file '" ++ path ++ "'"
  | directory path | notText path => "failed to read file '" ++ path ++ "' to string"
  | unreadable path _ => "failed to parse properties in '" ++ path ++ "'"
  | unbuilt reason => reason.message

/-- Why it failed. -/
def causes : LoadError → List String
  | unopened _ reason => [reason.message]
  | directory _ => [FileError.isADirectory.message]
  | notText _ => ["stream did not contain valid UTF-8"]
  | unreadable _ fault => [fault.message]
  | unbuilt _ => []

end LoadError

namespace Properties

/-- Reads the properties in a file. -/
def readFile (t : FileTree) (path : Path) : Except LoadError Properties :=
  match t.openNode path with
  | .error e => .error (.unopened path e)
  | .ok .directory => .error (.directory path)
  | .ok (.file bytes) =>
    match Text.Utf8.toString? bytes with
    | none => .error (.notText path)
    | some text =>
      match ofJson? text with
      | .error fault => .error (.unreadable path fault)
      | .ok p => .ok p

/-- Loads the properties in a file. -/
def load (t : FileTree) (path : Path) (selection : Selection) :
    Except LoadError MonitoredProperties :=
  match readFile t path with
  | .error e => .error e
  | .ok p =>
    match p.build selection with
    | .error e => .error (.unbuilt e)
    | .ok m => .ok m

/-- The records of loading. -/
def loadLog (t : FileTree) (path : Path) (selection : Selection) : Log :=
  .plain .info ("parsing properties file '" ++ path ++ "'") ::
    match readFile t path with
    | .error _ => []
    | .ok p =>
      [.timed .info "parsing complete in ", .plain .info "building properties"] ++
        p.buildLog selection ++
        match p.build selection with
        | .error _ => []
        | .ok _ => [.timed .info "building properties completed in "]

end Properties

end TemporalMonitor
