import TemporalMonitor.Oracle
import TemporalMonitor.Properties
import TemporalMonitor.Signature

/-!
# Monitored properties

The properties of a file become an oracle over the positions of a signature. All guarantees of the
file are indexed, and then the assumes, so the signature does not depend on which guarantees are
selected; the oracle holds the assumes and the selected guarantees, in the order of the selection.

Building fails if two guarantees have the same name, or if a name is selected that no guarantee has.
-/

namespace TemporalMonitor

/-- Which guarantees are monitored. -/
inductive Selection where
  /-- All of them, in the order of the file. -/
  | all
  /-- Those with the given names, in this order, and as often as they are given. -/
  | named (names : List String)
  deriving DecidableEq, Repr

/-- What is needed to read and to print the traces of some properties. -/
structure Catalogue where
  /-- The variables, by position. -/
  signature : Signature := []
  /-- The names of all guarantees. -/
  guarantees : List String := []
  /-- The names of the guarantees that are monitored, in the order of the oracle. -/
  monitored : List String := []
  deriving DecidableEq, Repr

/-- Properties ready to be monitored. -/
structure MonitoredProperties where
  /-- The oracle before the first state of a trace. -/
  oracle : Oracle
  /-- The names that belong to its positions. -/
  catalogue : Catalogue
  deriving DecidableEq, Repr

/-- Why properties cannot be monitored. -/
inductive BuildError where
  /-- Two guarantees have this name. -/
  | repeated (name : String)
  /-- No guarantee has this name. -/
  | unknown (name : String)
  deriving DecidableEq, Repr

/-- The text of a build error. -/
def BuildError.message : BuildError → String
  | repeated name => "guarantee '" ++ name ++ "' is defined more than once"
  | unknown name => "no property named '" ++ name ++
      "' found in properties file.\n\nHint: maybe it is mispelled?"

/-- The first name that occurs among the ones before it, where `seen` come before all. -/
def firstRepeated? (seen : List String) : List String → Option String
  | [] => none
  | name :: names =>
    if seen.contains name then some name else firstRepeated? (name :: seen) names

/-- A guarantee over the positions of the signature. -/
abbrev IndexedProperty := String × Formula Nat

namespace Properties

/-- The names of the guarantees. -/
def names (p : Properties) : List String := p.guarantees.map (·.name)

/-- Indexes the guarantees and then the assumes. -/
def index (p : Properties) : StateM Signature (List IndexedProperty × List (Formula Nat)) := do
  let guarantees ← p.guarantees.mapM fun g ↦ do return (g.name, ← Signature.index g.formula)
  let assumes ← p.assumes.mapM Signature.index
  return (guarantees, assumes)

/-- The names that a selection stands for. -/
def selected (p : Properties) : Selection → List String
  | .all => p.names
  | .named names => names

/-- The guarantees with the given names, in the order of the names. -/
def choose (guarantees : List IndexedProperty) :
    List String → Except BuildError (List IndexedProperty)
  | [] => .ok []
  | name :: names =>
    match guarantees.lookup name with
    | none => .error (.unknown name)
    | some f => (choose guarantees names).map ((name, f) :: ·)

/-- Makes the properties ready to be monitored. -/
def build (p : Properties) (selection : Selection) : Except BuildError MonitoredProperties :=
  match firstRepeated? [] p.names with
  | some name => .error (.repeated name)
  | none =>
    let ((guarantees, assumes), signature) := p.index.run []
    let monitored := p.selected selection
    match choose guarantees monitored with
    | .error e => .error e
    | .ok chosen => .ok {
        oracle := .ofFormulas assumes (chosen.map (·.2))
        catalogue := ⟨signature, p.names, monitored⟩ }

/-- The guarantees that are found before the first name that no guarantee has. -/
def found (guarantees : List IndexedProperty) (names : List String) : List IndexedProperty :=
  (names.takeWhile fun name ↦ (guarantees.lookup name).isSome).filterMap fun name ↦
    (guarantees.lookup name).map (name, ·)

/-- The records of building. -/
def buildLog (p : Properties) (selection : Selection) : Log :=
  match firstRepeated? [] p.names with
  | some _ => []
  | none =>
    let (guarantees, assumes) := (p.index.run []).1
    let monitored := p.selected selection
    assumes.map (fun f ↦ .plain .debug ("assume " ++ f.render)) ++
      (found guarantees monitored).map
        (fun (name, f) ↦ .plain .debug ("guarantee '" ++ name ++ "': " ++ f.render)) ++
      if monitored.isEmpty then [.plain .warn "no guarantee is monitored"] else []

end Properties

end TemporalMonitor
