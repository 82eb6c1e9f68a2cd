import ModuleGraph.Schema
/-!
# Events

What happens while a module graph is loaded and read, as it is told to observers.
-/

namespace ModuleGraph

/-- Where the file of a diagnostic comes from. -/
inductive Origin where
  | project
  | library
  | dependency
  deriving DecidableEq, Repr, Inhabited

/-- The name of an origin. -/
def Origin.name : Origin → String
  | project => "project"
  | library => "library"
  | dependency => "dependency"

/-- What observers are told (`VfsEvent`). -/
inductive Event where
  /-- A module was fetched, transformed and stored. -/
  | fileLoaded (url path : String) (size : Int) (isLibrary : Bool)
  /-- The compiler read a stored file; `foundPath` is the path that answered. -/
  | fileRead (path foundPath : String) (isLibrary : Bool)
  /-- The compiler read a path that is not stored. -/
  | fileNotFound (path : String)
  /-- The compiler asked whether a path exists, and it does not. -/
  | fileProbeMissed (path : String)
  /-- A specifier could not be resolved or loaded and was left as it was. -/
  | specifierFailed (specifier sourceUrl error : String)
  /-- A library could not be loaded from any source. -/
  | libraryMissing (name error : String)
  /-- The project configuration could not be read, and defaults apply. -/
  | configIgnored (path error : String)
  /-- The parser recovered from syntax errors in a file. -/
  | parseErrorsFound (path : String)
  /-- A diagnostic of the compiler, with the origin of its file. -/
  | diagnosticReported (origin : Origin) (message : String)
  deriving DecidableEq, Repr, Inhabited

namespace Event

/-- The tag of an event. -/
def tag : Event → String
  | .fileLoaded .. => "file_loaded"
  | .fileRead .. => "file_read"
  | .fileNotFound _ => "file_not_found"
  | .fileProbeMissed _ => "file_probe_missed"
  | .specifierFailed .. => "specifier_failed"
  | .libraryMissing .. => "library_missing"
  | .configIgnored .. => "config_ignored"
  | .parseErrorsFound _ => "parse_errors_found"
  | .diagnosticReported .. => "diagnostic_reported"

/-- The fields of an event beside its tag. -/
def fields : Event → List (String × Json)
  | .fileLoaded url path size isLibrary =>
    [("url", .str url), ("path", .str path), ("size", .int size), ("is_library", .bool isLibrary)]
  | .fileRead path foundPath isLibrary =>
    [("path", .str path), ("found_path", .str foundPath), ("is_library", .bool isLibrary)]
  | .fileNotFound path => [("path", .str path)]
  | .fileProbeMissed path => [("path", .str path)]
  | .specifierFailed specifier sourceUrl error =>
    [("specifier", .str specifier), ("source_url", .str sourceUrl), ("error", .str error)]
  | .libraryMissing name error => [("name", .str name), ("error", .str error)]
  | .configIgnored path error => [("path", .str path), ("error", .str error)]
  | .parseErrorsFound path => [("path", .str path)]
  | .diagnosticReported origin message =>
    [("origin", .str origin.name), ("message", .str message)]

/-- An event as a record. -/
def toJson (e : Event) : Json := .obj (("type", .str e.tag) :: e.fields)

end Event

end ModuleGraph
