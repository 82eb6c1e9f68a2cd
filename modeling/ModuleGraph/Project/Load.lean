import ModuleGraph.Event.Log
import ModuleGraph.FileTree.Basic
import ModuleGraph.Json.Reader
import ModuleGraph.Project.Config
/-!
# Loading project configurations

The configuration file of a project is read if it is there. A file that cannot be read, is no JSON
or has the wrong shape is a configuration fault; it is reported and passed over, so that defaults
apply. Bytes that are no text and documents that ask for more than the reader takes are no faults of
the configuration.
-/

namespace ModuleGraph.ProjectConfig

/-- The logger of what is told about configurations. -/
def logger : String := "vfs_host.config"

/-- The kind of the error that a refused document is, seen from outside. -/
def refusalKind : Json.Problem → String
  | .tooManyDigits .. => "ValueError"
  | .tooDeep _ => "RecursionError"
  | _ => "JSONDecodeError"

/-- A refused document as an error seen from outside. -/
def refusal (f : Json.SyntaxFault) : Foreign := ⟨refusalKind f.problem, f.message⟩

/-- Why a file states no configuration. -/
inductive Unusable where
  | unreadable (p : FileTree.Problem)
  | refused (f : Json.SyntaxFault)
  | invalid (e : Schema.Invalid)
  deriving DecidableEq, Repr

namespace Unusable

/-- The cause as an error seen from outside. -/
def toForeign : Unusable → Foreign
  | unreadable p => p.toForeign
  | refused f => refusal f
  | invalid e => e.toForeign

/-- The cause is a fault of the configuration, which is reported and passed over. -/
def isReported : Unusable → Bool
  | unreadable p => p.isSystem
  | refused f => !f.problem.isLimit
  | invalid _ => true

end Unusable

/-- The configuration that a text states. -/
def ofText (text : String) (limits : Json.Limits := .usual) : Except Unusable ProjectConfig := do
  let v ← (Json.parse text limits).mapError .refused
  (ofRecord v).mapError .invalid

/-- The configuration that a file states. -/
def ofFile (t : FileTree) (path : String) (limits : Json.Limits := .usual) :
    Except Unusable ProjectConfig := do
  let text ← (t.text path).mapError .unreadable
  ofText text limits

/-- The fault of a configuration file that cannot be used. -/
def faultOf (path : String) (u : Unusable) : Fault :=
  if u.isReported then .config path ((Fault.foreign u.toForeign).describe true)
  else .foreign u.toForeign

/-- The configuration in a file (`read_project_config`). -/
def readFrom (t : FileTree) (path : String) (limits : Json.Limits := .usual) :
    Except Fault ProjectConfig :=
  (ofFile t path limits).mapError (faultOf path)

/-- The configuration of the project in a directory, if it has a usable one, and what is told
(`load_project_config`). -/
def load (t : FileTree) (directory : String) (limits : Json.Limits := .usual) :
    Except Fault (Option ProjectConfig × List Notice) :=
  let path := FilePath.append directory fileName
  if t.contains path then
    match readFrom t path limits with
    | .ok c =>
      .ok (some c, [.log ⟨logger, .debug, "Loaded project configuration from " ++ path⟩])
    | .error (.config path reason) => .ok (none, [.event (.configIgnored path reason)])
    | .error e => .error e
  else .ok (none, [])

end ModuleGraph.ProjectConfig
