import ModuleGraph.Host
/-!
# Diagnostics

What a compiler has to say about the loaded files, and where the file of a diagnostic comes
from: the project, the library, or a dependency.
-/

namespace ModuleGraph

/-- One diagnostic; positions count from zero. -/
structure Diagnostic where
  message : String
  fileName : Option String
  line : Option Int
  character : Option Int
  deriving DecidableEq, Repr, Inhabited

namespace Diagnostic

/-- The message with its place in front, if it has a file and a line (`Diagnostic.format`). -/
def format (d : Diagnostic) : String :=
  match d.fileName, d.line with
  | some file, some line =>
    file ++ ":" ++ toString line ++ ":" ++ toString (d.character.getD 0) ++ ": " ++ d.message
  | _, _ => d.message

/-- Where the file of a diagnostic comes from (`classify_diagnostic`). -/
def origin (h : Host) (d : Diagnostic) : Except Fault Origin := do
  let file := d.fileName.getD ""
  if Text.startsWith file (← h.currentDirectory) then return .project
  if Text.startsWith file (← h.libraryLocation) then return .library
  return .dependency

/-- What observers are told about diagnostics (`report_diagnostics`). Telling stops where a
directory of the host has no path. -/
def report (h : Host) : List Diagnostic → List Event × Option Fault
  | [] => ([], none)
  | d :: r =>
    match d.origin h with
    | .error e => ([], some e)
    | .ok origin =>
      let (events, fault) := report h r
      (.diagnosticReported origin d.format :: events, fault)

end Diagnostic

end ModuleGraph
