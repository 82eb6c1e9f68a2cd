import ModuleGraph.Event.Basic
import ModuleGraph.Library
import ModuleGraph.ModuleStore
/-!
# The compiler's view of the store

A host answers the questions of a compiler from the module store. It holds no files of its own:
every answer is a lookup, under the conventions by which compilers name files.

Before a path is looked up it is normalised: a segment `/jsx-runtime` at its end is dropped, and
a path under the library directory is folded to the form `lib.<name>.d.ts`. If that changes the
path and the normalised file is stored, the answer is a stub of two lines that refers the
compiler to the stored file.
-/

namespace ModuleGraph

/-- A compiler host over a store (`VfsHost`). -/
structure Host where
  store : ModuleStore
  rootUrl : String
  libraryDir : String
  deriving Inhabited

namespace Host

/-- The segment with which a compiler asks for the runtime of JSX (`JSX_RUNTIME_SEGMENT`). -/
def jsxRuntimeSegment : String := "/jsx-runtime"

/-- Paths that a compiler probes for every module, so that a miss tells nothing: those through a
package directory, and package manifests (`QUIET_PROBE_RE`). -/
def isQuietProbe (path : String) : Bool :=
  let manifest := "/package.json"
  Text.contains path "/node_modules/" || Text.endsWith path manifest ||
    Text.endsWith path (manifest ++ "\n")

/-- The stub that refers a compiler to a stored file (`REDIRECT_STUB`). -/
def redirectStub (path : String) : String :=
  "/// <reference no-default-lib=\"true\" />\n/// <reference path=\"" ++ path ++ "\" />\n"

/-- The path of the library directory (`VfsHost.get_default_lib_location`). -/
def libraryLocation (h : Host) : Except Fault String := directoryPath h.libraryDir

/-- The path of the project directory (`VfsHost.get_current_directory`). -/
def currentDirectory (h : Host) : Except Fault String := directoryPath h.rootUrl

/-- The path of the library that is loaded when none is named
(`VfsHost.get_default_lib_file_name`). -/
def defaultLibraryFileName (h : Host) : Except Fault String := do
  let url ← (joinUrl h.libraryDir ["lib.d.ts"]).mapError (.foreign ∘ .ofUrl)
  virtualPath url

/-- The path begins like that of the library directory (`VfsHost.is_library_path`). -/
def isLibraryPath (h : Host) (path : String) : Except Fault Bool :=
  h.libraryLocation.map fun location => Text.startsWith path location

/-- What stands before the last slash of a path, and what stands after it. Slashes at the end of
the first part are dropped unless it has nothing else. -/
def cutDirectory (path : String) : String × String :=
  match Text.cutAtLast '/' path.toList with
  | some (before, name) =>
    let directory := Text.trimEndList (· = '/') before
    (.ofList (if directory.isEmpty then before ++ ['/'] else directory), .ofList name)
  | none => ("", path)

/-- A name without its extension. Points at the beginning of a name begin no extension. -/
def stem (name : String) : String :=
  match Text.cutAtLast '.' name.toList with
  | some (before, _) => if before.all (· = '.') then name else .ofList before
  | none => name

/-- The form under which a library of this name is stored. -/
def foldLibraryName (name : String) : String :=
  let name := Text.lower (stem name)
  let name := if Text.startsWith name Library.opening then name else Library.opening ++ name
  let name := if Text.endsWith name ".d" then name else name ++ ".d"
  name ++ ".ts"

/-- A path without the segment that asks for the runtime of JSX. -/
def dropJsxRuntime (path : String) : String :=
  if Text.endsWith path jsxRuntimeSegment then Text.dropLast path jsxRuntimeSegment.length
  else path

/-- The key under which a path is looked up (`VfsHost.normalize_path`). -/
def normalizePath (h : Host) (path : String) : Except Fault String := do
  let found := dropJsxRuntime path
  if ← h.isLibraryPath found then
    let (directory, name) := cutDirectory found
    return directory ++ "/" ++ foldLibraryName name
  return found

/-- The text that answers a path, if there is one, with the key that it is stored under. -/
def lookup (h : Host) (path : String) : Except Fault (String × Option String) := do
  let found ← h.normalizePath path
  match h.store.get? found with
  | none => return (found, none)
  | some text => return (found, some (if found = path then text else redirectStub found))

/-- Reads a path: the text that answers it, and what observers are told (`VfsHost.read_file`). -/
def read (h : Host) (path : String) : Except Fault (Option String × List Event) := do
  let (found, answer) ← h.lookup path
  match answer with
  | none => return (none, [.fileNotFound found])
  | some text => return (some text, [.fileRead path found (← h.isLibraryPath found)])

/-- Whether a path is answered, and what observers are told (`VfsHost.file_exists`). -/
def probe (h : Host) (path : String) : Except Fault (Bool × List Event) := do
  let (_, answer) ← h.lookup path
  if answer.isSome then return (true, [])
  else return (false, if isQuietProbe path then [] else [.fileProbeMissed path])

/-- A host writes nothing. -/
def writeRefusal : Foreign := ⟨"NotImplementedError", "writeFile not implemented"⟩

end Host

end ModuleGraph
