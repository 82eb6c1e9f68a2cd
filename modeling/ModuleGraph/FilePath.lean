import ModuleGraph.Fault
import ModuleGraph.Url.Percent
/-!
# File paths

Paths of files as texts, their components, and the `file:` URLs that name them.
-/

namespace ModuleGraph.FilePath

/-- The components of a path: what stands between its slashes, without empty parts and `.`. -/
def components (path : List Char) : List (List Char) :=
  (Text.piecesAt '/' path).filter fun p => !p.isEmpty && p != ['.']

/-- The beginning of a path from the root: two slashes if there are exactly two, else one; empty
for any other path. -/
def root (path : List Char) : List Char :=
  match path with
  | '/' :: '/' :: '/' :: _ => ['/']
  | '/' :: '/' :: _ => ['/', '/']
  | '/' :: _ => ['/']
  | _ => []

/-- Components with slashes between them. -/
def joinComponents : List (List Char) → List Char
  | [] => []
  | [c] => c
  | c :: r => c ++ '/' :: joinComponents r

/-- The path written with single slashes and without `.`; the empty path is `.`. -/
def normalize (path : String) : String :=
  let cs := root path.toList ++ joinComponents (components path.toList)
  .ofList (if cs.isEmpty then ['.'] else cs)

/-- One more component: `..` leaves the last one. -/
def enter (done : List (List Char)) (c : List Char) : List (List Char) :=
  if c = ['.', '.'] then done.tail else c :: done

/-- The components of a path from the root with `..` carried out. -/
def absolute (path : List Char) : List (List Char) := ((components path).foldl enter []).reverse

/-- A path with a NUL names nothing. -/
def embeddedNull : Foreign := .invalidValue "embedded null byte"

/-- The path from the root with `..` carried out. -/
def resolve (path : String) : Except Foreign String :=
  if path.toList.contains '\x00' then .error embeddedNull
  else .ok (.ofList ('/' :: joinComponents (absolute path.toList)))

/-- The URL of a file, by its path from the root (`path_to_file_url`). -/
def toUrl (path : String) : Except Foreign String :=
  (resolve path).map fun p => "file://" ++ Url.escapePath p

/-- The path of the file that a URL names (`file_url_to_path`). -/
def ofUrl (url : String) : Except Url.Problem String :=
  (Url.split url).map fun p => normalize (.ofList (Url.unescape p.path))

/-- `path` as seen from the directory `base`. -/
def append (base path : String) : String :=
  if Text.startsWith path "/" then path
  else if Text.endsWith base "/" then base ++ path else base ++ "/" ++ path

end ModuleGraph.FilePath
