import ModuleGraph.Fault
import ModuleGraph.Url.Join
import ModuleGraph.Url.Percent
/-!
# Virtual paths

A virtual path is the key of one loaded module in the store. It is derived from the requested URL
alone, so it is known before anything is read:

* `file:///home/me/app/main.ts` has the path `/home/me/app/main.ts`;
* `https://esm.sh/react@18` has the path `/https/esm.sh/react@18.ts`;
* `npm:react@18` has the path `/https/esm.sh/react@18.ts`;
* `jsr:@std/path` has the path `/https/esm.sh/jsr/@std/path.ts`.
-/

namespace ModuleGraph

/-- The place on the network that serves a package registry, by the registry's scheme
(`REGISTRY_ORIGINS`). -/
def registryOrigin? : List Char → Option String
  | ['n', 'p', 'm'] => some "https://esm.sh/"
  | ['j', 's', 'r'] => some "https://esm.sh/jsr/"
  | _ => none

/-- The ending of a declaration file. -/
def declarationSuffix : String := ".d.ts"

/-- The ending given to a remote module without one. -/
def guessedSuffix : String := ".ts"

/-- The ending of the module that a declaration file describes. -/
def runtimeSuffix : String := ".js"

/-- The endings of scripts. -/
def scriptExtensions : List String :=
  [".ts", ".tsx", ".js", ".jsx", ".cts", ".ctsx", ".cjs", ".cjsx", ".mts", ".mtsx", ".mjs",
   ".mjsx"]

/-- The path ends in the extension of a script; a line end after it does not count
(`has_script_extension`). -/
def hasScriptExtension (path : String) : Bool :=
  let atEnd := fun (s : String) => scriptExtensions.any (Text.endsWith s ·)
  atEnd path || (Text.endsWith path "\n" && atEnd (Text.dropLast path 1))

/-- The text has the outer form of an absolute URL: a scheme and a colon. -/
def hasSchemeForm (s : String) : Bool :=
  match Text.cutAt ':' s.toList with
  | some (a, _) => Url.isScheme a
  | none => false

/-- The specifier is an absolute URL (`is_absolute_url`). -/
def isAbsoluteUrl (specifier : String) : Except Url.Problem Bool :=
  if hasSchemeForm specifier then (Url.scheme specifier).map (· ≠ "") else .ok false

/-- The specifier is neither an absolute URL nor a path (`is_bare_specifier`). -/
def isBareSpecifier (specifier : String) : Except Url.Problem Bool :=
  (isAbsoluteUrl specifier).map fun absolute =>
    !absolute && !Text.startsWith specifier "." && !Text.startsWith specifier "/"

/-- A registry URL as the URL that serves it; any other URL as it is
(`registry_to_network_url`). -/
def registryToNetworkUrl (url : String) : Except Url.Problem String :=
  (Url.split url).map fun p =>
    match registryOrigin? p.scheme with
    | some origin =>
      origin ++ Text.trimStart (· = '/') (Text.dropFirst url (p.scheme.length + 1))
    | none => url

/-- What a URL that has a virtual path names. -/
inductive Location where
  /-- A file, by the characters of its path. -/
  | file (path : List Char)
  /-- A remote module, by its host and path. -/
  | remote (authority path : List Char)
  deriving DecidableEq, Repr

/-- What a URL names, if its scheme is one that can be fetched. -/
def Location.ofUrl (url : String) : Except Fault Location := do
  let network ← (registryToNetworkUrl url).mapError (.foreign ∘ .ofUrl)
  let p ← (Url.split network).mapError (.foreign ∘ .ofUrl)
  if p.scheme = "file".toList then return .file (Url.unescape p.path)
  if p.scheme = "https".toList then return .remote p.authority p.path
  throw (.unsupported url)

/-- The path of a location, without a guess at its ending. -/
def Location.plainPath : Location → String
  | .file path => .ofList path
  | .remote authority path => .ofList ("/https/".toList ++ authority ++ path)

/-- The key under which the module that `url` names is stored (`url_to_virtual_path`). A remote
module without the extension of a script is taken for a script. -/
def virtualPath (url : String) : Except Fault String := do
  let location ← Location.ofUrl url
  let path := location.plainPath
  match location with
  | .file _ => return path
  | .remote .. =>
    return if !hasScriptExtension path && !Text.endsWith path "/" then path ++ guessedSuffix
      else path

/-- The path of the directory that `url` names: no guess at an ending, no slash at its end unless
it is the root (`url_to_directory_path`). -/
def directoryPath (url : String) : Except Fault String := do
  let location ← Location.ofUrl url
  let path := Text.trimEnd (· = '/') location.plainPath
  return if path = "" then "/" else path

/-- The path under which a stored module is imported: a declaration file is imported as the module
that it describes (`to_importable_path`). -/
def importablePath (path : String) : String :=
  if Text.endsWith path declarationSuffix then
    Text.dropLast path declarationSuffix.length ++ runtimeSuffix
  else path

/-- `url` taken for a directory, with one more reference joined to it. -/
def joinUrlStep (url reference : String) : Except Url.Problem String :=
  Url.join (if Text.endsWith url "/" then url else url ++ "/") reference

/-- `url` taken for a directory, with the references joined to it one after the other
(`join_url`). -/
def joinUrl (url : String) (references : List String) : Except Url.Problem String :=
  references.foldlM joinUrlStep url

end ModuleGraph
