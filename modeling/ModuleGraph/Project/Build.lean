import ModuleGraph.FilePath
import ModuleGraph.Loading.Schedule
import ModuleGraph.Project.Load
import ModuleGraph.Project.Program
import ModuleGraph.Text.Shown
/-!
# Building programs

A build (`build_program`) settles its options, its import map and its entry files from the plan and
from the project configuration, and then loads the graph in three phases, each of which ends before
the next one begins:

1. the libraries that the options name, which are reported and passed over where they are missing;
2. the runtime module of JSX, if the options name its source, which is then named by its path;
3. the entry files.

A fault of the second or the third phase ends the build.
-/

namespace ModuleGraph

/-- What a build goes by: a plan with the project configuration on top. -/
structure Settlement where
  options : CompilerOptions
  importMap : ImportMap
  /-- The URLs of the entry files. -/
  entries : List String

namespace Settlement

/-- The URL of a file that the configuration of the project at `root` exports. -/
def exportUrl (root path : String) : Except Fault String :=
  (FilePath.toUrl (FilePath.append root path)).mapError .foreign

/-- The entries with one more, unless it is one of them. -/
def addEntry (entries : List String) (url : String) : List String :=
  if entries.contains url then entries else entries ++ [url]

/-- The settlement with the configuration of the project at `root` on top. -/
def layered (s : Settlement) (root rootUrl : String) (c : ProjectConfig) :
    Except Fault Settlement := do
  let own ← (c.importMap (rootUrl ++ ProjectConfig.fileName)).mapError (.foreign ∘ .ofUrl)
  let exported ← c.exportPaths.mapM (exportUrl root)
  return {
    options := match c.compilerOptions with
      | some o => s.options.layer o
      | none => s.options
    importMap := s.importMap.merged own
    entries := exported.foldl addEntry s.entries }

end Settlement

namespace CompilerOptions

/-- The name of the option with the libraries. -/
def librariesOption : String := "lib"

/-- The name of the option with the source of the runtime of JSX. -/
def runtimeOption : String := "jsxImportSource"

/-- A value that is no library name. -/
def notAName (v : Json) : Foreign :=
  ⟨"AttributeError", "'" ++ Text.typeName v ++ "' object has no attribute 'lower'"⟩

/-- A value that lists nothing. -/
def notAList (v : Json) : Foreign :=
  ⟨"TypeError", "'" ++ Text.typeName v ++ "' object is not iterable"⟩

/-- The values that a value lists: items, keys or characters; an empty value lists none. -/
def listed (v : Json) : Except Foreign (List Json) :=
  if !v.isTruthy then .ok []
  else match v with
    | .arr items => .ok items
    | .obj members => .ok (members.map fun m => .str m.1)
    | .str s => .ok (s.toList.map fun c => .str (.singleton c))
    | v => .error (notAList v)

/-- The libraries that options name. -/
def libraries (o : CompilerOptions) : Except Foreign (List String) := do
  let values ← listed ((o.get? librariesOption).getD .null)
  values.mapM fun
    | .str name => .ok name
    | v => .error (notAName v)

/-- The source of the runtime of JSX, if the options name one. -/
def runtimeSource? (o : CompilerOptions) : Option String :=
  match o.get? runtimeOption with
  | none | some .null => none
  | some v => some (Text.plain v)

end CompilerOptions

/-- A way of running load tasks until the awaited ones have ended. -/
abbrev Runner :=
  Loading.Setting Fetch.World → List Nat → Loading.State Fetch.World → Loading.State Fetch.World

/-- A part of a build: it works on the load tasks and their world, and yields a value or a fault. -/
abbrev Build (α : Type) := ExceptT Fault (StateM (Loading.State Fetch.World)) α

namespace Build

/-- Something is told. -/
def tell (notices : List Notice) : Build Unit :=
  modify fun s => { s with notices := s.notices ++ notices }

/-- Runs tasks together; the answer is their paths. -/
def together (run : Runner) (c : Loading.Setting Fetch.World) (demands : List Loading.Demand) :
    Build (List (Option String)) := do
  let (s, places) := (← get).ask none demands
  let s := run c places s
  set s
  s.results places

/-- Loads modules that the build itself asks for; the answer is their paths. -/
def modules (run : Runner) (c : Loading.Setting Fetch.World) (urls : List String) :
    Build (List String) := do
  return (← together run c (urls.map fun u => .module u u)).filterMap id

/-- Loads the libraries that options name. -/
def libraries (run : Runner) (c : Loading.Setting Fetch.World) (o : CompilerOptions) :
    Build Unit := do
  let names ← o.libraries.mapError Fault.foreign
  let _ ← together run c (names.map .library)

/-- Loads the runtime module of JSX, if the options name its source: the options with its path. -/
def runtime (run : Runner) (c : Loading.Setting Fetch.World) (rootUrl : String)
    (o : CompilerOptions) : Build CompilerOptions :=
  match o.runtimeSource? with
  | none => return o
  | some source => do
    let url ← c.importMap.resolve rootUrl (source ++ Rewrite.runtimeSegment)
    match ← modules run c [url] with
    | path :: _ => return o.insert CompilerOptions.runtimeOption (.str path)
    | [] => return o

/-- The record of a build that has loaded its graph. -/
def loadedNotice (files entries : Nat) : Notice :=
  .log ⟨Program.logger, .info,
    "Loaded " ++ toString files ++ " files for " ++ toString entries ++ " entry points"⟩

end Build

namespace Plan

variable {π : Type}

/-- The setting in which the plan's modules are loaded. -/
def setting (p : Plan π) (m : ImportMap) : Except Fault (Loading.Setting Fetch.World) :=
  Loading.Setting.make m p.libraryDir p.bundledDir fun url w => (Fetch.fetch p.cache url).run w

/-- The URLs of the plan's own entry files (`find_entry_files`). -/
def entries (p : Plan π) (files : FileTree) (root : String) : Except Fault (List String) := do
  let places ← (files.filesMatching (FilePath.components root.toList) p.entryGlob).mapError
    Fault.foreign
  (places.mapM fun c => FilePath.toUrl (.ofList ('/' :: FilePath.joinComponents c))).mapError
    Fault.foreign

/-- What the plan and the project configuration settle (the first half of `build_program`). -/
def settle (p : Plan π) (root rootUrl : String) : Build Settlement := do
  let files := (← get).world.files
  let own : Settlement := ⟨.withOverrides p.overrides, p.importMap, ← p.entries files root⟩
  let (config, notices) ← (ProjectConfig.load files root : Except Fault _)
  Build.tell notices
  match config with
  | none => return own
  | some c => own.layered root rootUrl c

/-- The program of loaded files, with what the frontend has to say about it (the end of
`build_program`). -/
def compile (p : Plan π) (rootNames : List String) (options : CompilerOptions) (host : Host) :
    Build (Program π) :=
  match p.frontend with
  | none => return ⟨rootNames, options, host, none, []⟩
  | some f => do
    let compiled := f.create rootNames options host
    let diagnostics := f.diagnostics compiled
    let (events, fault) := Diagnostic.report host diagnostics
    Build.tell (events.map .event)
    match fault with
    | some e => throw e
    | none => return ⟨rootNames, options, host, some compiled, diagnostics⟩

/-- Builds the program of a plan, with its load tasks run in a given way (`build_program`). -/
def buildWith (run : Runner) (p : Plan π) : Build (Program π) := do
  let root ← (FilePath.resolve p.root).mapError Fault.foreign
  let rootUrl := (← (FilePath.toUrl root).mapError Fault.foreign) ++ "/"
  let settled ← p.settle root rootUrl
  let c ← (p.setting settled.importMap : Except Fault _)
  let store ← ((← get).store.add Program.manifest.1 Program.manifest.2).mapError
    fun e => Fault.foreign e.toForeign
  modify fun s => { s with store := store }
  Build.libraries run c settled.options
  let options ← Build.runtime run c rootUrl settled.options
  let rootNames ← Build.modules run c settled.entries
  let store := (← get).store
  Build.tell [Build.loadedNotice store.size rootNames.length]
  p.compile rootNames options ⟨store, rootUrl, p.libraryDir⟩

/-- Builds the program of a plan in a world. -/
def build (p : Plan π) (w : Fetch.World) :
    Except Fault (Program π) × Loading.State Fetch.World :=
  (p.buildWith Loading.State.run).run (.start w)

end Plan

end ModuleGraph
