import ModuleGraph.Diagnostic
import ModuleGraph.Fetch.Cache
import ModuleGraph.Project.Config
/-!
# Programs

A program is what a build yields: the root files, the options that were settled on, and the host
through which a compiler reads the loaded files. A plan says what to build, and a frontend stands
for the compiler.
-/

namespace ModuleGraph

/-- A compiler: what it makes of the root files, the options and the host, and what it has to say
about that (`CompilerFrontend`). -/
structure Frontend (π : Type) where
  create : List String → CompilerOptions → Host → π
  diagnostics : π → List Diagnostic

/-- What to build. -/
structure Plan (π : Type) where
  /-- The path of the project directory. -/
  root : String
  entryGlob : String
  importMap : ImportMap
  overrides : CompilerOptions
  libraryDir : String
  bundledDir : String
  cache : Fetch.Cache
  frontend : Option (Frontend π)

namespace Plan

/-- The pattern of entry files (`DEFAULT_ENTRY_GLOB`). -/
def defaultEntryGlob : String := "**/*.\x7bmts,ts,tsx,mjs,js,jsx\x7d"

/-- The URL of the library directory (`DEFAULT_LIB_DIR`). -/
def defaultLibraryDir : String :=
  "https://raw.githubusercontent.com/denoland/deno/main/cli/tsc/dts"

end Plan

/-- The result of a build. -/
structure Program (π : Type) where
  rootNames : List String
  options : CompilerOptions
  host : Host
  compiled : Option π
  diagnostics : List Diagnostic

namespace Program

/-- The logger of what is told about programs. -/
def logger : String := "vfs_host.program"

/-- The store behind the program's host. -/
def store {π : Type} (p : Program π) : ModuleStore := p.host.store

/-- The path and text of the manifest that every program has (`PACKAGE_MANIFEST_PATH`,
`PACKAGE_MANIFEST`). -/
def manifest : String × String := ("/package.json", "\x7b \"type\": \"module\" \x7d")

end Program

end ModuleGraph
