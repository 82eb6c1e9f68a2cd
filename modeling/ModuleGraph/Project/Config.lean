import ModuleGraph.ImportMap.Record
import ModuleGraph.Project.Options
import ModuleGraph.Url.Join
/-!
# Project configurations

What a project says about itself in its configuration file: compiler options, an import map and
entry points. Every field may be left out or be null, and fields that are not known are passed
over. The targets of the import map are seen from the URL of the configuration file.
-/

namespace ModuleGraph

/-- The entry points that a project exports. -/
inductive Exports where
  | single (path : String)
  | named (paths : Table String)
  deriving Inhabited

/-- The recognised fields of a configuration file. -/
structure ProjectConfig where
  compilerOptions : Option CompilerOptions
  imports : Option Mapping
  scopes : Option (Table Mapping)
  exported : Option Exports
  deriving Inhabited

namespace ProjectConfig

open Schema

/-- The name of the configuration file. -/
def fileName : String := "deno.json"

/-- The names under which the compiler options may stand; the first one present counts. -/
def optionNames : List String := ["compilerOptions", "compiler_options"]

/-- A field that may stand under one of several names. -/
def optionalAmong {α : Type} (members : List (String × Json)) (names : List String) (default : α)
    (read : Json → Checked α) : Checked α :=
  match names.find? fun n => (members.lookup n).isSome with
  | some name => optional members name default read
  | none => .ok default

/-- Entry points: a path or a table of paths. A value that is neither has the issues of both. -/
def readExports (v : Json) : Checked Exports :=
  match text v, table text v with
  | .ok path, _ => .ok (.single path)
  | _, .ok paths => .ok (.named paths)
  | .error a, .error b =>
    (both (under "str" (.error a : Checked Unit))
      (under "dict[str,str]" (.error b : Checked Unit))).map fun _ => .single ""

/-- The fields of a configuration. -/
def read (members : List (String × Json)) : Checked ProjectConfig :=
  (both (optionalAmong members optionNames none (nullable (table .ok)))
    (both (optional members "imports" none (nullable (table text)))
      (both (optional members "scopes" none (nullable (table (table text))))
        (optional members "exports" none (nullable readExports))))).map
    fun (options, imports, scopes, exported) => ⟨options, imports, scopes, exported⟩

/-- The configuration that a record states. -/
def ofRecord (v : Json) : Except Invalid ProjectConfig := record "ProjectConfig" read v

/-- A mapping with its targets as seen from a URL. -/
def resolveMapping (base : String) (m : Mapping) : Except Url.Problem Mapping :=
  (m.entries.mapM fun e => (Url.join base e.2).map fun target => (e.1, target)).map .ofList

/-- The import map of the project, as seen from the URL of its configuration file
(`ProjectConfig.import_map`). -/
def importMap (c : ProjectConfig) (url : String) : Except Url.Problem ImportMap := do
  let imports ← resolveMapping url (c.imports.getD .empty)
  let scopes ← (c.scopes.getD .empty).entries.mapM fun e =>
    (resolveMapping url e.2).map fun mapping => (e.1, mapping)
  return ⟨imports, .ofList scopes⟩

/-- The exported entry points, relative to the project's root (`ProjectConfig.export_paths`). -/
def exportPaths (c : ProjectConfig) : List String :=
  match c.exported with
  | none => []
  | some (.single path) => [path]
  | some (.named paths) => paths.entries.map Prod.snd

end ProjectConfig

end ModuleGraph
