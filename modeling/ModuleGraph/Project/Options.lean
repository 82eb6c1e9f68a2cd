import ModuleGraph.Json.Basic
import ModuleGraph.Table
/-!
# Compiler options

The options that a program is compiled with, as a table of JSON values: built-in defaults that fit
the runtime, with the overrides of a caller and of the project on top. Layering is shallow, so an
option is taken as a whole from the last layer that has it.
-/

namespace ModuleGraph

/-- Compiler options by name. -/
abbrev CompilerOptions := Table Json

namespace CompilerOptions

/-- The libraries that are loaded unless options say otherwise. -/
def defaultLibraries : List String :=
  ["es2023", "dom", "deno.ns.d.ts", "deno.net.d.ts", "deno.fetch.d.ts", "deno.unstable.d.ts"]

/-- The built-in options (`DEFAULT_COMPILER_OPTIONS`). -/
def defaults : CompilerOptions := .ofList
  [("allowImportingTsExtensions", .bool true), ("allowJs", .bool true),
   ("allowSyntheticDefaultImports", .bool true), ("checkJs", .bool true),
   ("jsx", .str "react-jsx"), ("lib", .arr (defaultLibraries.map .str)),
   ("module", .str "NodeNext"), ("moduleDetection", .str "auto"),
   ("moduleResolution", .str "NodeNext"), ("noEmit", .bool true), ("strict", .bool true),
   ("target", .str "ESNext"), ("useUnknownInCatchVariables", .bool false)]

/-- The built-in options with others on top (`default_compiler_options`). -/
def withOverrides (overrides : CompilerOptions) : CompilerOptions := defaults.layer overrides

/-- Options as a record. -/
def toJson (o : CompilerOptions) : Json := .obj o.entries

end CompilerOptions

end ModuleGraph
