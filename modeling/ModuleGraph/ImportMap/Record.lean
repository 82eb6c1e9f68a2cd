import ModuleGraph.ImportMap
import ModuleGraph.Schema
/-!
# Import maps from records

An import map is read from a record with the fields `imports` and `scopes`, both of which may be
left out.
-/

namespace ModuleGraph.ImportMap

open Schema

/-- The fields of an import map. -/
def read (members : List (String × Json)) : Checked ImportMap :=
  (both (optional members "imports" Table.empty (table text))
    (optional members "scopes" Table.empty (table (table text)))).map
    fun (imports, scopes) => ⟨imports, scopes⟩

/-- The import map that a record states. -/
def ofRecord (v : Json) : Except Invalid ImportMap := record "ImportMap" read v

/-- A mapping as a record. -/
def mappingToJson (m : Mapping) : Json := .obj (m.entries.map fun e => (e.1, .str e.2))

/-- An import map as a record. -/
def toJson (m : ImportMap) : Json :=
  .obj [("imports", mappingToJson m.imports),
    ("scopes", .obj (m.scopes.entries.map fun e => (e.1, mappingToJson e.2)))]

end ModuleGraph.ImportMap
