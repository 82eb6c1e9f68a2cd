import ModuleGraph.Table
import ModuleGraph.VirtualPath
/-!
# Import maps

An import map gives targets to specifiers, for all importers or for those below a scope. A
specifier is resolved in this order:

1. the entry of the import map that matches it: of the authoritative scope, the longest one that
   the importer's URL begins with, if that scope has a matching entry, otherwise of the top level;
   an entry matches if it equals the specifier, or ends in a slash and begins it; the longest one
   counts;
2. a bare specifier without an entry is an error;
3. anything else is a reference as seen from the importer's URL.
-/

namespace ModuleGraph

/-- Targets by specifier or by a beginning of specifiers. -/
abbrev Mapping := Table String

/-- Entries for all importers, and entries for the importers below a scope. -/
structure ImportMap where
  imports : Mapping
  scopes : Table Mapping
  deriving Inhabited

namespace Mapping

/-- An entry for `key` is one for `specifier`. -/
def matchesSpecifier (key specifier : String) : Bool :=
  specifier = key || (Text.endsWith key "/" && Text.startsWith specifier key)

/-- The longer of the best entry so far and another one; the earlier one of two of a length. -/
def longer (best : Option (String × String)) (e : String × String) : Option (String × String) :=
  match best with
  | some b => if b.1.length < e.1.length then some e else best
  | none => some e

/-- The longest entry for a specifier (`match_prefix`). -/
def match? (m : Mapping) (specifier : String) : Option (String × String) :=
  m.entries.foldl
    (fun best e => if matchesSpecifier e.1 specifier then longer best e else best) none

end Mapping

namespace ImportMap

/-- The import map without entries. -/
def empty : ImportMap := ⟨.empty, .empty⟩

/-- The scopes with those of `other` on top; a scope that both have gets the entries of both. -/
def layerScopes (scopes other : Table Mapping) : Table Mapping :=
  other.entries.foldl
    (fun acc e => acc.insert e.1 (((acc.get? e.1).getD .empty).layer e.2)) scopes

/-- The import map with the entries of `other` on top (`ImportMap.merged`). -/
def merged (m other : ImportMap) : ImportMap :=
  ⟨m.imports.layer other.imports, layerScopes m.scopes other.scopes⟩

/-- The authoritative scope of an importer: the longest one that its URL begins with
(`SpecifierResolver._matching_scope`). -/
def scopeFor? (m : ImportMap) (source : String) : Option (String × Mapping) :=
  m.scopes.entries.foldl
    (fun best e =>
      if Text.startsWith source e.1 then
        match best with
        | some b => if b.1.length < e.1.length then some e else best
        | none => some e
      else best) none

/-- The entry that decides about a specifier. -/
def entryFor? (m : ImportMap) (source specifier : String) : Option (String × String) :=
  let inScope := (m.scopeFor? source).bind fun s => Mapping.match? s.2 specifier
  inScope <|> Mapping.match? m.imports specifier

/-- A text in a message about a malformed URL. -/
def invalidUrlText (specifier source : String) (p : Url.Problem) : String :=
  "Invalid URL " ++ Text.quoted specifier ++ " in " ++ source ++ ": " ++ p.message

/-- The URL that `specifier` names in the module at `source` (`SpecifierResolver.resolve`). -/
def resolve (m : ImportMap) (source specifier : String) : Except Fault String :=
  match m.entryFor? source specifier with
  | some (key, target) => .ok (target ++ Text.dropFirst specifier key.length)
  | none =>
    let attempt : Except Url.Problem (Bool × String) := do
      let bare ← isBareSpecifier specifier
      let url ← Url.join source specifier
      return (bare, url)
    match attempt with
    | .error p => .error (.unresolved specifier source (some (invalidUrlText specifier source p)))
    | .ok (true, _) => .error (.bare specifier source)
    | .ok (false, url) => .ok url

/-- A resolver shows how many entries and scopes it has. -/
def summary (m : ImportMap) : String :=
  "SpecifierResolver(" ++ toString m.imports.size ++ " imports, " ++ toString m.scopes.size ++
    " scopes)"

end ImportMap

end ModuleGraph
