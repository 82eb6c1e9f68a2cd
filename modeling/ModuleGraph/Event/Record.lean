import ModuleGraph.Event.Basic
/-!
# Events from records

An event is read from the name of its model and a record of its fields.
-/

namespace ModuleGraph.Event

open Schema

/-- The tag field of a record, which may be left out. -/
def checkTag (tag : String) (members : List (String × Json)) : Checked String :=
  optional members "type" tag (oneOf [tag])

/-- The origin that a name stands for. -/
def originOf (name : String) : Origin :=
  if name = "project" then .project else if name = "library" then .library else .dependency

/-- A record with one text. -/
def readOne (tag field : String) (make : String → Event) (ms : List (String × Json)) :
    Checked Event :=
  (both (checkTag tag ms) (required ms field text)).map fun (_, a) => make a

/-- A record with two texts. -/
def readTwo (tag field₁ field₂ : String) (make : String → String → Event)
    (ms : List (String × Json)) : Checked Event :=
  (both (checkTag tag ms) (both (required ms field₁ text) (required ms field₂ text))).map
    fun (_, a, b) => make a b

/-- The reader of a model's fields, if there is a model of this name. -/
def reader? (model : String) : Option (List (String × Json) → Checked Event) :=
  match model with
  | "FileLoaded" => some fun ms =>
    (both (checkTag "file_loaded" ms)
      (both (required ms "url" text) (both (required ms "path" text)
        (both (required ms "size" whole) (optional ms "is_library" false truth))))).map
      fun (_, url, path, size, isLibrary) => .fileLoaded url path size isLibrary
  | "FileRead" => some fun ms =>
    (both (checkTag "file_read" ms)
      (both (required ms "path" text) (both (required ms "found_path" text)
        (optional ms "is_library" false truth)))).map
      fun (_, path, foundPath, isLibrary) => .fileRead path foundPath isLibrary
  | "FileNotFound" => some (readOne "file_not_found" "path" .fileNotFound)
  | "FileProbeMissed" => some (readOne "file_probe_missed" "path" .fileProbeMissed)
  | "SpecifierFailed" => some fun ms =>
    (both (checkTag "specifier_failed" ms)
      (both (required ms "specifier" text) (both (required ms "source_url" text)
        (required ms "error" text)))).map
      fun (_, specifier, sourceUrl, error) => .specifierFailed specifier sourceUrl error
  | "LibraryMissing" => some (readTwo "library_missing" "name" "error" .libraryMissing)
  | "ConfigIgnored" => some (readTwo "config_ignored" "path" "error" .configIgnored)
  | "ParseErrorsFound" => some (readOne "parse_errors_found" "path" .parseErrorsFound)
  | "DiagnosticReported" => some fun ms =>
    (both (checkTag "diagnostic_reported" ms)
      (both (required ms "origin" (oneOf ["project", "library", "dependency"]))
        (required ms "message" text))).map
      fun (_, origin, message) => .diagnosticReported (originOf origin) message
  | _ => none

/-- The event of a model that a record states. -/
def ofRecord? (model : String) (v : Json) : Option (Except Invalid Event) :=
  (reader? model).map fun read => record model read v

end ModuleGraph.Event
