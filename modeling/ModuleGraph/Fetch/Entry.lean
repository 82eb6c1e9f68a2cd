import ModuleGraph.Json.Reader
import ModuleGraph.Json.Writer
import ModuleGraph.Moment
import ModuleGraph.Schema
/-!
# Cached responses

A snapshot of one successful request, and the record under which it is kept in a file.
-/

namespace ModuleGraph.Fetch

/-- A snapshot of one successful request. -/
structure CachedResponse where
  /-- The URL that was asked for. -/
  url : String
  /-- The URL that answered, after all redirections. -/
  responseUrl : String
  text : String
  /-- The headers of the response, with names in lower case. -/
  headers : Table String
  fetchedAt : Moment
  deriving Inhabited

namespace CachedResponse

open Schema

/-- A moment with an offset. -/
def moment (v : Json) : Checked Moment :=
  (Moment.ofJson v).mapError fun p => [⟨[], p.name⟩]

/-- The fields of a cached response. -/
def read (members : List (String × Json)) : Checked CachedResponse :=
  (both (required members "url" Schema.text)
    (both (required members "response_url" Schema.text)
      (both (required members "text" Schema.text)
        (both (optional members "headers" Table.empty (table Schema.text))
          (required members "fetched_at" moment))))).map
    fun (url, responseUrl, text, headers, fetchedAt) => ⟨url, responseUrl, text, headers, fetchedAt⟩

/-- The name of the record. -/
def modelName : String := "CachedResponse"

/-- The cached response that a record states. -/
def ofRecord (v : Json) : Except Invalid CachedResponse := record modelName read v

/-- The cached response that a document states. -/
def ofDocument (document : String) : Except Invalid CachedResponse :=
  match Json.parseStrict document with
  | some v => ofRecord v
  | none => .error ⟨modelName, [⟨[], "json_invalid"⟩]⟩

/-- A cached response as a record. -/
def toJson (r : CachedResponse) : Json :=
  .obj
    [("url", .str r.url), ("response_url", .str r.responseUrl), ("text", .str r.text),
     ("headers", .obj (r.headers.entries.map fun e => (e.1, .str e.2))),
     ("fetched_at", .str r.fetchedAt.toText)]

/-- A cached response as a document. -/
def toDocument (r : CachedResponse) : String := Json.write Json.compact r.toJson

end CachedResponse

end ModuleGraph.Fetch
