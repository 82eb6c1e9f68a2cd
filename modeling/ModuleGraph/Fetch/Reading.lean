import ModuleGraph.Fetch.Charset
import ModuleGraph.Fetch.Entry
import ModuleGraph.Fetch.Reply
/-!
# Reading what comes from outside

Two things that fetching needs are done by others: the client of the network makes a text of the
body of a response, and the checker of records makes a response of a document in the cache. Either
may fail. Fetching takes both as they are given, and what is proved about it holds whatever they do;
where a law needs that a kept response is read as it was written, the law says so.
-/

namespace ModuleGraph.Fetch

/-- How bodies and kept documents are read. -/
structure Reading where
  /-- The text of a body that came with these headers, or the error that reading it ends with. -/
  body : (headers : List (String × String)) → (bytes : List UInt8) → Except Foreign String
  /-- The response that a document states, or why it states none. -/
  entry : String → Except Schema.Invalid CachedResponse

namespace Reading

/-- The text of a body in the character set that its headers name. An empty body has the empty text
in every set. -/
def bodyText (headers : List (String × String)) (bytes : List UInt8) : Except Foreign String :=
  if bytes.isEmpty then .ok ""
  else
    let charset := (header? headers "content-type").bind Charset.ofMediaType?
    (charset.getD .utf8).decode bytes

/-- How the command reads. Sets other than those of `Charset` count as UTF-8, and a document may be
nested as deep as it likes, so this is one reading among others. -/
def usual : Reading := ⟨bodyText, CachedResponse.ofDocument⟩

end Reading

end ModuleGraph.Fetch
