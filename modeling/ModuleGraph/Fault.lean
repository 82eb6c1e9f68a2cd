import ModuleGraph.Text.Affix
import ModuleGraph.Text.Quoted
import ModuleGraph.Text.Utf8
import ModuleGraph.Url.Split
/-!
# Faults

What can go wrong between a specifier and a stored module, by cause. A fault has a kind, whose
name is part of messages, and a text of its own. `Fault.describe` puts a fault into a message: it
never yields an empty text, and it keeps the text of the fault.

Faults that arise outside the module graph (a file that cannot be read, a transport that breaks
down, bytes that are no text) are *foreign*: they are known by their kind and text alone. All
others are errors of `VfsHostError`, and each has the name of its class as its kind.
-/

namespace ModuleGraph

/-- An error that arises outside the module graph. -/
structure Foreign where
  kind : String
  text : String
  deriving DecidableEq, Repr, Inhabited

/-- Why a specifier could not be resolved or a module could not be loaded. -/
inductive Fault where
  /-- A URL whose scheme can neither be fetched nor mapped to a virtual path. -/
  | unsupported (url : String)
  /-- A specifier that could not be turned into a URL, and what is said about it if it is not
  the usual text. -/
  | unresolved (specifier source : String) (detail : Option String)
  /-- A bare specifier that no import map entry matches. -/
  | bare (specifier source : String)
  /-- A source that could not be read. -/
  | fetch (url reason : String)
  /-- A project configuration that could not be read. -/
  | config (path reason : String)
  /-- A library that no source has. -/
  | library (name reason : String)
  /-- A module that could not be fetched or transformed. -/
  | module (url : String) (cause : Fault)
  /-- A fault of the graph known by its text alone. -/
  | general (text : String)
  /-- An error from outside. -/
  | foreign (e : Foreign)
  deriving DecidableEq, Repr, Inhabited

namespace Foreign

/-- A text that is no URL. -/
def invalidValue (text : String) : Foreign := ⟨"ValueError", text⟩

/-- A URL whose authority is malformed. -/
def ofUrl (p : Url.Problem) : Foreign := invalidValue p.message

/-- Bytes that are no text. -/
def ofMalformed (m : Utf8.Malformed) : Foreign := ⟨"UnicodeDecodeError", m.message⟩

/-- Kinds of a request that took too long. -/
def requestTimeouts : List String :=
  ["TimeoutException", "ConnectTimeout", "ReadTimeout", "WriteTimeout", "PoolTimeout"]

/-- Kinds of a broken connection to a server. -/
def networkErrors : List String :=
  ["NetworkError", "ConnectError", "ReadError", "WriteError", "CloseError"]

end Foreign

/-- An error as a message takes it up: the name of its kind, its text, and the kinds that it is of,
its own and those above it. -/
structure Mention where
  kind : String
  text : String
  isOf : String → Bool

namespace Mention

/-- What is said of errors that have no text, by kind (`FRIENDLY_MESSAGES`). The first kind that
an error is of counts. -/
def friendlyTexts : List (String × String) :=
  [("TimeoutException", "Request timed out."),
   ("NetworkError", "Network error while contacting the server."),
   ("TimeoutError", "Request timed out."),
   ("CancelledError", "Operation was cancelled."),
   ("ConnectionResetError", "Connection was reset by the server."),
   ("UnicodeDecodeError", "Content is not valid UTF-8 text.")]

/-- What is known of the kinds that the error is of. -/
def friendly? (m : Mention) : Option String :=
  (friendlyTexts.find? fun entry => m.isOf entry.1).map Prod.snd

/-- What is said of an error: its text, with its kind in front if `withKind` asks for it and the
text does not name it; if it has no text, what is known of its kind. -/
def describe (withKind : Bool) (m : Mention) : String :=
  if m.text ≠ "" then
    if withKind && !Text.contains m.text m.kind then m.kind ++ ": " ++ m.text else m.text
  else
    match m.friendly? with
    | some said => m.kind ++ ": " ++ said
    | none => m.kind ++ ": (no additional details)"

/-- Errors of the first kind are errors of the second one. -/
def belongs (kind above : String) : Bool :=
  kind = above || (above = "TimeoutException" && Foreign.requestTimeouts.contains kind) ||
    (above = "NetworkError" && Foreign.networkErrors.contains kind)

/-- An error whose kind is known by its name. -/
def ofKind (kind text : String) : Mention := ⟨kind, text, belongs kind⟩

end Mention

namespace Fault

/-- The name of the fault's kind. -/
def kind : Fault → String
  | .unsupported _ => "ProtocolUnsupported"
  | .unresolved .. => "ResolutionFailure"
  | .bare .. => "BareSpecifierUnresolved"
  | .fetch .. => "FetchFailure"
  | .config .. => "ConfigLoadFailure"
  | .library .. => "LibraryLoadFailure"
  | .module .. => "ModuleLoadFailure"
  | .general _ => "VfsHostError"
  | .foreign e => e.kind

/-- The scheme that a URL seems to have: what stands before its first colon. -/
def apparentScheme (url : String) : String :=
  match Text.cutAt ':' url.toList with
  | some (s, _) => .ofList s
  | none => url

/-- The fault's own text. -/
def text : Fault → String
  | .unsupported url => "Fetching " ++ apparentScheme url ++ ": URL is not supported (" ++ url ++ ")"
  | .unresolved specifier source detail =>
    match detail with
    | some said => said
    | none => "Can't resolve " ++ Text.quoted specifier ++ " from " ++ source
  | .bare specifier source =>
    "Bare specifier " ++ Text.quoted specifier ++ " encountered in " ++ source
  | .fetch url reason => "Failed to fetch " ++ url ++ ": " ++ reason
  | .config path reason => "Failed to load " ++ path ++ ": " ++ reason
  | .library name reason => "Loading lib file " ++ Text.quoted name ++ " failed: " ++ reason
  | .module url cause =>
    "Loading file " ++ url ++ " failed: " ++ (Mention.ofKind cause.kind cause.text).describe true
  | .general said => said
  | .foreign e => e.text

/-- The fault as a message takes it up. -/
def mention (e : Fault) : Mention := .ofKind e.kind e.text

/-- The fault as part of a message, with its kind in front if `withKind` asks for it
(`format_error_message`). -/
def describe (withKind : Bool) (e : Fault) : String := e.mention.describe withKind

/-- The fault belongs to the module graph, so that the importer of a module survives it. -/
def isOwn : Fault → Bool
  | .foreign _ => false
  | _ => true

end Fault

end ModuleGraph
