import ModuleGraph.Fetch.Cache
import ModuleGraph.VirtualPath
/-!
# Fetching modules

The text of a module by its URL. A `file:` URL is read from the files. An `https:` URL is requested
through the cache; if its response names a file with types, that file is fetched in its place. URLs
of the package registries are rewritten to the network first. No other scheme can be fetched.
-/

namespace ModuleGraph.Fetch

/-- The text of a module and the URL that it effectively came from (`FetchResult`). -/
structure Source where
  text : String
  url : String
  headers : Table String
  deriving Inhabited

/-- A response that is no redirection, with the URL that it came from. -/
structure Landing where
  url : RequestUrl
  status : Nat
  headers : List (String × String)
  body : List UInt8
  deriving Inhabited

/-- The header that names a file with types (`TYPES_HEADER`). -/
def typesHeader : String := "x-typescript-types"

/-- How many redirections a request may have. -/
def redirectionLimit : Nat := 20

/-- A URL that cannot be requested as an error seen from outside. -/
def RequestUrl.Problem.toForeign : RequestUrl.Problem → Foreign
  | .malformed p => .ofUrl p
  | p => ⟨"InvalidURL", p.message⟩

/-- The error of a request with too many redirections. -/
def tooManyRedirects : Foreign := ⟨"TooManyRedirects", "Exceeded maximum allowed redirects."⟩

/-- The error of a location that is no URL. -/
def badLocation (p : RequestUrl.Problem) : Foreign :=
  ⟨"RemoteProtocolError", "Invalid URL in location header: " ++ p.message ++ "."⟩

/-- Where a reply to `url` leads on to, if it does. -/
def nextUrl? (url : RequestUrl) (status : Nat) (headers : List (String × String)) :
    Except Foreign (Option RequestUrl) :=
  match redirections.contains status, header? headers "location" with
  | true, some text =>
    match RequestUrl.parse text with
    | .error p => .error (badLocation p)
    | .ok location => (url.redirected location).map some |>.mapError RequestUrl.Problem.toForeign
  | _, _ => .ok none

/-- Requests a URL and follows at most `hops` redirections. -/
def follow : (hops : Nat) → RequestUrl → StateM World (Except Foreign Landing)
  | hops, url => do
    let reply ← modifyGet fun w => w.ask url.toText
    match reply with
    | .breakdown e => return .error e
    | .response status given body =>
      let headers := responseHeaders given body
      match nextUrl? url status headers with
      | .error e => return .error e
      | .ok none => return .ok ⟨url, status, headers, body⟩
      | .ok (some next) =>
        match hops with
        | 0 => return .error tooManyRedirects
        | hops + 1 => follow hops next

/-- A text that tells of an error of the transport or the protocol makes a fetch fault; any other
error stays what it is. -/
def transportFault (url : String) (e : Foreign) : Fault :=
  if transportErrors.contains e.kind then .fetch url ((Fault.foreign e).describe true)
  else .foreign e

/-- A successful response is of a status from 200 to 299. -/
def isSuccess (status : Nat) : Bool := 200 ≤ status && status < 300

/-- Requests a URL: a successful response, as it is kept (the second half of
`ContentFetcher.cached_get`). An error that reading the body ends with stays what it is. -/
def request (d : Reading) (url : String) : Action CachedResponse := do
  modify (·.tell .debug ("Fetching " ++ url))
  match RequestUrl.parse url with
  | .error p => throw (transportFault url p.toForeign)
  | .ok target =>
    match ← follow redirectionLimit target.rooted with
    | .error e => throw (transportFault url e)
    | .ok landing =>
      if isSuccess landing.status then
        let text ← (d.body landing.headers landing.body).mapError Fault.foreign
        return {
          url := url
          responseUrl := landing.url.toText
          text := text
          headers := .ofList landing.headers
          fetchedAt := ⟨(← get).now, 0⟩ }
      else throw (.fetch url (toString landing.status ++ " " ++ reasonPhrase landing.status))

/-- The response of a URL: the cached one if it is fresh, otherwise a new one, which is kept
(`ContentFetcher.cached_get`). -/
def cachedGet (c : Cache) (url : String) : Action CachedResponse := do
  match ← c.find url with
  | some r => return r
  | none =>
    let r ← request c.reading url
    c.keep r
    return r

/-- A malformed URL as a fault. -/
def urlFault (p : Url.Problem) : Fault := .foreign (.ofUrl p)

/-- The URL that a module with types counts as. -/
def typesUrl (url : String) : String :=
  if Text.endsWith url declarationSuffix then url else url ++ declarationSuffix

/-- The URL that a module without types counts as: one without the extension of a script is taken
for a script. -/
def scriptUrl (url : String) : Except Url.Problem String :=
  (Url.split url).map fun p =>
    if hasScriptExtension (.ofList p.path) then url else url ++ guessedSuffix

/-- Fetches a module over the network, or the file with its types
(`ContentFetcher._fetch_remote`). -/
def fetchRemote (c : Cache) (url : String) : Action Source := do
  let r ← cachedGet c url
  match r.headers.get? typesHeader with
  | some types =>
    let target ← (Url.join r.responseUrl types).mapError urlFault
    let t ← cachedGet c target
    return ⟨t.text, typesUrl t.responseUrl, t.headers⟩
  | none =>
    let counted ← (scriptUrl r.responseUrl).mapError urlFault
    return ⟨r.text, counted, r.headers⟩

/-- What is said about a file that cannot be read. A path that names nothing is no fault of the
file. -/
def fileFault (url : String) (p : FileTree.Problem) : Fault :=
  match p with
  | .noPath => .foreign p.toForeign
  | p => .fetch url ((Fault.foreign p.toForeign).describe true)

/-- Reads a module from the files (`ContentFetcher._read_local`). -/
def fetchLocal (url : String) : Action Source := do
  let path ← (FilePath.ofUrl url).mapError urlFault
  let text ← ((← get).files.text path).mapError (fileFault url)
  return ⟨text, url, .empty⟩

/-- The ways in which a URL is fetched. -/
inductive Protocol where
  | local
  | remote (url : String)
  deriving DecidableEq, Repr

/-- The way in which a URL is fetched, by its scheme. -/
def protocol (url : String) : Except Fault Protocol := do
  let network ← (registryToNetworkUrl url).mapError urlFault
  let scheme ← (Url.scheme network).mapError urlFault
  if scheme = "file" then return .local
  if scheme = "https" then return .remote network
  throw (.unsupported url)

/-- Fetches a module (`ContentFetcher.fetch`). -/
def fetch (c : Cache) (url : String) : Action Source := do
  match ← (protocol url : Except Fault Protocol) with
  | .local => fetchLocal url
  | .remote network => fetchRemote c network

end ModuleGraph.Fetch
