import ModuleGraph.Url.Join
import ModuleGraph.Url.Percent
import ModuleGraph.Url.HostName
/-!
# Request URLs

A URL as it is requested over the network: scheme and host in lower case, no default port, no dot
segments, and an escape for every character that its part does not allow. An escape that is there
already is kept.
-/

namespace ModuleGraph.Fetch

/-- The parts of a request URL. -/
structure RequestUrl where
  scheme : List Char
  userinfo : List Char
  host : List Char
  port : Option Nat
  path : List Char
  query : Option (List Char)
  fragment : Option (List Char)
  deriving DecidableEq, Repr, Inhabited

namespace RequestUrl

/-- Why a URL cannot be requested. -/
inductive Problem where
  | tooLong
  | controlCharacter (c : Char) (position : Nat)
  | address4 (host : String)
  | address6 (host : String)
  | hostName (host : String)
  | port (text : String)
  | pathAfterAuthority
  | doubleSlash
  | colon
  | malformed (p : Url.Problem)
  deriving DecidableEq, Repr

/-- What is said about a URL that cannot be requested. -/
def Problem.message : Problem → String
  | .tooLong => "URL too long"
  | .controlCharacter c position =>
    "Invalid non-printable ASCII character in URL, " ++ Text.quoted (String.ofList [c]) ++
      " at position " ++ toString position ++ "."
  | .address4 host => "Invalid IPv4 address: " ++ Text.quoted host
  | .address6 host => "Invalid IPv6 address: " ++ Text.quoted host
  | .hostName host => "Invalid IDNA hostname: " ++ Text.quoted host
  | .port text => "Invalid port: " ++ Text.quoted text
  | .pathAfterAuthority => "For absolute URLs, path must be empty or begin with '/'"
  | .doubleSlash => "Relative URLs cannot have a path starting with '//'"
  | .colon => "Relative URLs cannot have a path starting with ':'"
  | .malformed p => p.message

/-- Characters that a path, a query, a fragment, the user and a host do not hold as they are. -/
def barredInQuery : List Char := [' ', '"', '#', '<', '>']

/-- The characters barred in a path. -/
def barredInPath : List Char := barredInQuery ++ ['?', '\x60', '\x7b', '\x7d']

/-- The characters barred in a fragment. -/
def barredInFragment : List Char := [' ', '"', '<', '>', '\x60']

/-- The characters barred in a user's name and password. The colon between the two is kept. -/
def barredInUser : List Char :=
  barredInPath ++ ['/', ';', '=', '@', '[', '\\', ']', '^', '|']

/-- The characters barred in a host. -/
def barredInHost : List Char := [' ', '#', '/', ':', '<', '>', '?', '@', '[', ']', '^']

/-- The escape of a character. -/
def escapeChar (c : Char) : List Char :=
  (String.utf8EncodeChar c).flatMap fun b =>
    ['%', Hex.upperDigit (b.toNat / 16), Hex.upperDigit (b.toNat % 16)]

/-- The text with an escape for every barred character and every one that is not printable ASCII;
the percent sign of an escape is kept. -/
def escape (barred : List Char) : List Char → List Char
  | [] => []
  | c :: r =>
    if 0x20 ≤ c.toNat && c.toNat < 0x7F && !barred.contains c then c :: escape barred r
    else escapeChar c ++ escape barred r

/-- One segment of a path after those in `done`, whose last one comes first. -/
def walkSegment (done : List (List Char)) (segment : List Char) : List (List Char) :=
  if segment = ['.'] then done
  else if segment = ['.', '.'] then
    if done = [[]] then done else done.tail
  else segment :: done

/-- The path without dot segments. -/
def withoutDots (path : List Char) : List Char :=
  Url.joinSegments ((Text.piecesAt '/' path).foldl walkSegment []).reverse

/-- The port that a scheme has if none is named. -/
def defaultPort? (scheme : List Char) : Option Nat :=
  match String.ofList scheme with
  | "ftp" => some 21
  | "http" | "ws" => some 80
  | "https" | "wss" => some 443
  | _ => none

/-- The port that a text names; none for the default one. -/
def readPort (scheme text : List Char) : Except Problem (Option Nat) :=
  if text.isEmpty then .ok none
  else if text.all Char.isDigit then
    let n := text.foldl (fun n c => n * 10 + (c.toNat - 48)) 0
    .ok (if defaultPort? scheme = some n then none else some n)
  else .error (.port (.ofList text))

/-- Four runs of digits with one character between each two of them, which may be a digit as well:
a run of `n` digits holds up to `(n - 1) / 2` such characters. -/
def looksLikeVersion4 (host : List Char) : Bool :=
  let runs := host.splitOnP fun c => !c.isDigit
  runs.length ≤ 4 && runs.all (fun run => !run.isEmpty) &&
    4 ≤ runs.foldl (fun n run => n + (run.length - 1) / 2) runs.length

/-- A host as it is requested. -/
def readHost (host : List Char) : Except Problem (List Char) :=
  if looksLikeVersion4 host then
    if Url.isVersion4 host then .ok host else .error (.address4 (.ofList host))
  else if host.head? = some '[' && host.getLast? = some ']' then
    let inside := (host.drop 1).dropLast
    if Url.isVersion6 inside then .ok inside else .error (.address6 (.ofList host))
  else if host.all fun c => c.toNat < 0x80 then .ok (escape barredInHost (host.map Char.toLower))
  else match Url.HostName.encode? (Text.lower (.ofList host)).toList with
    | some name => .ok name
    | none => .error (.hostName (.ofList host))

/-- The user, the host and the port of an authority. -/
def cutAuthority (authority : List Char) : List Char × List Char × List Char :=
  let (user, r) := match Text.cutAtLast '@' authority with
    | some p => p
    | none => ([], authority)
  let bracketed := match r with
    | '[' :: _ => (Text.cutAtLast ']' r).map fun (a, b) => (a ++ [']'], b)
    | _ => none
  let (host, r) := match bracketed with
    | some p => p
    | none => (r.takeWhile fun c => c ≠ ':' && c ≠ '@', r.dropWhile fun c => c ≠ ':' && c ≠ '@')
  (user, host, if r.head? = some ':' then r.drop 1 else r)

/-- The longest URL that is requested, in characters. -/
def lengthLimit : Nat := 65536

/-- The first control character of a text, and its position. -/
def control? (position : Nat) : List Char → Option (Char × Nat)
  | [] => none
  | c :: r => if c.toNat < 0x20 || c.toNat = 0x7F then some (c, position) else control? (position + 1) r

/-- The request URL of its unread parts. -/
def ofParts (scheme authority path : List Char) (query fragment : Option (List Char)) :
    Except Problem RequestUrl := do
  let (user, host, port) := cutAuthority authority
  let host ← readHost host
  let port ← readPort scheme port
  let hasAuthority := !user.isEmpty || !host.isEmpty || port.isSome
  if hasAuthority && !path.isEmpty && path.head? ≠ some '/' then throw .pathAfterAuthority
  if scheme.isEmpty && !hasAuthority then
    if ['/', '/'].isPrefixOf path then throw .doubleSlash
    if path.head? = some ':' then throw .colon
  let path := if !scheme.isEmpty || hasAuthority then withoutDots path else path
  return {
    scheme := scheme.map Char.toLower
    userinfo := escape barredInUser user
    host := host
    port := port
    path := escape barredInPath path
    query := query.map (escape barredInQuery)
    fragment := fragment.map (escape barredInFragment) }

/-- What stands before and after the first `c`; nothing after it if there is none. -/
def cutTail (c : Char) (cs : List Char) : List Char × Option (List Char) :=
  match Text.cutAt c cs with
  | some (a, b) => (a, some b)
  | none => (cs, none)

/-- The request URL that a text states. -/
def parse (url : String) : Except Problem RequestUrl := do
  let cs := url.toList
  if lengthLimit < cs.length then throw .tooLong
  match control? 0 cs with
  | some (c, position) => throw (.controlCharacter c position)
  | none =>
    let (r, fragment) := cutTail '#' cs
    let (r, query) := cutTail '?' r
    let (scheme, r) := match Text.cutAt ':' r with
      | some (s, rest) => if Url.isScheme s then (s, rest) else ([], r)
      | none => ([], r)
    let (authority, path) := match r with
      | '/' :: '/' :: rest => (rest.takeWhile (· ≠ '/'), rest.dropWhile (· ≠ '/'))
      | path => ([], path)
    ofParts scheme authority path query fragment

/-- The authority of a request URL. -/
def authority (u : RequestUrl) : List Char :=
  (if u.userinfo.isEmpty then [] else u.userinfo ++ ['@']) ++
    (if u.host.contains ':' then '[' :: u.host ++ [']'] else u.host) ++
    match u.port with
    | some n => ':' :: (toString n).toList
    | none => []

/-- The text of a request URL. -/
def toText (u : RequestUrl) : String :=
  let tail := fun (mark : Char) (part : Option (List Char)) => match part with
    | some cs => mark :: cs
    | none => []
  .ofList ((if u.scheme.isEmpty then [] else u.scheme ++ [':']) ++
    (if u.authority.isEmpty then [] else '/' :: '/' :: u.authority) ++ u.path ++
    tail '?' u.query ++ tail '#' u.fragment)

/-- The URL has a scheme and a host. -/
def isAbsolute (u : RequestUrl) : Bool := !u.scheme.isEmpty && !u.host.isEmpty

/-- The URL with a slash for an empty path, and without scheme and authority unless it has both. -/
def rooted (u : RequestUrl) : RequestUrl :=
  if u.isAbsolute then if u.path.isEmpty then { u with path := ['/'] } else u
  else
    { u with
      scheme := []
      userinfo := []
      host := []
      port := none
      path := '/' :: u.path.dropWhile (· = '/')
      fragment := none }

/-- The URL that a redirection from `u` leads to. A location without a fragment keeps that of the
request. -/
def redirected (u : RequestUrl) (location : RequestUrl) : Except Problem RequestUrl := do
  let target ←
    if !location.scheme.isEmpty && location.host.isEmpty then
      ofParts location.scheme u.host location.path location.query location.fragment
    else .ok location
  let target ←
    if target.isAbsolute then .ok target
    else do
      let joined ← (Url.join u.toText target.toText).mapError .malformed
      parse joined
  let inherits := !(u.fragment.getD []).isEmpty && (target.fragment.getD []).isEmpty
  return (if inherits then { target with fragment := u.fragment } else target).rooted

end RequestUrl

end ModuleGraph.Fetch
