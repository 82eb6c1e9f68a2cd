import ModuleGraph.Fault
import ModuleGraph.Fetch.RequestUrl
/-!
# Replies

What the network answers to a request: a status with headers and a body, or a breakdown of the
transport. A reply may lead on to another URL.
-/

namespace ModuleGraph.Fetch

/-- What the network answers to a request. -/
inductive Reply where
  | response (status : Nat) (headers : List (String × String)) (body : List UInt8)
  | breakdown (e : Foreign)
  deriving DecidableEq, Repr, Inhabited

/-- The phrases of the statuses. -/
def reasonPhrases : List (Nat × String) :=
  [(100, "Continue"), (101, "Switching Protocols"), (102, "Processing"), (103, "Early Hints"),
   (200, "OK"), (201, "Created"), (202, "Accepted"), (203, "Non-Authoritative Information"),
   (204, "No Content"), (205, "Reset Content"), (206, "Partial Content"), (207, "Multi-Status"),
   (208, "Already Reported"), (226, "IM Used"), (300, "Multiple Choices"),
   (301, "Moved Permanently"), (302, "Found"), (303, "See Other"), (304, "Not Modified"),
   (305, "Use Proxy"), (307, "Temporary Redirect"), (308, "Permanent Redirect"),
   (400, "Bad Request"), (401, "Unauthorized"), (402, "Payment Required"), (403, "Forbidden"),
   (404, "Not Found"), (405, "Method Not Allowed"), (406, "Not Acceptable"),
   (407, "Proxy Authentication Required"), (408, "Request Timeout"), (409, "Conflict"),
   (410, "Gone"), (411, "Length Required"), (412, "Precondition Failed"),
   (413, "Request Entity Too Large"), (414, "Request-URI Too Long"),
   (415, "Unsupported Media Type"), (416, "Requested Range Not Satisfiable"),
   (417, "Expectation Failed"), (418, "I'm a teapot"), (421, "Misdirected Request"),
   (422, "Unprocessable Entity"), (423, "Locked"), (424, "Failed Dependency"), (425, "Too Early"),
   (426, "Upgrade Required"), (428, "Precondition Required"), (429, "Too Many Requests"),
   (431, "Request Header Fields Too Large"), (451, "Unavailable For Legal Reasons"),
   (500, "Internal Server Error"), (501, "Not Implemented"), (502, "Bad Gateway"),
   (503, "Service Unavailable"), (504, "Gateway Timeout"), (505, "HTTP Version Not Supported"),
   (506, "Variant Also Negotiates"), (507, "Insufficient Storage"), (508, "Loop Detected"),
   (510, "Not Extended"), (511, "Network Authentication Required")]

/-- The phrase of a status, empty for one that is not known. -/
def reasonPhrase (status : Nat) : String := (reasonPhrases.lookup status).getD ""

/-- The statuses that lead on to a location. -/
def redirections : List Nat := [301, 302, 303, 307, 308]

/-- Kinds of errors that are faults of the transport or of the protocol. -/
def transportErrors : List String :=
  Foreign.requestTimeouts ++ Foreign.networkErrors ++
    ["HTTPError", "RequestError", "TransportError", "ProtocolError", "LocalProtocolError",
     "RemoteProtocolError", "ProxyError", "UnsupportedProtocol", "DecodingError",
     "TooManyRedirects"]

/-- The value of a header among headers with lower-case names. -/
def header? (headers : List (String × String)) (name : String) : Option String :=
  headers.lookup name

/-- Headers with lower-case names; the values of a repeated one are joined. -/
def mergeHeaders (headers : List (String × String)) : List (String × String) :=
  headers.foldl
    (fun merged h =>
      let name := String.ofList (h.1.toList.map Char.toLower)
      if merged.any (·.1 = name) then
        merged.map fun m => if m.1 = name then (name, m.2 ++ ", " ++ h.2) else m
      else merged ++ [(name, h.2)]) []

/-- The headers of a response, with the length of a body that is not empty. -/
def responseHeaders (headers : List (String × String)) (body : List UInt8) :
    List (String × String) :=
  let merged := mergeHeaders headers
  if body.isEmpty || merged.any (·.1 = "content-length") then merged
  else merged ++ [("content-length", toString body.length)]

end ModuleGraph.Fetch
