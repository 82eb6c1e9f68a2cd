import ModuleGraph.Fault
import ModuleGraph.Text.Shown
/-!
# Errors from their kind and values

An error is raised with a kind and a list of values. The kinds of the module graph take their
own fields; a foreign error gets its text from its values: none gives the empty text, one gives
the text of that value, several give their list in parentheses. System errors with a number name
that number, the text and the file.
-/

namespace ModuleGraph

/-- A value that an error is raised with. -/
inductive Raised where
  | value (v : Json)
  | fault (e : Fault)
  deriving Inhabited

namespace Raised

/-- A value as a text of its own. -/
def plain : Raised → String
  | value v => Text.plain v
  | fault e => e.text

/-- A value inside a list of values. -/
def shown : Raised → String
  | value v => Text.shown v
  | fault e => e.kind ++ "(" ++ (if e.text = "" then "" else Text.quoted e.text) ++ ")"

/-- The text of an error that is raised with these values. -/
def text : List Raised → String
  | [] => ""
  | [v] => v.plain
  | vs => "(" ++ ", ".intercalate (vs.map shown) ++ ")"

/-- The kind of a system error with this number. -/
def systemKind? (number : Int) : Option String :=
  match number with
  | 1 | 13 => some "PermissionError"
  | 2 => some "FileNotFoundError"
  | 3 => some "ProcessLookupError"
  | 4 => some "InterruptedError"
  | 10 => some "ChildProcessError"
  | 11 | 114 | 115 => some "BlockingIOError"
  | 17 => some "FileExistsError"
  | 20 => some "NotADirectoryError"
  | 21 => some "IsADirectoryError"
  | 32 | 108 => some "BrokenPipeError"
  | 103 => some "ConnectionAbortedError"
  | 104 => some "ConnectionResetError"
  | 110 => some "TimeoutError"
  | 111 => some "ConnectionRefusedError"
  | _ => none

/-- The kinds of system errors. -/
def systemKinds : List String :=
  ["OSError", "PermissionError", "FileNotFoundError", "ProcessLookupError", "InterruptedError",
   "ChildProcessError", "BlockingIOError", "FileExistsError", "NotADirectoryError",
   "IsADirectoryError", "BrokenPipeError", "ConnectionError", "ConnectionAbortedError",
   "ConnectionResetError", "ConnectionRefusedError", "TimeoutError"]

/-- The text of a system error: its number, what is said of it, and the file. -/
def systemText (number said : Raised) (file : Option Raised) : String :=
  "[Errno " ++ number.plain ++ "] " ++ said.plain ++
    match file with
    | some f => ": " ++ f.shown
    | none => ""

/-- The names by which system errors are also known. -/
def canonicalKind (kind : String) : String :=
  if kind = "IOError" || kind = "EnvironmentError" then "OSError"
  else if kind = "socket.timeout" then "TimeoutError"
  else kind

/-- The foreign error of this kind that is raised with these values. -/
def foreign (kind : String) (values : List Raised) : Foreign :=
  let kind := canonicalKind kind
  if systemKinds.contains kind then
    match values with
    | number :: said :: r =>
      let specific := match kind, number with
        | "OSError", .value (.int n) => (systemKind? n).getD kind
        | _, _ => kind
      let file := match r with
        | .value .null :: _ | [] => none
        | f :: _ => some f
      if values.length ≤ 5 then ⟨specific, systemText number said file⟩
      else ⟨kind, text values⟩
    | _ => ⟨kind, text values⟩
  else if kind = "KeyError" then
    match values with
    | [v] => ⟨kind, v.shown⟩
    | _ => ⟨kind, text values⟩
  else ⟨kind, text values⟩

/-- The error of this kind that is raised with these values. -/
def toFault (kind : String) (values : List Raised) : Fault :=
  match kind, values with
  | "VfsHostError", vs => .general (text vs)
  | "ProtocolUnsupported", [u] => .unsupported u.plain
  | "ResolutionFailure", [s, u] => .unresolved s.plain u.plain none
  | "ResolutionFailure", [s, u, .value .null] => .unresolved s.plain u.plain none
  | "ResolutionFailure", [s, u, m] =>
    .unresolved s.plain u.plain (if m.plain = "" then none else some m.plain)
  | "BareSpecifierUnresolved", [s, u] => .bare s.plain u.plain
  | "FetchFailure", [u, r] => .fetch u.plain r.plain
  | "ConfigLoadFailure", [p, r] => .config p.plain r.plain
  | "LibraryLoadFailure", [n, r] => .library n.plain r.plain
  | "ModuleLoadFailure", [u, .fault e] => .module u.plain e
  | _, vs => .foreign (foreign kind vs)

end Raised

end ModuleGraph
