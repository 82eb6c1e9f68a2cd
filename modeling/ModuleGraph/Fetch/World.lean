import ModuleGraph.Event.Log
import ModuleGraph.FileTree.Update
import ModuleGraph.Fetch.Reply
/-!
# The world of a fetch

What fetching reads and changes: the files, the network, the clock, and what was asked of the
network and written to the log. An action on it yields a value or a fault, and the world as it
left it in either case.
-/

namespace ModuleGraph.Fetch

/-- What fetching reads and changes. -/
structure World where
  files : FileTree
  /-- The replies of the network by request URL. -/
  routes : List (String × Reply)
  /-- The reply to every other request. -/
  elsewhere : Reply := .response 404 [] []
  /-- Microseconds since the beginning of 1970. -/
  now : Int
  /-- The URLs that were requested, in their order. -/
  requests : List String
  /-- What was written to the log. -/
  log : List LogRecord
  deriving Inhabited

/-- A step in the world, with a value or a fault. -/
abbrev Action (α : Type) := ExceptT Fault (StateM World) α

/-- The logger of what is told about fetching. -/
def logger : String := "vfs_host.fetcher"

namespace World

/-- The world with one more line in the log. -/
def tell (w : World) (level : Level) (message : String) : World :=
  { w with log := w.log ++ [⟨logger, level, message⟩] }

/-- The reply of the network to a request, which is noted. -/
def ask (w : World) (url : String) : Reply × World :=
  ((w.routes.lookup url).getD w.elsewhere, { w with requests := w.requests ++ [url] })

/-- The world in which the network gives another reply to a URL. -/
def withRoute (w : World) (url : String) (reply : Reply) : World :=
  { w with routes := (url, reply) :: w.routes.filter (·.1 ≠ url) }

end World

end ModuleGraph.Fetch
