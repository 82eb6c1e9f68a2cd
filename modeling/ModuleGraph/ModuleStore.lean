import ModuleGraph.Table
import ModuleGraph.Fault
/-!
# The module store

The texts of loaded modules by virtual path. A path is reserved once, before its text is known,
and filled once with the final text; nothing is ever removed. Reserving never waits, so whoever
reserves a path is the only one to fill it.
-/

namespace ModuleGraph

/-- The texts of loaded modules: a path without a text is reserved but not yet filled
(`VirtualFileStore`). -/
structure ModuleStore where
  files : Table (Option String)
  deriving Inhabited

namespace ModuleStore

/-- Why the store refuses a text. -/
inductive Problem where
  | notReserved (path : String)
  | alreadyFilled (path : String)
  | alreadyReserved (path : String)
  deriving DecidableEq, Repr

/-- The refusal as an error seen from outside. A missing key is shown in quotes. -/
def Problem.toForeign : Problem → Foreign
  | .notReserved path => ⟨"KeyError", Text.quoted ("Path was not reserved: " ++ path)⟩
  | .alreadyFilled path => .invalidValue ("Path already filled: " ++ path)
  | .alreadyReserved path => .invalidValue ("Path already reserved: " ++ path)

/-- The store without paths. -/
def empty : ModuleStore := ⟨.empty⟩

/-- The path is reserved or filled. -/
def contains (s : ModuleStore) (path : String) : Bool := s.files.contains path

/-- The text of a path; a path that is only reserved has the empty text
(`VirtualFileStore.get`). -/
def get? (s : ModuleStore) (path : String) : Option String :=
  (s.files.get? path).map (·.getD "")

/-- The path has its final text (`VirtualFileStore.is_settled`). -/
def isSettled (s : ModuleStore) (path : String) : Bool :=
  match s.files.get? path with
  | some (some _) => true
  | _ => false

/-- The number of paths. -/
def size (s : ModuleStore) : Nat := s.files.size

/-- The paths in the order in which they were reserved. -/
def paths (s : ModuleStore) : List String := s.files.keys

/-- The paths with their texts (`VirtualFileStore.items`). -/
def items (s : ModuleStore) : List (String × String) :=
  s.files.entries.map fun e => (e.1, e.2.getD "")

/-- The paths that were reserved and never filled. -/
def unsettled (s : ModuleStore) : List String :=
  (s.files.entries.filter fun e => e.2.isNone).map (·.1)

/-- Claims a path; the answer is whether it was still free (`VirtualFileStore.reserve`). -/
def reserve (s : ModuleStore) (path : String) : Bool × ModuleStore :=
  if s.contains path then (false, s) else (true, ⟨s.files.insert path none⟩)

/-- Gives a reserved path its final text (`VirtualFileStore.fill`). -/
def fill (s : ModuleStore) (path text : String) : Except Problem ModuleStore :=
  match s.files.get? path with
  | none => .error (.notReserved path)
  | some (some _) => .error (.alreadyFilled path)
  | some none => .ok ⟨s.files.insert path (some text)⟩

/-- Reserves a path and fills it at once (`VirtualFileStore.add`). -/
def add (s : ModuleStore) (path text : String) : Except Problem ModuleStore :=
  match s.reserve path with
  | (false, _) => .error (.alreadyReserved path)
  | (true, s) => s.fill path text

end ModuleStore

end ModuleGraph
