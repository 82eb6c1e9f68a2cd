import ModuleGraph.Digest
import ModuleGraph.Fetch.Reading
import ModuleGraph.Fetch.World
import ModuleGraph.FileTree.Glob
import ModuleGraph.SizeLabel
/-!
# The response cache

One file for each URL, named by a digest of the URL, in a directory of their own. An entry that is
older than the time to live is dropped when it is read, and so is one that cannot be decoded. What
cannot be kept is told and passed over.
-/

namespace ModuleGraph.Fetch

/-- Where and how long responses are kept, and how they are read (`FetchCache`). -/
structure Cache where
  directory : String
  /-- How old an entry may be, in microseconds. -/
  timeToLive : Int
  /-- The name of a URL's entry, without its ending. -/
  entryName : String → String
  reading : Reading

namespace Cache

/-- A day, after which responses are fetched again (`FRESHNESS_WINDOW`). -/
def freshnessWindow : Int := 24 * 3600 * second

/-- The cache in a directory. -/
def inDirectory (directory : String) (reading : Reading := .usual) : Cache :=
  ⟨directory, freshnessWindow, Digest.ofText, reading⟩

/-- The file name of a URL's entry. -/
def fileName (c : Cache) (url : String) : String := c.entryName url ++ ".json"

/-- The path of a URL's entry (`FetchCache._entry_path`). -/
def entryPath (c : Cache) (url : String) : String := FilePath.append c.directory (c.fileName url)

/-- The path under which an entry is written before it takes its place. -/
def draftPath (c : Cache) (url : String) : String :=
  FilePath.append c.directory (c.entryName url ++ ".tmp")

/-- The entry in a file, or what keeps it from being read. -/
def readEntry (c : Cache) (files : FileTree) (path : String) : Except Foreign CachedResponse := do
  let document ← (files.text path).mapError FileTree.Problem.toForeign
  (c.reading.entry document).mapError Schema.Invalid.toForeign

/-- The age of an entry. -/
def age (now : Int) (r : CachedResponse) : Int := now - r.fetchedAt.micros

/-- Microseconds as whole seconds, halves to the even neighbour; a time before zero keeps its
sign. -/
def secondsText (micros : Int) : String :=
  (if micros < 0 then "-" else "") ++ toString (roundQuotient micros.natAbs 1000000)

/-- Removes an entry that is of no use. -/
def discard (path : String) : Action Unit := do
  let w ← get
  match w.files.remove path with
  | .ok files => set { w with files := files }
  | .error p => throw (.foreign p.toForeign)

/-- The fresh entry of a URL, if there is one (`FetchCache.get`). -/
def find (c : Cache) (url : String) : Action (Option CachedResponse) := do
  let path := c.entryPath url
  let w ← get
  if !w.files.contains path then return none
  match c.readEntry w.files path with
  | .error e =>
    set (w.tell .warning ("Cache entry for " ++ url ++ " corrupted, will fetch fresh data: " ++
      (Fault.foreign e).describe true))
    discard path
    return none
  | .ok r =>
    if c.timeToLive < age w.now r then
      set (w.tell .debug ("Cache expired for " ++ url ++ " (age: " ++ secondsText (age w.now r) ++
        "s)"))
      discard path
      return none
    else return some r

/-- The file trees that keeping an entry passes through, up to the one that holds it, and the
obstacle that ended the way before. -/
def write (c : Cache) (files : FileTree) (r : CachedResponse) :
    FileTree × Option FileTree.Problem :=
  match files.makeDirectory c.directory with
  | .error p => (files, some p)
  | .ok made =>
    match made.write (c.draftPath r.url) (Utf8.encode r.toDocument) with
    | .error p => (made, some p)
    | .ok drafted =>
      match drafted.replace (c.draftPath r.url) (c.entryPath r.url) with
      | .error p => (drafted, some p)
      | .ok files => (files, none)

/-- Keeps a response (`FetchCache.put`). -/
def keep (c : Cache) (r : CachedResponse) : Action Unit := do
  let w ← get
  let (files, obstacle) := c.write w.files r
  let w := { w with files := files }
  match obstacle with
  | none => set w
  | some p =>
    set (w.tell .warning ("Failed to save cache entry for " ++ r.url ++ ": " ++
      (Fault.foreign p.toForeign).describe true))

/-- The pattern of the entries' names. -/
def entryPattern : String := "*.json"

/-- The paths of all entries. -/
def entries (c : Cache) (files : FileTree) : List String :=
  if files.isDirectory c.directory then
    match files.locate c.directory with
    | .ok place => match files.glob place entryPattern with
      | .ok found => found.map fun f => String.ofList ('/' :: FilePath.joinComponents f.place)
      | .error _ => []
    | .error _ => []
  else []

/-- Removes every entry; the answer is their number (`FetchCache.clear`). -/
def clear (c : Cache) : Action Nat := do
  let paths := c.entries (← get).files
  paths.forM discard
  return paths.length

end Cache

end ModuleGraph.Fetch
