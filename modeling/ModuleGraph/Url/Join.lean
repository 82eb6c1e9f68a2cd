import ModuleGraph.Url.Split
/-!
# Resolving references

A reference is read as seen from a base URL. Only the schemes of `hierarchical` have relative
references; from a base of another scheme a reference stands for itself.
-/

namespace ModuleGraph.Url

/-- Schemes whose URLs have relative references. The empty scheme is among them. -/
def hierarchical : List String :=
  ["", "ftp", "http", "gopher", "nntp", "imap", "wais", "file", "https", "shttp", "mms",
   "prospero", "rtsp", "rtsps", "rtspu", "sftp", "svn", "svn+ssh", "ws", "wss"]

/-- Those of them in which a `;` in the last segment of a path begins parameters. -/
def parametric : List String :=
  ["", "ftp", "prospero", "http", "imap", "https", "shttp", "rtsp", "rtsps", "rtspu", "mms",
   "sftp"]

/-- A path and the parameters of its last segment. -/
def cutParameters (scheme path : List Char) : List Char × List Char :=
  if !parametric.contains (.ofList scheme) then (path, [])
  else match Text.cutAtLast '/' path with
    | some (before, last) =>
      match Text.cutAt ';' last with
      | some (a, b) => (before ++ '/' :: a, b)
      | none => (path, [])
    | none => cutTail ';' path

/-- The text of the parts of a hierarchical URL. The authority is written whenever there is a
scheme, and a path after an authority begins with a slash. -/
def unsplit (p : Parts) : List Char :=
  let path :=
    if !p.authority.isEmpty || !p.scheme.isEmpty || ['/', '/'].isPrefixOf p.path then
      let rooted := if !p.path.isEmpty && p.path.head? != some '/' then '/' :: p.path else p.path
      '/' :: '/' :: p.authority ++ rooted
    else p.path
  let url := if p.scheme.isEmpty then path else p.scheme ++ ':' :: path
  let url := if p.query.isEmpty then url else url ++ '?' :: p.query
  if p.fragment.isEmpty then url else url ++ '#' :: p.fragment

/-- Parameters behind a path. -/
def withParameters (path parameters : List Char) : List Char :=
  if parameters.isEmpty then path else path ++ ';' :: parameters

/-- The segments without the empty ones between the first and the last. -/
def dropInnerEmpty (segments : List (List Char)) : List (List Char) :=
  match segments with
  | [] => []
  | first :: r =>
    match r.getLast? with
    | none => [first]
    | some last => first :: (r.dropLast.filter fun s => !s.isEmpty) ++ [last]

/-- One segment of a path after those in `done`, whose last one comes first. A surplus `..` is
dropped. -/
def walkSegment (done : List (List Char)) (segment : List Char) : List (List Char) :=
  if segment = ['.', '.'] then done.tail
  else if segment = ['.'] then done
  else segment :: done

/-- The segments without `.` and `..`; where one of these stood last, an empty one takes its
place. -/
def removeDots (segments : List (List Char)) : List (List Char) :=
  let done := (segments.foldl walkSegment []).reverse
  match segments.getLast? with
  | some s => if s = ['.'] || s = ['.', '.'] then done ++ [[]] else done
  | none => done

/-- Segments with slashes between them. -/
def joinSegments : List (List Char) → List Char
  | [] => []
  | [s] => s
  | s :: r => s ++ '/' :: joinSegments r

/-- The segments of a reference's path as seen from the path of its base. -/
def mergedSegments (basePath path : List Char) : List (List Char) :=
  if path.head? = some '/' then Text.piecesAt '/' path
  else
    let base := Text.piecesAt '/' basePath
    let base := if base.getLast? = some [] then base else base.dropLast
    dropInnerEmpty (base ++ Text.piecesAt '/' path)

/-- The path of a reference as seen from the path of its base. -/
def mergedPath (basePath path : List Char) : List Char :=
  match joinSegments (removeDots (mergedSegments basePath path)) with
  | [] => ['/']
  | p => p

/-- The URL that `reference` names as seen from `base`, as lists of characters. -/
def joinChars (base reference : List Char) : Except Problem (List Char) :=
  if base.isEmpty then .ok reference
  else if reference.isEmpty then .ok base
  else do
    let b ← splitClean [] (clean base)
    let r ← splitClean b.scheme (clean reference)
    if r.scheme ≠ b.scheme || !hierarchical.contains (.ofList r.scheme) then return reference
    let (path, parameters) := cutParameters r.scheme r.path
    if !r.authority.isEmpty then
      return unsplit { r with path := withParameters path parameters }
    let (basePath, baseParameters) := cutParameters b.scheme b.path
    if path.isEmpty && parameters.isEmpty then
      return unsplit
        { r with
          authority := b.authority
          path := withParameters basePath baseParameters
          query := if r.query.isEmpty then b.query else r.query }
    return unsplit
      { r with
        authority := b.authority
        path := withParameters (mergedPath basePath path) parameters }

/-- The URL that `reference` names as seen from `base` (`urljoin`). -/
def join (base reference : String) : Except Problem String :=
  (joinChars base.toList reference.toList).map .ofList

end ModuleGraph.Url
