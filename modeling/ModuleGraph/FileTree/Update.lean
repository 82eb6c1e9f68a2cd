import ModuleGraph.FileTree.Basic
/-!
# Changing a file tree

Writing, making and removing what stands in a file tree. What fails changes nothing.
-/

namespace ModuleGraph.FileTree

/-- The tree with `n` under the components; what stood there is replaced. -/
def set (t : FileTree) (components : List (List Char)) (n : FileNode) : FileTree :=
  if t.nodes.any (·.1 = components) then
    { t with nodes := t.nodes.map fun e => if e.1 = components then (components, n) else e }
  else { t with nodes := t.nodes ++ [(components, n)] }

/-- The tree without what stands under the components. -/
def erase (t : FileTree) (components : List (List Char)) : FileTree :=
  { t with nodes := t.nodes.filter (·.1 ≠ components) }

/-- Writes a file. -/
def write (t : FileTree) (path : String) (content : List UInt8) : Except Problem FileTree := do
  let components ← t.locate path
  if t.isDirectoryAt components then throw (.blocked .isDirectory path none)
  return t.set components (.file content)

/-- Writes to the end of a file, which is made if it is not there. -/
def extend (t : FileTree) (path : String) (content : List UInt8) : Except Problem FileTree :=
  t.write path ((t.bytes path).toOption.getD [] ++ content)

/-- Removes a file. A file that is not there needs no removal. -/
def remove (t : FileTree) (path : String) : Except Problem FileTree :=
  match t.node path with
  | .error (.blocked .missing _ _) => .ok t
  | .error p => .error p
  | .ok .directory => .error (.blocked .isDirectory path none)
  | .ok (.file _) => (t.locate path).map t.erase

/-- Puts a file in the place of another one. -/
def replace (t : FileTree) (path target : String) : Except Problem FileTree := do
  let source ← t.locate path
  let content ← t.bytes path
  let components ← t.locate target
  if t.isDirectoryAt components then throw (.blocked .isDirectory path (some target))
  return (t.erase source).set components (.file content)

/-- The directories above and at the components, from the root on. -/
def ancestry (components : List (List Char)) : List (List (List Char)) :=
  (List.range components.length).map fun n => components.take (n + 1)

/-- Makes a directory with all directories above it, unless they are there. -/
def makeDirectory (t : FileTree) (path : String) : Except Problem FileTree :=
  match FilePath.components path.toList with
  | [] => .ok t
  | asked =>
    let components := if (FilePath.root path.toList).isEmpty then t.start ++ asked else asked
    let files := (ancestry components).filter t.isFileAt
    match files with
    | f :: _ =>
      .error (.blocked (if f = components then .occupied else .notDirectory) path none)
    | [] =>
      .ok ((ancestry components).foldl
        (fun t c => if t.isDirectoryAt c then t else t.set c .directory) t)

end ModuleGraph.FileTree
