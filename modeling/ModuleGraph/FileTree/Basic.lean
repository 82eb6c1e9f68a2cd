import ModuleGraph.FilePath
/-!
# File trees

The files that modules, configurations and cached responses are read from. A tree holds files and
directories by their components from the root, which is itself a directory. A path is followed
component by component: every component but the last has to lead through a directory, and `..`
leads to the directory above.

An operation that fails says what stood in its way and which path it was asked for.
-/

namespace ModuleGraph

/-- What stands under a name. -/
inductive FileNode where
  | file (content : List UInt8)
  | directory
  deriving DecidableEq, Repr, Inhabited

/-- Files and directories by their components from the root. Relative paths are followed from the
directory `start`. -/
structure FileTree where
  nodes : List (List (List Char) × FileNode)
  start : List (List Char)
  deriving Inhabited

namespace FileTree

/-- What stands in the way of an operation. -/
inductive Obstacle where
  | missing
  | occupied
  | notDirectory
  | isDirectory
  | nameTooLong
  deriving DecidableEq, Repr

/-- The number and the wording of an obstacle. -/
def Obstacle.wording : Obstacle → Nat × String
  | missing => (2, "No such file or directory")
  | occupied => (17, "File exists")
  | notDirectory => (20, "Not a directory")
  | isDirectory => (21, "Is a directory")
  | nameTooLong => (36, "File name too long")

/-- The kind of error that an obstacle gives rise to. -/
def Obstacle.kind : Obstacle → String
  | missing => "FileNotFoundError"
  | occupied => "FileExistsError"
  | notDirectory => "NotADirectoryError"
  | isDirectory => "IsADirectoryError"
  | nameTooLong => "OSError"

/-- Why an operation on a path fails. -/
inductive Problem where
  | blocked (obstacle : Obstacle) (path : String) (target : Option String)
  /-- The path has a NUL, so that it names nothing. -/
  | noPath
  /-- The file does not hold a text. -/
  | noText (m : Utf8.Malformed)
  deriving DecidableEq, Repr

/-- The failure as an error seen from outside. -/
def Problem.toForeign : Problem → Foreign
  | .blocked obstacle path target =>
    let (number, said) := obstacle.wording
    let opening := "[Errno " ++ toString number ++ "] " ++ said ++ ": " ++ Text.quoted path
    ⟨obstacle.kind, match target with
      | some target => opening ++ " -> " ++ Text.quoted target
      | none => opening⟩
  | .noPath => FilePath.embeddedNull
  | .noText m => .ofMalformed m

/-- The failure is one of the file system. -/
def Problem.isSystem : Problem → Bool
  | .blocked .. => true
  | _ => false

/-- The tree that has only these directories, from the root on. -/
def ofDirectory (components : List (List Char)) : FileTree :=
  ⟨(List.range components.length).map fun n => (components.take (n + 1), .directory), components⟩

/-- What stands under these components. -/
def get? (t : FileTree) (components : List (List Char)) : Option FileNode :=
  if components.isEmpty then some .directory else t.nodes.lookup components

/-- A directory stands under these components. -/
def isDirectoryAt (t : FileTree) (components : List (List Char)) : Bool :=
  t.get? components = some .directory

/-- A file stands under these components. -/
def isFileAt (t : FileTree) (components : List (List Char)) : Bool :=
  match t.get? components with
  | some (.file _) => true
  | _ => false

/-- The longest name that a file can have, in bytes. -/
def nameLimit : Nat := 255

/-- Where the remaining components lead from a directory: to the components from the root, the
last of which need not stand there. -/
def follow (t : FileTree) : (done : List (List Char)) → List (List Char) →
    Except Obstacle (List (List Char))
  | done, [] => .ok done
  | done, c :: r =>
    match t.get? done with
    | none => .error .missing
    | some (.file _) => .error .notDirectory
    | some .directory =>
      if c = ['.', '.'] then t.follow done.dropLast r
      else if nameLimit < Utf8.width c then .error .nameTooLong
      else t.follow (done ++ [c]) r

/-- The components that a path leads to. -/
def locate (t : FileTree) (path : String) : Except Problem (List (List Char)) :=
  let cs := path.toList
  if cs.contains '\x00' then .error .noPath
  else
    let from_ := if (FilePath.root cs).isEmpty then t.start else []
    (t.follow from_ (FilePath.components cs)).mapError fun o => .blocked o path none

/-- What stands under a path. -/
def node (t : FileTree) (path : String) : Except Problem FileNode := do
  let components ← t.locate path
  match t.get? components with
  | some n => return n
  | none => throw (.blocked .missing path none)

/-- Something stands under a path. A path that cannot be followed leads to nothing. -/
def contains (t : FileTree) (path : String) : Bool := (t.node path).toOption.isSome

/-- A directory stands under a path. -/
def isDirectory (t : FileTree) (path : String) : Bool :=
  (t.node path).toOption = some .directory

/-- The bytes of a file. -/
def bytes (t : FileTree) (path : String) : Except Problem (List UInt8) := do
  match ← t.node path with
  | .file content => return content
  | .directory => throw (.blocked .isDirectory path none)

/-- The text with one kind of line end: a carriage return ends a line, and so does one together
with the line feed after it. -/
def oneLineEnd : List Char → List Char
  | [] => []
  | '\r' :: '\n' :: r => '\n' :: oneLineEnd r
  | c :: r => (if c = '\r' then '\n' else c) :: oneLineEnd r

/-- The text of a file. -/
def text (t : FileTree) (path : String) : Except Problem String := do
  let content ← t.bytes path
  let s ← (Utf8.decode content).mapError .noText
  return .ofList (oneLineEnd s.toList)

/-- The names in a directory, in the order in which they came. -/
def namesIn (t : FileTree) (directory : List (List Char)) : List (List Char) :=
  t.nodes.filterMap fun e =>
    match e.1.getLast? with
    | some name => if e.1.dropLast = directory then some name else none
    | none => none

end FileTree

end ModuleGraph
