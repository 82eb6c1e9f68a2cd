import ModuleGraph.CommandLine.Outside
import Std.Time.DateTime.Timestamp
/-!
# The program

Runs a command on the files of the machine. The files are read before the command runs, below the
places that it names, and what it changed is written afterwards. There is no network: a module that
is not in the response cache cannot be fetched.
-/

namespace ModuleGraph.Program

open CommandLine

/-- The variables that commands look at. -/
def lookedAt : List String :=
  ["HOME", Fetch.directoryVariable, "VFS_HOST_LOG_LEVEL", "VFS_HOST_LOG_PATH"]

/-- The reply of the network. -/
def noNetwork : Fetch.Reply := .breakdown ⟨"ConnectError", "There is no network."⟩

/-- The components of a path from the root. -/
def componentsOf (path : String) : List (List Char) := FilePath.absolute path.toList

/-- The path of components. -/
def pathOf (components : List (List Char)) : String :=
  .ofList ('/' :: FilePath.joinComponents components)

/-- The tree with the directories above and at these components. -/
def withDirectories (t : FileTree) (components : List (List Char)) : FileTree :=
  (FileTree.ancestry components).foldl
    (fun t c => if t.isDirectoryAt c then t else t.set c .directory) t

/-- The tree with everything at and below a place of the machine. -/
partial def takeIn (t : FileTree) (path : String) : IO FileTree := do
  let some place ← (some <$> IO.FS.realPath path) <|> pure none | return t
  if !(← place.pathExists) then return t
  let components := componentsOf path
  if ← place.isDir then
    let mut t := withDirectories t components
    for entry in ← place.readDir do
      t ← takeIn t (pathOf (components ++ [entry.fileName.toList]))
    return t
  else
    let content ← IO.FS.readBinFile place
    return (withDirectories t components.dropLast).set components (.file content.toList)

/-- Carries out a change. -/
def carryOut : Change → IO Unit
  | .make place => IO.FS.createDirAll (pathOf place)
  | .write place content => IO.FS.writeBinFile (pathOf place) ⟨content.toArray⟩
  | .remove place => IO.FS.removeFile (pathOf place)

/-- The lines that the user enters, if the command asks. -/
partial def enteredLines (input : IO.FS.Stream) : IO (List String) := do
  let line ← input.getLine
  if line.isEmpty then return []
  return Text.trimEnd (fun c => c = '\n' || c = '\r') line :: (← enteredLines input)

end ModuleGraph.Program

open ModuleGraph ModuleGraph.CommandLine ModuleGraph.Program in
/-- Runs the command that the arguments name. -/
def main (arguments : List String) : IO UInt32 := do
  let given ← lookedAt.filterMapM fun name => return (← IO.getEnv name).map fun v => (name, v)
  let start := toString (← IO.currentDir)
  let o : Surroundings :=
    ⟨fun name => given.lookup name, "file://" ++ Url.escapePath (FilePath.append start "dts")⟩
  let here := withDirectories ⟨[], componentsOf start⟩ (componentsOf start)
  let named := "dts" :: places o arguments
  let files ← named.foldlM (fun t p => takeIn t (FilePath.append start p)) here
  let now := (← Std.Time.Timestamp.now).toNanosecondsSinceUnixEpoch.toInt / 1000
  let asks := arguments.contains "clear" && !arguments.contains yesOption.name
  let entered ← if asks then enteredLines (← IO.getStdin) else pure []
  let w : Fetch.World := ⟨files, [], noNetwork, now, [], []⟩
  let (r, w) := CommandLine.run o w arguments entered
  IO.print r.traces.output
  match r.logged (.ofEnvironment o.environment) now w.files with
  | .error e =>
    IO.eprintln (e.kind ++ ": " ++ e.text)
    return 1
  | .ok (after, messages) =>
    (changes files after).forM carryOut
    messages.forM IO.eprintln
    (r.traces.console.flatMap Shown.lines).forM IO.eprintln
    if let some e := r.escaped then IO.eprintln (e.kind ++ ": " ++ e.text)
    return r.exit.toUInt32
