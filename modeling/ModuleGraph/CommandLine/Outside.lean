import ModuleGraph.CommandLine.Run
import ModuleGraph.Log.Setup
/-!
# A command and what is around it

A command runs on a picture of the files. Here stand the places that the picture has to show, the
changes that the command made to it, and the log records that the command asks to be kept.
-/

namespace ModuleGraph.CommandLine

/-- The places that the arguments of `build` name. -/
def buildPlaces (arguments : List String) : List String :=
  match readArguments [entryGlobOption, importMapOption, showFilesOption] false ⟨[], []⟩ arguments with
  | .ok g => g.operands.headD "." :: (g.value? importMapOption.name).toList
  | .error _ => []

/-- The places that a command reads or writes: those that its arguments name, the log file and the
response cache. -/
def places (o : Surroundings) (arguments : List String) : List String :=
  let own := match readArguments [levelOption, logFileOption] true ⟨[], []⟩ arguments with
    | .ok g => (g.value? logFileOption.name).toList ++ (match g.operands with
      | "build" :: rest => buildPlaces rest
      | _ => [])
    | .error _ => []
  let log := (Log.Defaults.ofEnvironment o.environment).file
  own ++ [log, Fetch.cacheDirectory o.environment].filter (· ≠ "")

/-- A change to a file. -/
inductive Change where
  | make (directory : List (List Char))
  | write (file : List (List Char)) (content : List UInt8)
  | remove (file : List (List Char))
  deriving DecidableEq, Repr

/-- The changes that lead from one file tree to another. -/
def changes (before after : FileTree) : List Change :=
  let fresh := after.nodes.filter fun e => before.get? e.1 ≠ some e.2
  let gone := before.nodes.filter fun e => (after.get? e.1).isNone
  (fresh.map fun
    | (place, .directory) => .make place
    | (place, .file content) => .write place content) ++ gone.map fun e => .remove e.1

/-- The log that a report asks for: what keeps it from being opened, the files with its lines, and
the messages for the console. -/
def Report.logged (r : Report) (defaults : Log.Defaults) (now : Int) (files : FileTree) :
    Except Foreign (FileTree × List String) :=
  match r.traces.logging with
  | none => .ok (files, [])
  | some asked =>
    match Log.Setup.closed.opened defaults files (asked.level.getD "") (asked.file.getD "") with
    | (_, _, some e) => .error e
    | (setup, files, none) =>
      r.traces.records.foldlM
        (fun (files, shown) record => do
          let entry : Log.Entry :=
            ⟨record.logger, record.level.number, record.message, [], []⟩
          let (files, message) ← setup.submit files now entry
          return (files, shown ++ (message.map fun m => record.level.name ++ " " ++ m).toList))
        (files, [])

end ModuleGraph.CommandLine
