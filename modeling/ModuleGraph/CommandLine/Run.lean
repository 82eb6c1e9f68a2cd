import ModuleGraph.CommandLine.Report
import ModuleGraph.Fetch.Directory
import ModuleGraph.Project.Build
import ModuleGraph.SizeLabel
import ModuleGraph.Text.Case
import ModuleGraph.Text.Markup
/-!
# The command line

`build` loads a project and shows what was loaded; `cache path` and `cache clear` look after the
response cache. Arguments are judged in the order in which they were given, options before operands,
and what is left over comes last.
-/

namespace ModuleGraph.CommandLine

/-- What a command sees of its surroundings. -/
structure Surroundings where
  environment : String → Option String
  /-- The URL of the directory with the bundled libraries. -/
  bundledDir : String

/-- The state of a running command: the world, what it leaves behind, and the lines that the user
has still to enter. -/
structure Session where
  world : Fetch.World
  traces : Traces
  entered : List String

/-- A part of a command. -/
abbrev Work (α : Type) := ExceptT Stop (StateM Session) α

/-! ## Usage -/

/-- The name of the program. -/
def programName : String := "cli"

/-- The forms of the arguments of a command that has commands of its own. -/
def groupForms : String := "[OPTIONS] COMMAND [ARGS]..."

def mainUsage : Usage := ⟨programName, groupForms⟩
def buildUsage : Usage := ⟨programName ++ " build", "[OPTIONS] [ROOT]"⟩
def cacheUsage : Usage := ⟨programName ++ " cache", groupForms⟩
def cachePathUsage : Usage := ⟨programName ++ " cache path", "[OPTIONS]"⟩
def cacheClearUsage : Usage := ⟨programName ++ " cache clear", "[OPTIONS]"⟩

def levelOption : KnownOption := ⟨"--log-level", true⟩
def logFileOption : KnownOption := ⟨"--log-file", true⟩
def entryGlobOption : KnownOption := ⟨"--entry-glob", true⟩
def importMapOption : KnownOption := ⟨"--import-map", true⟩
def showFilesOption : KnownOption := ⟨"--show-files", false⟩
def yesOption : KnownOption := ⟨"--yes", false⟩

/-! ## Parts of commands -/

/-- Shows something on the console. -/
def present (shown : Shown) : Work Unit :=
  modify fun s => { s with traces := { s.traces with console := s.traces.console ++ [shown] } }

/-- Says something about the use of the command. -/
def say (text : String) : Work Unit :=
  modify fun s => { s with traces := { s.traces with output := s.traces.output ++ text } }

/-- Reads the arguments of a command. -/
def readGiven (usage : Usage) (known : List KnownOption) (operandsLast : Bool)
    (arguments : List String) : Work Given :=
  match readArguments (known ++ [helpOption]) operandsLast ⟨[], []⟩ arguments with
  | .error (.unknownOption name) => throw (.misuse usage (ArgumentProblem.unknownOption name).message)
  | .error p => throw (.misuse none p.message)
  | .ok g => if g.has helpOption.name then throw (.help usage) else return g

/-- A value that an option or an operand must not have. -/
def invalidValue (usage : Usage) (name said : String) : Stop :=
  .misuse usage ("Invalid value for " ++ name ++ ": " ++ said)

/-- The kind of path that is wanted. -/
inductive PathKind where
  | file
  | directory
  deriving DecidableEq

/-- The word for a kind of path. -/
def PathKind.word : PathKind → String
  | .file => "File"
  | .directory => "Directory"

/-- Judges the path that an option or an operand names. The empty path names nothing. -/
def checkPath (usage : Usage) (name : String) (wanted : PathKind) (mustExist : Bool)
    (path : String) : Work Unit := do
  let refuse := fun (said : String) => (throw (invalidValue usage ("'" ++ name ++ "'")
    (wanted.word ++ " " ++ Text.quoted path ++ said)) : Work Unit)
  let found := (← get).world.files.node path
  match (if path.isEmpty then .error (.blocked .missing path none) else found), wanted with
  | .error .noPath, _ => throw (.escaped (.foreign FilePath.embeddedNull))
  | .error _, _ => if mustExist then refuse " does not exist." else return ()
  | .ok .directory, .file => refuse " is a directory."
  | .ok (.file _), .directory => refuse " is a file."
  | .ok _, _ => return ()

/-- Judges the operands that no command wants. -/
def refuseOperands (usage : Usage) (operands : List String) : Work Unit :=
  match operands with
  | [] => return ()
  | [o] => throw (.misuse usage ("Got unexpected extra argument (" ++ o ++ ")"))
  | os => throw (.misuse usage ("Got unexpected extra arguments (" ++ " ".intercalate os ++ ")"))

/-- What stands behind a question that is answered with yes or no, where no is the default. -/
def questionMark : String := " [y/N]: "

/-- A question asked until it is answered: whether the answer is yes, what was said, and the lines that
are left. A user who enters nothing more does not agree. -/
def confirmation (question : String) : List String → Bool × String × List String
  | [] => (false, question ++ questionMark, [])
  | line :: rest =>
    let said := question ++ questionMark ++ line ++ "\n"
    let answer := Text.trim Char.isWhitespace (Text.lower line)
    if answer = "y" || answer = "yes" then (true, said, rest)
    else if answer = "n" || answer = "no" || answer = "" then (false, said, rest)
    else
      let (agreed, more, rest) := confirmation question rest
      (agreed, said ++ "Error: invalid input\n" ++ more, rest)

/-- Goes on only if the user agrees. -/
def confirm (question : String) : Work Unit := do
  let s ← get
  let (agreed, said, rest) := confirmation question s.entered
  set { s with entered := rest }
  say said
  if !agreed then throw .declined

/-! ## Building -/

/-- The import map in a file (`_read_import_map`). -/
def importMapIn (path : String) : Work ImportMap := do
  let refuse := fun (u : ProjectConfig.Unusable) =>
    (throw (if u.isReported then
        invalidValue buildUsage importMapOption.name ((Fault.foreign u.toForeign).describe true)
      else .escaped (.foreign u.toForeign)) : Work ImportMap)
  match (← get).world.files.text path with
  | .error p => refuse (.unreadable p)
  | .ok text =>
    match Json.parse text with
    | .error f => refuse (.refused f)
    | .ok v =>
      match ImportMap.ofRecord v with
      | .error e => refuse (.invalid e)
      | .ok m => return m

/-- The table of stored files: paths in their order, with the sizes of their texts. -/
def filesTable (store : ModuleStore) : Shown :=
  let items := store.items.mergeSort fun a b => !decide (b.1 < a.1)
  .table "Virtual Files" ["Path", "Size"] (items.map fun f =>
    [Text.escapeMarkup f.1, sizeLabel (Utf8.encode f.2).length])

/-- What is shown of a build that failed. -/
def failureLine (e : Fault) : Shown :=
  .line ("[red]Build failed:[/red] " ++ Text.escapeMarkup (e.describe false))

/-- A count in bold type. -/
def countLine (label : String) (n : Nat) : Shown :=
  .line ("[bold]" ++ label ++ ":[/bold] " ++ toString n)

/-- The command `build`. -/
def runBuild (o : Surroundings) (arguments : List String) : Work Unit := do
  let g ← readGiven buildUsage [entryGlobOption, importMapOption, showFilesOption] false arguments
  let mapPath? := g.value? importMapOption.name
  if let some path := mapPath? then checkPath buildUsage importMapOption.name .file true path
  let root := g.operands.headD "."
  checkPath buildUsage "[ROOT]" .directory true root
  refuseOperands buildUsage (g.operands.drop 1)
  let importMap ← match mapPath? with
    | some path => importMapIn path
    | none => pure .empty
  let w := (← get).world
  let plan : Plan Unit :=
    { root := FilePath.append (.ofList ('/' :: FilePath.joinComponents w.files.start)) root
      entryGlob := (g.value? entryGlobOption.name).getD Plan.defaultEntryGlob
      importMap := importMap
      overrides := .empty
      libraryDir := Plan.defaultLibraryDir
      bundledDir := o.bundledDir
      cache := .inDirectory (Fetch.cacheDirectory o.environment)
      frontend := none }
  let (built, left) := plan.build { w with log := [] }
  modify fun s =>
    { s with
      world := left.world
      traces := { s.traces with
        records := s.traces.records ++ left.notices.filterMap Notice.record? ++ left.world.log } }
  match built with
  | .error e =>
    if e.isOwn then
      present (failureLine e)
      throw .failed
    else throw (.escaped e)
  | .ok p =>
    if g.has showFilesOption.name then present (filesTable p.store)
    present (countLine "Entry points" p.rootNames.length)
    present (countLine "Loaded files" p.store.size)

/-! ## The response cache -/

/-- The command `cache path`. -/
def runCachePath (o : Surroundings) (arguments : List String) : Work Unit := do
  let g ← readGiven cachePathUsage [] false arguments
  refuseOperands cachePathUsage g.operands
  let directory := Fetch.cacheDirectory o.environment
  present (.line ("[cyan]" ++ Text.escapeMarkup directory ++ "[/cyan]"))
  let status := if (← get).world.files.contains directory then "exists" else "not created yet"
  present (.line ("[dim]Status: " ++ status ++ "[/dim]"))

/-- The command `cache clear`. -/
def runCacheClear (o : Surroundings) (arguments : List String) : Work Unit := do
  let g ← readGiven cacheClearUsage [yesOption] false arguments
  if !g.has yesOption.name then
    confirm "Delete every cached response?"
  refuseOperands cacheClearUsage g.operands
  let s ← get
  let (removed, w) := (Fetch.Cache.inDirectory (Fetch.cacheDirectory o.environment)).clear.run s.world
  set { s with world := w }
  match removed with
  | .error e => throw (.escaped e)
  | .ok n => present (.line ("[green]✓[/green] Removed " ++ toString n ++ " cached responses"))

/-! ## Commands -/

/-- Refuses a name that is no command. What has the form of an option is read as one first. -/
def refuseCommand (usage : Usage) (known : List KnownOption) (name : String)
    (rest : List String) : Work Unit := do
  if isOption name then
    let _ ← readGiven usage known true (name :: rest)
  throw (.misuse usage ("No such command " ++ Text.quoted name ++ "."))

/-- Refuses arguments that name no command. -/
def refuseUnnamed (usage : Usage) (arguments : List String) : Work Unit :=
  throw (if arguments.isEmpty then .unnamed usage else .misuse usage "Missing command.")

/-- The commands below `cache`. -/
def runCache (o : Surroundings) (arguments : List String) : Work Unit := do
  let g ← readGiven cacheUsage [] true arguments
  match g.operands with
  | "path" :: rest => runCachePath o rest
  | "clear" :: rest => runCacheClear o rest
  | name :: rest => refuseCommand cacheUsage [] name rest
  | [] => refuseUnnamed cacheUsage arguments

/-- Sets up logging as the options ask for it. -/
def setUpLogging (g : Given) : Work Unit :=
  modify fun s => { s with traces := { s.traces with
    logging := some ⟨g.value? levelOption.name, g.value? logFileOption.name⟩ } }

/-- All commands (`cli`). A name that is no command is refused before logging is set up. -/
def runMain (o : Surroundings) (arguments : List String) : Work Unit := do
  let known := [levelOption, logFileOption]
  let g ← readGiven mainUsage known true arguments
  if let some path := g.value? logFileOption.name then
    checkPath mainUsage logFileOption.name .file false path
  match g.operands with
  | "build" :: rest =>
    setUpLogging g
    runBuild o rest
  | "cache" :: rest =>
    setUpLogging g
    runCache o rest
  | name :: rest => refuseCommand mainUsage known name rest
  | [] => refuseUnnamed mainUsage arguments

/-- Runs a command in a world, with the lines that the user enters (`main`). -/
def run (o : Surroundings) (w : Fetch.World) (arguments entered : List String) :
    Report × Fetch.World :=
  let (r, s) := (runMain o arguments).run ⟨w, ⟨"", [], none, []⟩, entered⟩
  (.of r s.traces, s.world)

end ModuleGraph.CommandLine
