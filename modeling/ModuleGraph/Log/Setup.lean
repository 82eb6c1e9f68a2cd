import ModuleGraph.Event.Log
import ModuleGraph.FileTree.Update
import ModuleGraph.Json.Writer
import ModuleGraph.Log.Template
import ModuleGraph.Moment
/-!
# Logging

Log records are submitted to loggers, whose names form a hierarchy: what stands before the last
point of a name is the name of the logger above. A logger lets a record through if the level of the
record reaches its own level, or that of the nearest logger above that has one. A record that is let
through is shown on the console and, if there is a log file, written to it as one line of JSON.
-/

namespace ModuleGraph.Log

/-! ## Levels -/

/-- The names by which levels are known, with their numbers. -/
def levels : List (String × Int) :=
  [("CRITICAL", 50), ("FATAL", 50), ("ERROR", 40), ("WARNING", 30), ("WARN", 30), ("INFO", 20),
   ("DEBUG", 10), ("NOTSET", 0)]

/-- A letter of a level's name as a capital. -/
def capital (c : Char) : Char :=
  if c = 'ı' then 'I' else if c = 'ſ' then 'S' else c.toUpper

/-- The number of a level by its name in any case; a name that is not known stands for `INFO`. -/
def levelOf (name : String) : Int :=
  (levels.lookup (.ofList (name.toList.map capital))).getD 20

/-- The name of a level by its number: the first one it is known by. -/
def levelName (number : Int) : String :=
  match levels.find? fun l => l.2 = number with
  | some l => l.1
  | none => "Level " ++ toString number

/-! ## Set-up -/

/-- How records are filtered and where they go. -/
structure Setup where
  /-- The level of the loggers that have none above them. -/
  rootLevel : Int
  /-- The levels of single loggers; zero stands for none. -/
  ownLevels : Table Int
  console : Bool
  file : Option String
  deriving Inhabited

/-- What holds where the caller of `Setup.opened` says nothing. -/
structure Defaults where
  level : String
  file : String

/-- The defaults of an environment. -/
def Defaults.ofEnvironment (environment : String → Option String) : Defaults :=
  ⟨(environment "VFS_HOST_LOG_LEVEL").getD "INFO", (environment "VFS_HOST_LOG_PATH").getD ""⟩

/-- The logger of the network client, which tells of every request. -/
def clientLogger : String := "httpx"

namespace Setup

/-- The set-up before anything is opened: warnings, without console or file. -/
def closed : Setup := ⟨30, .empty, false, none⟩

/-- The path of the directory that holds a file. -/
def directoryOf (path : String) : String :=
  let cs := path.toList
  FilePath.normalize (.ofList (FilePath.root cs ++
    FilePath.joinComponents (FilePath.components cs).dropLast))

/-- Opens the console and, unless its path is empty, the log file, whose directory is made
(`init_logging`). What was open before is closed. -/
def opened (s : Setup) (defaults : Defaults) (files : FileTree) (level path : String) :
    Setup × FileTree × Option Foreign :=
  let level := if level = "" then defaults.level else level
  let path := if path = "" then defaults.file else path
  let s := { s with rootLevel := levelOf level, console := true, file := none }
  let quiet := { s with ownLevels := s.ownLevels.insert clientLogger Level.warning.number }
  if path = "" then (quiet, files, none)
  else
    match files.makeDirectory (directoryOf path) with
    | .ok files => ({ quiet with file := some path }, files, none)
    | .error p => (s, files, some p.toForeign)

/-- The names of a logger and of those above it, from the logger on. -/
def lineage (logger : String) : List String :=
  let parts := Text.split '.' logger
  ((List.range parts.length).map fun n => ".".intercalate (parts.take (n + 1))).reverse

/-- The level that a record has to reach at a logger. -/
def threshold (s : Setup) (logger : String) : Int :=
  ((lineage logger).findSome? fun name =>
    (s.ownLevels.get? name).bind fun level => if level = 0 then none else some level).getD
      s.rootLevel

/-- A logger lets records of a level through. -/
def lets (s : Setup) (logger : String) (level : Int) : Bool :=
  0 < level && s.threshold logger ≤ level

end Setup

/-! ## Records -/

/-- What is submitted to a logger: a template with its values, and members of the caller's own. -/
structure Entry where
  logger : String
  level : Int
  template : String
  values : List Json
  extra : List (String × Json)

/-- The name of the logger above all others. -/
def rootLogger : String := "root"

/-- Names that a record keeps to itself. -/
def reserved : List String :=
  ["message", "asctime", "name", "msg", "args", "levelname", "levelno", "pathname", "filename",
   "module", "exc_info", "exc_text", "stack_info", "lineno", "funcName", "created", "msecs",
   "relativeCreated", "thread", "threadName", "processName", "process"]

/-- A name that a record has but no line shows. -/
def hidden : String := "taskName"

/-- The error of a member that has a reserved name. -/
def overwritten (name : String) : Foreign :=
  ⟨"KeyError", Text.quoted ("Attempt to overwrite " ++ Text.quoted name ++ " in LogRecord")⟩

/-- The time of a record in universal time, with three digits for the fraction of a second. -/
def stamp (now : Int) : String :=
  let whole := (Moment.mk (now / second * second) 0).toText
  Text.dropLast whole 1 ++ "." ++ Moment.padded 3 (now % second / 1000) ++ "+00:00"

/-- The record as an object (`JsonlHandler.format_record`). The members of the caller's own come
last, and none takes the place of another. -/
def Entry.toJson (e : Entry) (now : Int) (message : String) : Json :=
  let own := [("ts", Json.str (stamp now)), ("lvl", .str (levelName e.level)),
    ("schema", .obj [("name", .str "vfs_host.log"), ("ver", .str "1.0.0")]),
    ("logger", .str (if e.logger = "" then rootLogger else e.logger)), ("message", .str message)]
  .obj (own ++ e.extra.filter fun m => m.1 ≠ hidden && !own.any fun o => o.1 = m.1)

/-- The record as a line. -/
def Entry.toLine (e : Entry) (now : Int) (message : String) : String :=
  Json.write Json.spaced (e.toJson now message) ++ "\n"

/-- A line at the end of the log file. A file that cannot be written to loses the line. -/
def keepLine (files : FileTree) (path line : String) : FileTree :=
  (files.extend path (Utf8.encode line)).toOption.getD files

/-- Submits an entry at a time: the files with its line, and the message for the console
(`JsonlHandler.emit`). -/
def Setup.submit (s : Setup) (files : FileTree) (now : Int) (e : Entry) :
    Except Foreign (FileTree × Option String) := do
  if !s.lets e.logger e.level then return (files, none)
  if let some m := e.extra.find? fun m => reserved.contains m.1 then throw (overwritten m.1)
  if !s.console then return (files, none)
  let message ← Template.fill e.template e.values
  match s.file with
  | none => return (files, some message)
  | some path => return (keepLine files path (e.toLine now message), some message)

end ModuleGraph.Log
