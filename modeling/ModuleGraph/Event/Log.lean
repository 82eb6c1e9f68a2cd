import ModuleGraph.Event.Basic
/-!
# Events as log records

The observer of the package turns events into log records. Library traffic is told only when it
is a problem: the default library is large and is loaded on every build. A bus tells every event
to its subscribers in turn, and one that breaks down keeps the event from no other.
-/

namespace ModuleGraph

/-- How much a log record matters. -/
inductive Level where
  | debug
  | info
  | warning
  | error
  | critical
  deriving DecidableEq, Repr, Inhabited

namespace Level

/-- The name of a level. -/
def name : Level → String
  | debug => "DEBUG"
  | info => "INFO"
  | warning => "WARNING"
  | error => "ERROR"
  | critical => "CRITICAL"

/-- The number of a level. -/
def number : Level → Int
  | debug => 10
  | info => 20
  | warning => 30
  | error => 40
  | critical => 50

end Level

/-- A line of a log. -/
structure LogRecord where
  logger : String
  level : Level
  message : String
  deriving DecidableEq, Repr, Inhabited

namespace Event

/-- The logger of the package. -/
def packageLogger : String := "vfs_host"

/-- How much a diagnostic matters, and how its record begins, by the origin of its file
(`DIAGNOSTIC_LEVELS`). -/
def diagnosticLevel : Origin → Level × String
  | .project => (.warning, "TS Error in project")
  | .library => (.debug, "TS Error in default lib")
  | .dependency => (.info, "TS Error in dependency")

/-- The level and text of the record that an event gives rise to. -/
def logLine? : Event → Option (Level × String)
  | .fileLoaded url _ size isLibrary =>
    if isLibrary then none
    else some (.debug, "Loaded " ++ url ++ " (" ++ toString size ++ " bytes)")
  | .fileRead path foundPath isLibrary =>
    if isLibrary then none
    else if foundPath = path then some (.debug, "Read " ++ path)
    else some (.info, "Read " ++ path ++ " as " ++ foundPath)
  | .fileNotFound path => some (.warning, "File not found: " ++ path)
  | .fileProbeMissed path => some (.debug, "Checked exists: " ++ path ++ " - False")
  | .specifierFailed specifier sourceUrl error =>
    some (.error, "Transforming specifier " ++ Text.quoted specifier ++ " in " ++ sourceUrl ++
      " failed: " ++ error)
  | .libraryMissing name error =>
    some (.warning, "Loading lib file " ++ Text.quoted name ++ " failed: " ++ error)
  | .configIgnored path error => some (.error, "Failed to load " ++ path ++ ": " ++ error)
  | .parseErrorsFound path => some (.debug, "Syntax errors recovered while parsing " ++ path)
  | .diagnosticReported origin message =>
    let (level, opening) := diagnosticLevel origin
    some (level, opening ++ ": " ++ message)

/-- The log record that an event gives rise to. -/
def logRecord? (e : Event) : Option LogRecord :=
  e.logLine?.map fun (level, message) => ⟨packageLogger, level, message⟩

end Event

/-- What is told while a graph is loaded: events for observers, and lines for the log. -/
inductive Notice where
  | event (e : Event)
  | log (r : LogRecord)
  deriving DecidableEq, Repr, Inhabited

namespace Notice

/-- The event of a notice. -/
def event? : Notice → Option Event
  | event e => some e
  | log _ => none

/-- The line of a notice, which is an event's own where the package's observer listens. -/
def record? : Notice → Option LogRecord
  | event e => e.logRecord?
  | log r => some r

end Notice

/-- Someone who is told events: what it leaves behind, unless it breaks down. -/
structure Subscriber (σ : Type) where
  name : String
  receive : Event → Option (List σ)

/-- The record of a subscriber that broke down. -/
def Subscriber.failure (name : String) : LogRecord :=
  ⟨"vfs_host.events.bus", .error, "Error in event handler " ++ Text.quoted name⟩

/-- What the subscribers leave behind when they are told an event, one after the other
(`EventBus.publish`). -/
def publish {σ : Type} (ofRecord : LogRecord → σ) (subscribers : List (Subscriber σ))
    (e : Event) : List σ :=
  subscribers.flatMap fun s => (s.receive e).getD [ofRecord (Subscriber.failure s.name)]

end ModuleGraph
