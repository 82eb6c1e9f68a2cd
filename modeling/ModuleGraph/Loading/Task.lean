import ModuleGraph.Event.Log
import ModuleGraph.Fetch.Source
import ModuleGraph.Library
import ModuleGraph.ModuleStore
import ModuleGraph.Rewrite
/-!
# Load tasks

Loading a module (`ModuleLoader._load`) asks for the modules that it names, so a load is a task
among others. A task claims the virtual path of its module, fetches the text, asks for everything
that the directives of the text name, then for everything that its statements and calls name, and
fills the path with the rewritten text. A path that is already claimed is answered at once, whether
its text is there or not, so that no task waits for one that waits for it.

Tasks are kept in one list in the order in which they were asked for, and are known by their
places in it.
-/

namespace ModuleGraph.Loading

/-- What a task was asked for. -/
inductive Demand where
  /-- The module at `url`, under the path of `asUrl` (`ModuleLoader.load_file`). -/
  | module (url asUrl : String)
  /-- The module that a stretch of the text from `source` names (`SourceTransformer._rewrite`). -/
  | target (source : String) (t : Target)
  /-- A library, whose absence is reported and passed over (`LibraryLoader.load`). -/
  | library (name : String)
  /-- A library, whose absence is a fault (`LibraryLoader.load_required`). -/
  | required (name : String)
  deriving DecidableEq, Repr, Inhabited

/-- How a task ended. -/
inductive Outcome where
  /-- The path under which the module is stored, or is going to be stored. -/
  | loaded (path : String)
  /-- There is no module, and observers were told. -/
  | reported
  /-- The fault that whoever asked has to deal with. -/
  | failed (e : Fault)
  deriving DecidableEq, Repr, Inhabited

/-- The path that a task has claimed, and the URL that it was claimed for. -/
structure Claim where
  url : String
  path : String
  deriving DecidableEq, Repr, Inhabited

/-- A text that is being rewritten (a run of `SourceTransformer.transform`). -/
structure Draft where
  source : Fetch.Source
  editor : Editor
  /-- The syntax tree as long as its specifiers have not been asked for. -/
  rest : Option Syntax.Tree
  /-- The tasks that the draft waits for. -/
  pending : List Nat
  deriving Inhabited

/-- How far a task has come. -/
inductive Phase where
  | ready
  /-- The URLs that may still have the text, and what was said of those that did not. -/
  | fetching (c : Claim) (urls errors : List String)
  | rewriting (c : Claim) (d : Draft)
  | finished (o : Outcome)
  deriving Inhabited

/-- A task, and the task that asked for it. -/
structure Task where
  parent : Option Nat
  demand : Demand
  phase : Phase
  deriving Inhabited

/-- How the task ended, if it has. -/
def Task.outcome? (t : Task) : Option Outcome :=
  match t.phase with
  | .finished o => some o
  | _ => none

/-- What loading depends on (`ModuleLoader`). A fetch reads and changes a world of type `σ`. -/
structure Setting (σ : Type) where
  importMap : ImportMap
  libraryDir : String
  bundledDir : String
  /-- The path of the library directory. -/
  libraryLocation : String
  fetch : String → σ → Except Fault Fetch.Source × σ

/-- The setting with these directories, unless the library directory has no path. -/
def Setting.make {σ : Type} (importMap : ImportMap) (libraryDir bundledDir : String)
    (fetch : String → σ → Except Fault Fetch.Source × σ) : Except Fault (Setting σ) :=
  (directoryPath libraryDir).map fun location =>
    ⟨importMap, libraryDir, bundledDir, location, fetch⟩

/-- The world, the store, what was told, and all tasks so far. -/
structure State (σ : Type) where
  world : σ
  store : ModuleStore
  notices : List Notice
  tasks : List Task

namespace State

variable {σ : Type}

/-- The state before anything is asked for. -/
def start (world : σ) : State σ := ⟨world, .empty, [], []⟩

/-- The state with one more notice. -/
def tell (s : State σ) (n : Notice) : State σ := { s with notices := s.notices ++ [n] }

/-- The state in which a task has come to a phase. -/
def enter (s : State σ) (i : Nat) (p : Phase) : State σ :=
  { s with tasks := s.tasks.modify i fun t => { t with phase := p } }

/-- The state in which a task has ended. -/
def finish (s : State σ) (i : Nat) (o : Outcome) : State σ := s.enter i (.finished o)

/-- The state with more tasks, and their places. -/
def ask (s : State σ) (parent : Option Nat) (demands : List Demand) : State σ × List Nat :=
  ({ s with tasks := s.tasks ++ demands.map fun d => ⟨parent, d, .ready⟩ },
    List.range' s.tasks.length demands.length)

/-- How the task at a place ended, if it has. -/
def outcome? (s : State σ) (i : Nat) : Option Outcome := s.tasks[i]?.bind Task.outcome?

/-- The fault of the first of the tasks at these places that failed. -/
def failure? (s : State σ) (places : List Nat) : Option Fault :=
  places.findSome? fun i =>
    match s.outcome? i with
    | some (.failed e) => some e
    | _ => none

/-- All tasks at these places have ended. -/
def allFinished (s : State σ) (places : List Nat) : Bool :=
  places.all fun i => (s.outcome? i).isSome

end State

end ModuleGraph.Loading
