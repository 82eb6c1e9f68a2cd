import ModuleGraph.Loading.Task
/-!
# Steps of load tasks

A task advances in steps, and between two steps of one task any other task may advance. A step
is what `ModuleLoader._load` and `SourceTransformer.transform` do from one point at which they are
suspended to the next: it claims a path, fetches one URL, or goes on with a draft whose pending
tasks have ended. `step` is the step of the task at a place; a task that has ended or that waits
is left as it is.

Whatever keeps a module from being loaded is a fault that names the URL it was asked for by. The
fault reaches the task that asked: a stretch that names the module is reported and left as it was,
a library is reported and passed over.
-/

namespace ModuleGraph.Loading

variable {σ : Type}

/-- The logger of what is told about loading. -/
def logger : String := "vfs_host.loader"

/-- The record of a URL that could not be fetched. -/
def fetchNotice (url : String) (e : Fault) : Notice :=
  .log ⟨logger, .debug, "Fetching " ++ url ++ " failed: " ++ e.describe true⟩

/-- What stands between the faults of several URLs. -/
def faultSeparator : String := ". "

/-- The fault of a module that none of its URLs has (the end of `ModuleLoader._fetch_first`). -/
def nowhereFault (c : Claim) (errors : List String) : Fault :=
  .module c.url (.fetch c.url (faultSeparator.intercalate errors))

namespace State

/-- Writes the path of a module into the draft that asked for it, if it is still rewritten (the
end of `SourceTransformer._rewrite`). -/
def edit (s : State σ) (parent : Option Nat) (t : Target) (path : String) :
    Except Fault (State σ) :=
  match parent with
  | none => .ok s
  | some p =>
    match s.tasks[p]? with
    | some ⟨_, _, .rewriting c d⟩ =>
      (Rewrite.apply d.editor t path).map fun e => s.enter p (.rewriting c { d with editor := e })
    | _ => .ok s

/-- Ends a load: what it yields goes to the task that asked. What is caught there is caught here:
by `_rewrite` for a stretch, by `LibraryLoader.load` and `LibraryLoader.load_required` for a
library. -/
def conclude (s : State σ) (i : Nat) (r : Except Fault String) : State σ :=
  match s.tasks[i]?, r with
  | none, _ => s
  | some ⟨_, .module .., _⟩, .ok path => s.finish i (.loaded path)
  | some ⟨_, .module .., _⟩, .error e => s.finish i (.failed e)
  | some ⟨parent, .target _ t, _⟩, .ok path =>
    match s.edit parent t path with
    | .ok s => s.finish i (.loaded path)
    | .error e => s.finish i (.failed e)
  | some ⟨_, .target source t, _⟩, .error e =>
    if e.isOwn then (s.tell (.event (Rewrite.report source t e))).finish i .reported
    else s.finish i (.failed e)
  | some ⟨_, .library _, _⟩, .ok path => s.finish i (.loaded path)
  | some ⟨_, .library name, _⟩, .error e =>
    if e.isOwn then (s.tell (.event (.libraryMissing name (e.describe false)))).finish i .reported
    else s.finish i (.failed e)
  | some ⟨_, .required _, _⟩, .ok path => s.finish i (.loaded path)
  | some ⟨_, .required name, _⟩, .error e =>
    s.finish i (.failed (if e.isOwn then .library name (e.describe false) else e))

/-- Claims the path of `asUrl` for the module at `url` (the first half of `ModuleLoader._load`). A
path that is taken is answered at once. -/
def claim (s : State σ) (i : Nat) (url asUrl : String) (fallbacks : List String) : State σ :=
  match virtualPath asUrl with
  | .error e => s.conclude i (.error (.module url e))
  | .ok path =>
    match s.store.reserve path with
    | (false, _) => s.conclude i (.ok path)
    | (true, store) => { s with store := store }.enter i (.fetching ⟨url, path⟩ (url :: fallbacks) [])

/-- Claims the path of a library, which the bundled directory may also have
(`LibraryLoader.load_required`). -/
def claimLibrary (c : Setting σ) (s : State σ) (i : Nat) (name : String) : State σ :=
  match Library.primaryUrl c.libraryDir name, Library.fallbackUrl c.bundledDir name with
  | .ok url, .ok fallback => s.claim i url url [fallback]
  | .error p, _ | _, .error p => s.conclude i (.error (.foreign (.ofUrl p)))

/-- The first step of a task. -/
def begin (c : Setting σ) (s : State σ) (i : Nat) : Demand → State σ
  | .module url asUrl => s.claim i url asUrl []
  | .target source t =>
    match c.importMap.resolve source t.specifier with
    | .error e => s.conclude i (.error e)
    | .ok url => s.claim i url url []
  | .library name | .required name => s.claimLibrary c i name

/-- What a task asks for to answer a request of the text from `source`. -/
def demandOf (source : String) : Request → Demand
  | .module t => .target source t
  | .library name => .library name

/-- Asks for everything that the directives of a fetched text name (the first `gather` of
`SourceTransformer.transform`). -/
def draft (s : State σ) (i : Nat) (c : Claim) (source : Fetch.Source) : State σ :=
  let tree := Syntax.parse (.ofFileName c.path) source.text
  let s := (Rewrite.syntaxEvents c.path tree).foldl (fun s e => s.tell (.event e)) s
  let (s, places) := s.ask (some i) ((Rewrite.directives source.text).map (demandOf source.url))
  s.enter i (.rewriting c ⟨source, .ofBytes (Utf8.encode source.text), some tree, places⟩)

/-- Fetches the next URL that may have the text (one turn of the loop of
`ModuleLoader._fetch_first`). -/
def fetchNext (c : Setting σ) (s : State σ) (i : Nat) (k : Claim) (urls errors : List String) :
    State σ :=
  match urls with
  | [] => s.conclude i (.error (nowhereFault k errors))
  | url :: rest =>
    let (r, world) := c.fetch url s.world
    let s := { s with world := world }
    match r with
    | .ok source => s.draft i k source
    | .error e =>
      if e.isOwn then
        let s := s.tell (fetchNotice url e)
        let errors := errors ++ [e.describe false]
        if rest.isEmpty then s.conclude i (.error (nowhereFault k errors))
        else s.enter i (.fetching k rest errors)
      else s.conclude i (.error (.module k.url e))

/-- Fills the claimed path with the final text (the second half of `ModuleLoader._load`). -/
def settle (c : Setting σ) (s : State σ) (i : Nat) (k : Claim) (url text : String) : State σ :=
  match s.store.fill k.path text with
  | .error p => s.conclude i (.error (.foreign p.toForeign))
  | .ok store =>
    let isLibrary := Text.startsWith k.path c.libraryLocation
    ({ s with store := store }.tell (.event (.fileLoaded url k.path text.length isLibrary))).conclude
      i (.ok k.path)

/-- Goes on with a draft whose pending tasks have ended: asks for what the specifiers name, or
ends the rewriting (the second `gather` of `SourceTransformer.transform`, and its end). -/
def advance (c : Setting σ) (s : State σ) (i : Nat) (k : Claim) (d : Draft) : State σ :=
  match d.rest with
  | some tree =>
    match Rewrite.specifiers d.editor.original tree with
    | .error m => s.conclude i (.error (.module k.url (.foreign (.ofMalformed m))))
    | .ok requests =>
      let (s, places) := s.ask (some i) (requests.map (demandOf d.source.url))
      s.enter i (.rewriting k { d with rest := none, pending := places })
  | none =>
    match d.editor.toText with
    | .error m => s.conclude i (.error (.module k.url (.foreign (.ofMalformed m))))
    | .ok text => s.settle c i k d.source.url text

/-- The step of a task with a draft. The first pending task that failed ends it. -/
def resume (c : Setting σ) (s : State σ) (i : Nat) (k : Claim) (d : Draft) : State σ :=
  match s.failure? d.pending with
  | some e => s.conclude i (.error (.module k.url e))
  | none => if s.allFinished d.pending then s.advance c i k d else s

/-- The step of the task at a place. -/
def step (c : Setting σ) (s : State σ) (i : Nat) : State σ :=
  match s.tasks[i]? with
  | none => s
  | some t =>
    match t.phase with
    | .ready => s.begin c i t.demand
    | .fetching k urls errors => s.fetchNext c i k urls errors
    | .rewriting k d => s.resume c i k d
    | .finished _ => s

/-- The task at a place can advance. -/
def isAwake (s : State σ) (i : Nat) : Bool :=
  match s.tasks[i]? with
  | none => false
  | some t =>
    match t.phase with
    | .ready | .fetching .. => true
    | .rewriting _ d => (s.failure? d.pending).isSome || s.allFinished d.pending
    | .finished _ => false

end State

end ModuleGraph.Loading
