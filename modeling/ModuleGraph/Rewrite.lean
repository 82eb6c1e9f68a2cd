import ModuleGraph.Directive
import ModuleGraph.Editor
import ModuleGraph.Event.Basic
import ModuleGraph.ImportMap
/-!
# Pointing a file at virtual paths

The rewriting of one file: which stretches of its text name modules, what each of them resolves
to, and the edits that put virtual paths in their place. The directives come first: the pragma,
the references with a path, the references with a library; then the specifiers of statements and
calls. A stretch that fails to resolve or to load is reported and left as it was.

`run` is the transformer's `transform` with loads that answer at once; where they take time, the
steps of a load task take its place.
-/

namespace ModuleGraph

/-- A stretch of a text that names a module. -/
structure Target where
  start : Nat
  stop : Nat
  specifier : String
  /-- The stretch belongs to a statement or a call, so that a declaration file is named by the
  module that it describes. -/
  importable : Bool
  deriving DecidableEq, Repr, Inhabited

/-- What a file asks for outside its statements. -/
inductive Request where
  /-- A module whose path is written into the text. -/
  | module (target : Target)
  /-- A library, for which nothing is written. -/
  | library (name : String)
  deriving DecidableEq, Repr, Inhabited

namespace Rewrite

/-- The segment behind the value of the pragma (`JSX_RUNTIME_SUFFIX`). -/
def runtimeSegment : String := "/jsx-runtime"

/-- The target of a directive. -/
def ofFound (segment : String) (f : Directive.Found) : Target :=
  ⟨f.start, f.stop, f.value ++ segment, false⟩

/-- What the directives of a text ask for: the pragma, the paths, the libraries. -/
def directives (text : String) : List Request :=
  (Directive.pragma? text).toList.map (fun f => .module (ofFound runtimeSegment f)) ++
    (Directive.references .path text).map (fun f => .module (ofFound "" f)) ++
    (Directive.references .lib text).map fun f => .library f.value

/-- The bytes of a range. -/
def slice (bytes : List UInt8) (span : Nat × Nat) : List UInt8 :=
  (bytes.take span.2).drop span.1

/-- The target of a specifier in the syntax tree. -/
def ofSpan (bytes : List UInt8) (span : Nat × Nat) : Except Utf8.Malformed Target :=
  (Utf8.decode (slice bytes span)).map fun value => ⟨span.1, span.2, value, true⟩

/-- What the statements and calls of a text ask for. -/
def specifiers (bytes : List UInt8) (tree : Syntax.Tree) : Except Utf8.Malformed (List Request) :=
  tree.specifierSpans.mapM fun span => (ofSpan bytes span).map .module

/-- The path as it is written for a target. -/
def written (t : Target) (path : String) : String :=
  if t.importable then importablePath path else path

/-- The report of a target that failed. -/
def report (source : String) (t : Target) (e : Fault) : Event :=
  .specifierFailed t.specifier source (e.describe false)

/-- The edit of a target whose module has the path (the end of `SourceTransformer._rewrite`). -/
def apply (e : Editor) (t : Target) (path : String) : Except Fault Editor :=
  (e.overwrite t.start t.stop (Utf8.encode (written t path))).mapError
    fun p => .foreign (.invalidValue p.message)

/-- What a file asked for while it was rewritten. -/
inductive Call where
  | module (url : String)
  | library (name : String)
  deriving DecidableEq, Repr, Inhabited

/-- How a request ended. -/
structure Step where
  editor : Editor
  events : List Event
  calls : List Call
  /-- What keeps the whole file from being rewritten. -/
  escaped : Option Fault
  deriving Inhabited

/-- The ways of loading that a file is rewritten with. -/
structure Loads where
  module : String → Except Fault String
  library : String → Except Fault Unit

/-- One request, answered at once (`SourceTransformer._rewrite`). -/
def answer (m : ImportMap) (loads : Loads) (source : String) (e : Editor) : Request → Step
  | .library name =>
    match loads.library name with
    | .ok () => ⟨e, [], [.library name], none⟩
    | .error fault => ⟨e, [], [.library name], some fault⟩
  | .module t =>
    match m.resolve source t.specifier with
    | .error fault => ⟨e, [report source t fault], [], none⟩
    | .ok url =>
      match loads.module url with
      | .ok path =>
        match apply e t path with
        | .ok e => ⟨e, [], [.module url], none⟩
        | .error fault => ⟨e, [], [.module url], some fault⟩
      | .error fault =>
        if fault.isOwn then ⟨e, [report source t fault], [.module url], none⟩
        else ⟨e, [], [.module url], some fault⟩

/-- A group of requests, each answered at once (the `gather` of `SourceTransformer.transform`).
All of them are answered; the first fault that escapes counts. -/
def answerAll (m : ImportMap) (loads : Loads) (source : String) (s : Step) (rs : List Request) :
    Step :=
  rs.foldl
    (fun s r =>
      let t := answer m loads source s.editor r
      ⟨t.editor, s.events ++ t.events, s.calls ++ t.calls, s.escaped <|> t.escaped⟩) s

/-- The report of syntax errors in a file. -/
def syntaxEvents (fileName : String) (tree : Syntax.Tree) : List Event :=
  if tree.hasErrors then [.parseErrorsFound fileName] else []

/-- A file rewritten with loads that answer at once: the new text, with what observers are told
and what was asked for (`SourceTransformer.transform`). -/
def run (m : ImportMap) (loads : Loads) (source fileName text : String) :
    Except Fault String × List Event × List Call :=
  let bytes := Utf8.encode text
  let tree := Syntax.parse (.ofFileName fileName) text
  let start : Step := ⟨.ofBytes bytes, syntaxEvents fileName tree, [], none⟩
  let s := answerAll m loads source start (directives text)
  let s := match s.escaped, specifiers bytes tree with
    | some _, _ => s
    | none, .ok rs => answerAll m loads source s rs
    | none, .error p => { s with escaped := some (.foreign (.ofMalformed p)) }
  let result := match s.escaped with
    | some fault => .error fault
    | none => s.editor.toText.mapError fun p => .foreign (.ofMalformed p)
  (result, s.events, s.calls)

end Rewrite

end ModuleGraph
