import ModuleGraph.Fault
/-!
# Editing a text in one pass

Rewrites that are found while a file is transformed arrive in any order, but all of them name
byte ranges of the original text. An `Editor` collects them and applies them in one pass, so
that no range is ever recomputed.
-/

namespace ModuleGraph

/-- Put `replacement` in the place of the bytes from `start` to `stop`. -/
structure Edit where
  start : Nat
  stop : Nat
  replacement : List UInt8
  deriving DecidableEq, Repr, Inhabited

/-- A text and the edits recorded for it, in the order in which they came (`TextEditor`). -/
structure Editor where
  original : List UInt8
  recorded : List Edit
  deriving DecidableEq, Repr, Inhabited

namespace Editor

/-- Why an edit is refused. -/
inductive Problem where
  /-- The range is empty, reversed or not inside the text. -/
  | invalidRange (start stop : Int) (size : Nat)
  /-- The range shares a byte with that of a recorded edit. -/
  | overlap (start stop : Int) (other : Edit)
  deriving DecidableEq, Repr

/-- What is said about a refused edit. -/
def Problem.message : Problem → String
  | .invalidRange start stop size =>
    "Invalid range " ++ toString start ++ ":" ++ toString stop ++ " for text of " ++
      toString size ++ " bytes"
  | .overlap start stop other =>
    "Range " ++ toString start ++ ":" ++ toString stop ++ " overlaps " ++ toString other.start ++
      ":" ++ toString other.stop

/-- A text without edits. -/
def ofBytes (original : List UInt8) : Editor := ⟨original, []⟩

/-- The number of recorded edits. -/
def size (e : Editor) : Nat := e.recorded.length

/-- Two ranges share a byte. -/
def clashes (start stop : Nat) (other : Edit) : Bool := start < other.stop && other.start < stop

/-- Records the replacement of the bytes from `start` to `stop` (`TextEditor.overwrite`). -/
def overwrite (e : Editor) (start stop : Int) (replacement : List UInt8) :
    Except Problem Editor :=
  if 0 ≤ start ∧ start < stop ∧ stop ≤ e.original.length then
    match e.recorded.find? (clashes start.toNat stop.toNat) with
    | some other => .error (.overlap start stop other)
    | none => .ok { e with recorded := e.recorded ++ [⟨start.toNat, stop.toNat, replacement⟩] }
  else .error (.invalidRange start stop e.original.length)

/-- The recorded edits in the order of the text (`TextEditor.edits`). -/
def edits (e : Editor) : List Edit := e.recorded.mergeSort fun a b => a.start ≤ b.start

/-- What follows position `cursor` of the text once the edits, in the order of the text, are
applied to it. -/
def spliceFrom (original : List UInt8) (cursor : Nat) : List Edit → List UInt8
  | [] => original.drop cursor
  | d :: r =>
    (original.take d.start).drop cursor ++ d.replacement ++ spliceFrom original d.stop r

/-- The text with every recorded edit applied (`TextEditor.to_bytes`). -/
def toBytes (e : Editor) : List UInt8 := spliceFrom e.original 0 e.edits

/-- The edited text as characters. -/
def toText (e : Editor) : Except Utf8.Malformed String := Utf8.decode e.toBytes

/-- One edit applied to a text on its own. -/
def splice (text : List UInt8) (d : Edit) : List UInt8 :=
  text.take d.start ++ d.replacement ++ text.drop d.stop

end Editor

end ModuleGraph
