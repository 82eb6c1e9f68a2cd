import ModuleGraph.Braces
import ModuleGraph.FileTree.Basic
import ModuleGraph.FileTree.Wildcard
/-!
# Finding files by pattern

A pattern for paths is a list of segments, each of which leads from a directory to what stands in
it: a name, a pattern for names, `..` for the directory above, or `**` for the directory itself
and all directories below it. Every segment but the last leads through directories only.

What is found is a set of paths. A path that leads through `..` is not the same as the shorter
path to the same place.
-/

namespace ModuleGraph.FileTree

/-- A segment of a pattern. -/
inductive Segment where
  | anyDepth
  | above
  | name (n : List Char)
  | pattern (ps : List Wildcard)
  deriving DecidableEq, Repr

/-- A pattern for paths; `onlyDirectories` is set if it ends in a slash. -/
structure Pattern where
  segments : List Segment
  onlyDirectories : Bool
  deriving DecidableEq, Repr

namespace Pattern

/-- A pattern without a text. -/
def emptyRefusal : Foreign := .invalidValue "Unacceptable pattern: ''"

/-- A pattern from the root. -/
def absoluteRefusal : Foreign := ⟨"NotImplementedError", "Non-relative patterns are unsupported"⟩

/-- A pattern without segments. -/
def noSegmentsRefusal : Foreign := ⟨"IndexError", "tuple index out of range"⟩

/-- A pattern that has only a slash behind it. -/
def onlySlashRefusal : Foreign :=
  ⟨"AttributeError", "'_TerminatingSelector' object has no attribute 'select_from'"⟩

/-- A segment that goes on before or after `**`. -/
def anyDepthRefusal : Foreign :=
  .invalidValue "Invalid pattern: '**' can only be an entire path component"

/-- The segment that a text stands for. -/
def segmentOf (cs : List Char) : Except Foreign Segment :=
  if cs = ['*', '*'] then .ok .anyDepth
  else if cs = ['.', '.'] then .ok .above
  else if Text.hasInfix ['*', '*'] cs then .error anyDepthRefusal
  else if Wildcard.isPattern cs then .ok (.pattern (Wildcard.parse cs))
  else .ok (.name cs)

/-- The pattern that a text stands for. -/
def parse (s : String) : Except Foreign Pattern := do
  let cs := s.toList
  let slashEnd := cs.getLast? = some '/'
  if cs.isEmpty then throw emptyRefusal
  if cs.head? = some '/' then throw absoluteRefusal
  match FilePath.components cs with
  | [] => throw (if slashEnd then onlySlashRefusal else noSegmentsRefusal)
  | parts => return ⟨← parts.mapM segmentOf, slashEnd⟩

end Pattern

/-- A path that was found: as it was reached, and the components that it leads to. -/
structure Found where
  reached : List (List Char)
  place : List (List Char)
  deriving DecidableEq, Repr

namespace Found

/-- One more name. -/
def enter (f : Found) (name : List Char) : Found := ⟨f.reached ++ [name], f.place ++ [name]⟩

/-- The directory above. -/
def leave (f : Found) : Found := ⟨f.reached ++ [['.', '.']], f.place.dropLast⟩

end Found

/-- The directories at and below a directory. -/
def directoriesFrom (t : FileTree) (f : Found) : List Found :=
  f :: t.nodes.filterMap fun (components, n) =>
    if n = .directory && f.place.isPrefixOf components && f.place.length < components.length then
      let below := components.drop f.place.length
      some ⟨f.reached ++ below, f.place ++ below⟩
    else none

/-- What is found from a directory on. -/
def select (t : FileTree) (onlyDirectories : Bool) : List Segment → Found → List Found
  | [], f => [f]
  | segment :: r, f =>
    let fits := fun (g : Found) =>
      if onlyDirectories || !r.isEmpty then t.isDirectoryAt g.place else (t.get? g.place).isSome
    match segment with
    | .anyDepth => ((t.directoriesFrom f).flatMap (t.select onlyDirectories r)).eraseDups
    | .above => t.select onlyDirectories r f.leave
    | .name n => if fits (f.enter n) then t.select onlyDirectories r (f.enter n) else []
    | .pattern ps =>
      (((t.namesIn f.place).filter (Wildcard.fits ps)).map f.enter).flatMap fun g =>
        if fits g then t.select onlyDirectories r g else []

/-- What a pattern finds from the directory with these components on. -/
def glob (t : FileTree) (directory : List (List Char)) (pattern : String) :
    Except Foreign (List Found) :=
  (Pattern.parse pattern).map fun p =>
    if t.isDirectoryAt directory then t.select p.onlyDirectories p.segments ⟨[], directory⟩ else []

/-- The files that a pattern with alternatives finds, in the order of the components by which they
were reached. -/
def filesMatching (t : FileTree) (directory : List (List Char)) (pattern : String) :
    Except Foreign (List (List (List Char))) := do
  let found ← (Braces.expand pattern).mapM (t.glob directory)
  let files := (found.flatten.filter fun f => t.isFileAt f.place).eraseDups
  return (files.mergeSort fun a b => !decide (b.reached < a.reached)).map Found.place

end ModuleGraph.FileTree
