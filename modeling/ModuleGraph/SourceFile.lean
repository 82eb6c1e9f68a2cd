import ModuleGraph.Host
import ModuleGraph.Syntax.Script
/-!
# Files as a compiler reads them

A compiler asks its host for a file together with its syntax tree.
-/

namespace ModuleGraph

/-- A file that was read, with its syntax tree. -/
structure SourceFile where
  fileName : String
  text : String
  tree : Syntax.Tree
  deriving Inhabited

namespace SourceFile

/-- The parsed form of a text under a file name (`create_source_file`). -/
def ofText (fileName text : String) : SourceFile :=
  ⟨fileName, text, Syntax.parse (.ofFileName fileName) text⟩

end SourceFile

/-- Reads and parses a path: the file if the path is answered, and what observers are told
(`VfsHost.get_source_file`). -/
def Host.sourceFile (h : Host) (path : String) :
    Except Fault (Option SourceFile × List Event) :=
  (h.read path).map fun p => (p.1.map (SourceFile.ofText path), p.2)

end ModuleGraph
