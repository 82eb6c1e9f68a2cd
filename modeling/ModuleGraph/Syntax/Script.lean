import ModuleGraph.Syntax.Grammar
import ModuleGraph.Text.Affix
import ModuleGraph.Text.Case
import ModuleGraph.Text.Utf8
/-!
# Parsed scripts

A script is read in the dialect that its file name selects. It is read strictly first; if that
fails, it is read once more with its malformed stretches passed over, so that the statements
around them are still found.
-/

namespace ModuleGraph.Syntax

/-- Endings of files with tags in expressions. -/
def tagExtensions : List String := [".tsx", ".jsx", ".js", ".mjs", ".cjs"]

/-- The dialect that a file name selects (`language_for`). -/
def Dialect.ofFileName (name : String) : Dialect :=
  if tagExtensions.any (Text.endsWith (Text.lower name) ·) then .tags else .plain

mutual

/-- A malformed stretch is somewhere in the tree (`SourceFile.has_errors`). -/
def Tree.hasErrors : Tree → Bool
  | .node kind _ _ _ _ children => kind = "ERROR" || Tree.anyErrors children

/-- A malformed stretch is somewhere in the trees. -/
def Tree.anyErrors : List Tree → Bool
  | [] => false
  | t :: r => Tree.hasErrors t || Tree.anyErrors r

end

/-- Enough fuel for a text of this many characters. -/
def fuelFor (size : Nat) : Nat := 400 * (size + 10)

/-- Reads a whole script. -/
def readScript (how : Reading) (cs : List Char) : Option (List Tree × Cursor) :=
  Peg.run Grammar.rules how (fuelFor cs.length) (.rule .program) ⟨cs, 0⟩

/-- A statement ends in a malformed text: it has a semicolon, and no tag opens before it, behind
which everything is text. -/
def endsStatement (dialect : Dialect) : List Char → Bool
  | [] => false
  | ';' :: _ => true
  | '<' :: r => if dialect = .tags && wordHead r then false else endsStatement dialect r
  | _ :: r => endsStatement dialect r
where
  /-- A word is at the head of the list. -/
  wordHead : List Char → Bool
    | c :: _ => c.isAlpha
    | [] => false

/-- Something of a script could be read: a node that is no malformed stretch, or the end of a
statement. -/
def isPartlyRead (dialect : Dialect) (cs : List Char) (children : List Tree) : Bool :=
  !children.any (fun t => t.kind = "ERROR") ||
    children.any (fun t => t.kind ≠ "ERROR" && t.kind ≠ "comment") || endsStatement dialect cs

/-- The root over the nodes of a script: it begins with the first lexeme or comment and ends with
the text. It stands for an error where nothing of the script could be read. -/
def rootOver (dialect : Dialect) (cs : List Char) (children : List Tree) : Tree :=
  let stop := Utf8.width cs
  let start := match children with
    | t :: _ => t.start
    | [] => stop
  let kind := if isPartlyRead dialect cs children then "program" else "ERROR"
  .node kind start stop none true children

/-- The syntax tree of a text (`parse_bytes`). -/
def parse (dialect : Dialect) (text : String) : Tree :=
  let cs := text.toList
  match readScript ⟨dialect, false⟩ cs with
  | some (children, _) => rootOver dialect cs children
  | none =>
    match readScript ⟨dialect, true⟩ cs with
    | some (children, _) => rootOver dialect cs children
    | none =>
      let stop := Utf8.width cs
      .node "ERROR" 0 stop none true [.node "ERROR" 0 stop none true []]

end ModuleGraph.Syntax
