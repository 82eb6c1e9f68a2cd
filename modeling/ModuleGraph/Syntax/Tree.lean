/-!
# Syntax trees and the specifiers in them

A node of a syntax tree has a kind, a range of bytes, the name of the field it fills in its
parent, and children. The module specifiers of a file are found by walking its tree: an import or
export statement holds one in its source field, a call of `import` in its first argument.
-/

namespace ModuleGraph.Syntax

/-- A node of a syntax tree. Nodes that stand for a fixed word or sign have no name. -/
inductive Tree where
  | node (kind : String) (start stop : Nat) (field : Option String) (named : Bool)
      (children : List Tree)
  deriving Inhabited, Repr

namespace Tree

/-- What a node is. -/
def kind : Tree → String
  | node k _ _ _ _ _ => k

/-- The position of a node's first byte. -/
def start : Tree → Nat
  | node _ s _ _ _ _ => s

/-- The position after a node's last byte. -/
def stop : Tree → Nat
  | node _ _ e _ _ _ => e

/-- The field that a node fills in its parent. -/
def field : Tree → Option String
  | node _ _ _ f _ _ => f

/-- The node stands for more than a fixed word or sign. -/
def isNamed : Tree → Bool
  | node _ _ _ _ n _ => n

/-- The nodes below a node. -/
def children : Tree → List Tree
  | node _ _ _ _ _ cs => cs

/-- The child that fills a field. -/
def childBy? (t : Tree) (name : String) : Option Tree :=
  t.children.find? fun c => c.field = some name

/-- The first child that has a name. -/
def firstNamed? (t : Tree) : Option Tree := t.children.find? isNamed

/-- The range of a string literal's content, without its quotes (`string_content_span`). -/
def contentSpan? (t : Tree) : Option (Nat × Nat) :=
  if t.kind = "string" ∧ 2 ≤ t.stop - t.start then some (t.start + 1, t.stop - 1) else none

/-- The node that holds a module specifier, if the node is of a kind that has one
(`SPECIFIER_EXTRACTORS`). -/
def specifierNode? (t : Tree) : Option Tree :=
  if t.kind = "import_statement" ∨ t.kind = "export_statement" then t.childBy? "source"
  else if t.kind = "call_expression" then do
    let callee ← t.childBy? "function"
    if callee.kind ≠ "import" then none
    else (← t.childBy? "arguments").firstNamed?
  else none

/-- The range of the specifier that a node holds, unless it is empty. -/
def specifierSpan? (t : Tree) : Option (Nat × Nat) :=
  (t.specifierNode?.bind contentSpan?).filter fun s => s.1 < s.2

mutual

/-- The number of nodes of a tree. -/
def size : Tree → Nat
  | node _ _ _ _ _ cs => sizeList cs + 1

/-- The number of nodes of the trees of a list. -/
def sizeList : List Tree → Nat
  | [] => 0
  | t :: r => size t + sizeList r

end

theorem sizeList_append (a b : List Tree) : sizeList (a ++ b) = sizeList a + sizeList b := by
  induction a with
  | nil => simp [sizeList]
  | cons t r ih => simp [sizeList, ih, Nat.add_assoc]

/-- Walks the trees of a stack: the top one is visited, and its children take its place, the first
one on top (the loop of `find_module_specifiers`). -/
def walk : (stack : List Tree) → List (Nat × Nat)
  | [] => []
  | t :: rest => (specifierSpan? t).toList ++ walk (t.children ++ rest)
termination_by stack => sizeList stack
decreasing_by
  cases t
  simp [sizeList_append, sizeList, size, children]

/-- The ranges of the specifiers in a tree, in the order of the source
(`find_module_specifiers`). -/
def specifierSpans (root : Tree) : List (Nat × Nat) := walk [root]

mutual

/-- The ranges of the specifiers in a tree by recursion: that of the node itself, then those of
its children from left to right. -/
def preorder : Tree → List (Nat × Nat)
  | node k s e f n cs => (specifierSpan? (node k s e f n cs)).toList ++ preorderList cs

/-- The ranges of the specifiers in the trees of a list. -/
def preorderList : List Tree → List (Nat × Nat)
  | [] => []
  | t :: r => preorder t ++ preorderList r

end

end Tree

end ModuleGraph.Syntax
