import ModuleGraph.Syntax.Script
/-!
# Directives in a text

A text may refer to modules outside its statements: the pragma `@jsxImportSource` names the
module of the JSX runtime, a reference with a path names another file, a reference with a library
names a default library. All three are found by their letters alone, wherever they stand, also
inside strings and comments. White space means that of ASCII.
-/

namespace ModuleGraph.Directive

/-- A stretch of a text: its bytes and its characters. -/
structure Found where
  start : Nat
  stop : Nat
  value : String
  deriving DecidableEq, Repr, Inhabited

/-- White space of ASCII. -/
def isBlank (c : Char) : Bool :=
  c = ' ' || c = '\t' || c = '\n' || c = '\r' || c = '\x0b' || c = '\x0c'

/-- The word that begins the pragma. -/
def pragmaWord : List Char := "@jsxImportSource".toList

/-- The value of a pragma that stands at the head of the list, which begins at byte `pos`. -/
def pragmaAt? (pos : Nat) (cs : List Char) : Option Found := do
  let r ← Syntax.Peg.afterText? pragmaWord cs
  let blanks := r.takeWhile isBlank
  let value := (r.dropWhile isBlank).takeWhile fun c => !isBlank c
  if blanks.isEmpty || value.isEmpty then none
  else
    let start := pos + pragmaWord.length + blanks.length
    some ⟨start, start + Utf8.width value, .ofList value⟩

/-- The value of the first pragma from byte `pos` on. -/
def pragmaFrom (pos : Nat) : List Char → Option Found
  | [] => none
  | c :: r =>
    match pragmaAt? pos (c :: r) with
    | some f => some f
    | none => pragmaFrom (pos + c.utf8Size) r

/-- The value of the first pragma of a text (`JSX_IMPORT_SOURCE_RE`). -/
def pragma? (text : String) : Option Found := pragmaFrom 0 text.toList

/-- What a reference may give. -/
inductive Attribute where
  | path
  | lib
  deriving DecidableEq, Repr

/-- The word of an attribute with its sign and quote. -/
def Attribute.opening : Attribute → List Char
  | path => "path=\"".toList
  | lib => "lib=\"".toList

/-- A reference that stands at the head of the list, at the beginning of a line: its value, and
the number of its characters. -/
def referenceAt? (named : Attribute) (pos : Nat) (cs : List Char) : Option (Found × Nat) := do
  let r ← Syntax.Peg.afterText? "///".toList (cs.dropWhile isBlank)
  let r ← Syntax.Peg.afterText? "<reference".toList (r.dropWhile isBlank)
  let blanks := r.takeWhile isBlank
  if blanks.isEmpty then failure
  let r ← Syntax.Peg.afterText? named.opening (r.dropWhile isBlank)
  let start := pos + Utf8.width (cs.take (cs.length - r.length))
  let value := r.takeWhile (· ≠ '"')
  if value.isEmpty then failure
  let r ← Syntax.Peg.afterText? ['"'] (r.drop value.length)
  let r ← Syntax.Peg.afterText? "/>".toList (r.dropWhile isBlank)
  return (⟨start, start + Utf8.width value, .ofList value⟩, cs.length - r.length)

/-- The references from byte `pos` on. `skip` characters belong to a reference already found;
`lineStart` tells that a line begins here. -/
def referencesFrom (named : Attribute) :
    (skip : Nat) → (lineStart : Bool) → (pos : Nat) → List Char → List Found
  | _, _, _, [] => []
  | skip + 1, _, pos, c :: r => referencesFrom named skip (c = '\n') (pos + c.utf8Size) r
  | 0, lineStart, pos, c :: r =>
    match if lineStart then referenceAt? named pos (c :: r) else none with
    | some (f, n) =>
      f :: referencesFrom named (n - 1) (c = '\n') (pos + c.utf8Size) r
    | none => referencesFrom named 0 (c = '\n') (pos + c.utf8Size) r

/-- The references of a text with this attribute, in their order (`PATH_REFERENCE_RE`,
`LIB_REFERENCE_RE`). -/
def references (named : Attribute) (text : String) : List Found :=
  referencesFrom named 0 true 0 text.toList

end ModuleGraph.Directive
