import ModuleGraph.Text.Utf8
/-!
# Percent escapes

A path is written with an escape for every byte that is not a letter, a digit or one of
`_ . - ~ /`, and read back by undoing every well-formed escape. Escaped bytes are read as UTF-8,
with U+FFFD for what is malformed; an escape that is malformed itself stays as it is.
-/

namespace ModuleGraph.Url

/-- The characters that stand for themselves in a written path. -/
def isPlain (c : Char) : Bool :=
  c.isAlphanum || c = '_' || c = '.' || c = '-' || c = '~' || c = '/'

/-- One byte of a written path. -/
def escapeByte (b : UInt8) : List Char :=
  let c := Char.ofNat b.toNat
  if b.toNat < 0x80 && isPlain c then [c]
  else ['%', Hex.upperDigit (b.toNat / 16), Hex.upperDigit (b.toNat % 16)]

/-- A path as it is written in a URL. -/
def escapePath (path : String) : String := .ofList ((Utf8.encode path).flatMap escapeByte)

/-- The bytes of a run of ASCII characters with its escapes undone. -/
def unescapeBytes : List Char → List UInt8
  | [] => []
  | '%' :: a :: b :: r =>
    match Hex.digitValue? a, Hex.digitValue? b with
    | some h, some l => UInt8.ofNat (16 * h + l) :: unescapeBytes r
    | _, _ => 0x25 :: unescapeBytes (a :: b :: r)
  | c :: r => UInt8.ofNat c.toNat :: unescapeBytes r

/-- The characters of a run of ASCII characters with its escapes undone. -/
def unescapeRun (run : List Char) : List Char := (Utf8.decodeLossy (unescapeBytes run)).toList

/-- Every run of ASCII characters with its escapes undone; `run` is the one begun before the
list, last character first. -/
def unescapeFrom (run : List Char) : List Char → List Char
  | [] => unescapeRun run.reverse
  | c :: r =>
    if c.toNat < 0x80 then unescapeFrom (c :: run) r
    else unescapeRun run.reverse ++ c :: unescapeFrom [] r

/-- The characters with escapes undone. -/
def unescape (cs : List Char) : List Char := unescapeFrom [] cs

end ModuleGraph.Url
