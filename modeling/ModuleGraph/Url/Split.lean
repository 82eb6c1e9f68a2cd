import ModuleGraph.Text.Affix
import ModuleGraph.Text.Quoted
import ModuleGraph.Text.Case
import ModuleGraph.Url.Address
/-!
# The parts of a URL

A text is cut into scheme, authority, path, query and fragment. Control characters and blanks at
the beginning are passed over, tabs and line ends are dropped wherever they stand, and every text
has parts unless its authority is malformed.
-/

namespace ModuleGraph.Url

/-- What can be wrong with an authority. -/
inductive Problem where
  /-- A bracket without its partner. -/
  | unbalancedBracket
  /-- The brackets hold a malformed address of a future version. -/
  | futureAddress
  /-- The brackets hold no address. -/
  | notAnAddress (host : String)
  /-- The brackets hold an address of version four. -/
  | version4InBrackets
  /-- A character would turn into a delimiter under compatibility normalisation. -/
  | deceptiveAuthority (authority : String)
  deriving DecidableEq, Repr

/-- What is said about a problem. -/
def Problem.message : Problem → String
  | .unbalancedBracket => "Invalid IPv6 URL"
  | .futureAddress => "IPvFuture address is invalid"
  | .notAnAddress host => Text.quoted host ++ " does not appear to be an IPv4 or IPv6 address"
  | .version4InBrackets => "An IPv4 address cannot be in brackets"
  | .deceptiveAuthority authority =>
    "netloc '" ++ authority ++ "' contains invalid characters under NFKC normalization"

/-- The parts of a URL; a part that is missing is empty. -/
structure Parts where
  scheme : List Char
  authority : List Char
  path : List Char
  query : List Char
  fragment : List Char
  deriving DecidableEq, Repr

/-- Letters of ASCII. -/
def isLetter (c : Char) : Bool := c.isAlpha

/-- Characters of a scheme. -/
def isSchemeChar (c : Char) : Bool := c.isAlphanum || c = '+' || c = '-' || c = '.'

/-- A text that can be a scheme: a letter, then scheme characters. -/
def isScheme : List Char → Bool
  | [] => false
  | c :: r => isLetter c && r.all isSchemeChar

/-- Characters that end an authority. -/
def endsAuthority (c : Char) : Bool := c = '/' || c = '?' || c = '#'

/-- Characters that are dropped wherever they stand. -/
def isLineControl (c : Char) : Bool := c = '\t' || c = '\r' || c = '\n'

/-- The text that is cut into parts. -/
def clean (cs : List Char) : List Char :=
  (cs.dropWhile fun c => c.toNat ≤ 0x20).filter fun c => !isLineControl c

/-- Characters outside ASCII whose compatibility form holds one of `/`, `?`, `#`, `@`, `:`. -/
def deceptiveChars : List Nat :=
  [0x2047, 0x2048, 0x2049, 0x2100, 0x2101, 0x2105, 0x2106, 0x2A74, 0xFE13, 0xFE16, 0xFE55,
   0xFE56, 0xFE5F, 0xFE6B, 0xFF03, 0xFF0F, 0xFF1A, 0xFF1F, 0xFF20]

/-- The scheme, lower-cased and without its colon, and the rest. Without a scheme of its own a
text has the scheme `inherited`. -/
def cutScheme (inherited : List Char) (cs : List Char) : List Char × List Char :=
  match Text.cutAt ':' cs with
  | some (s, r) => if isScheme s then (s.map Char.toLower, r) else (inherited, cs)
  | none => (inherited, cs)

/-- The authority after `//`, and the rest. -/
def cutAuthority : List Char → List Char × List Char
  | '/' :: '/' :: r =>
    (r.takeWhile fun c => !endsAuthority c, r.dropWhile fun c => !endsAuthority c)
  | cs => ([], cs)

/-- What stands before the first `c`, and what stands after it. -/
def cutTail (c : Char) (cs : List Char) : List Char × List Char :=
  match Text.cutAt c cs with
  | some p => p
  | none => (cs, [])

/-- The text between the first opening bracket and the closing one after it. -/
def bracketed (authority : List Char) : List Char :=
  (authority.dropWhile (· ≠ '[')).drop 1 |>.takeWhile (· ≠ ']')

/-- The problem of an authority, if it has one. -/
def authorityProblem (authority : List Char) : Option Problem :=
  let opened := authority.contains '['
  let closed := authority.contains ']'
  if opened != closed then some .unbalancedBracket
  else
    let host := bracketed authority
    let bracketProblem :=
      if !opened then none
      else if host.head? = some 'v' then
        if isFuture host then none else some .futureAddress
      else if isVersion4 host then some .version4InBrackets
      else if isVersion6 host then none
      else some (.notAnAddress (.ofList host))
    bracketProblem <|>
      if authority.any fun c => deceptiveChars.contains c.toNat then
        some (.deceptiveAuthority (.ofList authority))
      else none

/-- The parts of a text without control characters, as seen from a base of scheme `inherited`. -/
def splitClean (inherited : List Char) (cs : List Char) : Except Problem Parts :=
  let (scheme, r) := cutScheme inherited cs
  let (authority, r) := cutAuthority r
  match authorityProblem authority with
  | some p => .error p
  | none =>
    let (r, fragment) := cutTail '#' r
    let (path, query) := cutTail '?' r
    .ok ⟨scheme, authority, path, query, fragment⟩

/-- The parts of a URL (`urlsplit`). -/
def split (url : String) : Except Problem Parts := splitClean [] (clean url.toList)

/-- The scheme of a URL in lower case, empty if it has none (`url_scheme`). -/
def scheme (url : String) : Except Problem String :=
  (split url).map fun p => .ofList p.scheme

end ModuleGraph.Url
