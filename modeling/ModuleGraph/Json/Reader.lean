import ModuleGraph.Json.Basic
import ModuleGraph.Text.Hex
/-!
# Reading JSON

A reader for whole documents. A document that is refused is refused with the first problem and
its place. Names and rules: white space is blank, tab, line feed and carriage return; strings
hold no control characters; an escaped pair of surrogates is one character; `NaN`, `Infinity`
and `-Infinity` are numbers; of several members of one name the last counts.

A reader can take only so much: whole numbers with too many digits and parts that stand too deep
are refused as well, with no place.
-/

namespace ModuleGraph.Json

/-- What can be wrong with a document. -/
inductive Problem where
  | byteOrderMark
  | expectingValue
  | expectingName
  | expectingColon
  | expectingComma
  | unterminatedString
  | controlCharacter
  | invalidEscape
  | invalidCodeEscape
  | extraData
  /-- A whole number with more digits than the reader takes. -/
  | tooManyDigits (limit count : Nat)
  /-- An array or an object below more open ones than the reader takes. -/
  | tooDeep (part : String)
  deriving DecidableEq, Repr

/-- The document is not malformed: it asks for more than the reader takes. -/
def Problem.isLimit : Problem → Bool
  | .tooManyDigits .. | .tooDeep _ => true
  | _ => false

/-- How much a reader takes: digits of a whole number, and parts that stand open at a time. -/
structure Limits where
  digits : Nat
  depth : Nat
  deriving DecidableEq, Repr

namespace Limits

/-- The limits of a caller that itself stands at the usual depth. -/
def usual : Limits := ⟨4300, 980⟩

/-- Limits that no document of this length oversteps. -/
def beyond (length : Nat) : Limits := ⟨length, length⟩

end Limits

/-- What is said about a problem. -/
def Problem.message : Problem → String
  | .byteOrderMark => "Unexpected UTF-8 BOM (decode using utf-8-sig)"
  | .expectingValue => "Expecting value"
  | .expectingName => "Expecting property name enclosed in double quotes"
  | .expectingColon => "Expecting ':' delimiter"
  | .expectingComma => "Expecting ',' delimiter"
  | .unterminatedString => "Unterminated string starting at"
  | .controlCharacter => "Invalid control character at"
  | .invalidEscape => "Invalid \\escape"
  | .invalidCodeEscape => "Invalid \\uXXXX escape"
  | .extraData => "Extra data"
  | .tooManyDigits limit count =>
    "Exceeds the limit (" ++ toString limit ++
      " digits) for integer string conversion: value has " ++ toString count ++
      " digits; use sys.set_int_max_str_digits() to increase the limit"
  | .tooDeep part =>
    "maximum recursion depth exceeded while decoding a JSON " ++ part ++ " from a unicode string"

/-- A problem and the rest of the document from its place on. -/
structure Refusal where
  problem : Problem
  rest : List Char
  deriving DecidableEq, Repr

/-- White space between the parts of a document. -/
def isBlank (c : Char) : Bool := c = ' ' || c = '\t' || c = '\n' || c = '\r'

/-- The document from its next part on. -/
def skipBlanks (cs : List Char) : List Char := cs.dropWhile isBlank

/-- The character that a one-letter escape stands for. -/
def simpleEscape? : Char → Option Char
  | '"' => some '"'
  | '\\' => some '\\'
  | '/' => some '/'
  | 'b' => some '\x08'
  | 'f' => some '\x0c'
  | 'n' => some '\n'
  | 'r' => some '\r'
  | 't' => some '\t'
  | _ => none

/-- The code units of a string whose opening quote stands before the list, and what follows its
closing quote. Units of an escaped surrogate pair are still apart. -/
def readUnits (opening : List Char) : List Char → Except Refusal (List Nat × List Char)
  | [] => .error ⟨.unterminatedString, opening⟩
  | '"' :: r => .ok ([], r)
  | ['\\'] => .error ⟨.unterminatedString, opening⟩
  | '\\' :: 'u' :: r =>
    match r with
    | a :: b :: c :: d :: e :: r' =>
      match Hex.value? [a, b, c, d] with
      | some n => (readUnits opening (e :: r')).map fun p => (n :: p.1, p.2)
      | none => .error ⟨.invalidCodeEscape, 'u' :: r⟩
    | _ => .error ⟨.invalidCodeEscape, 'u' :: r⟩
  | '\\' :: e :: r =>
    match simpleEscape? e with
    | some c => (readUnits opening r).map fun p => (c.toNat :: p.1, p.2)
    | none => .error ⟨.invalidEscape, '\\' :: e :: r⟩
  | c :: r =>
    if c.toNat < 0x20 then .error ⟨.controlCharacter, c :: r⟩
    else (readUnits opening r).map fun p => (c.toNat :: p.1, p.2)

/-- The characters of a list of units: a high surrogate and the low one after it are one
character, a surrogate alone becomes U+FFFD. -/
def charsOfUnits : List Nat → List Char
  | [] => []
  | [n] => [if 0xD800 ≤ n ∧ n ≤ 0xDFFF then Char.ofNat 0xFFFD else Char.ofNat n]
  | h :: l :: r =>
    if 0xD800 ≤ h ∧ h ≤ 0xDBFF ∧ 0xDC00 ≤ l ∧ l ≤ 0xDFFF then
      Char.ofNat (0x10000 + (h - 0xD800) * 0x400 + (l - 0xDC00)) :: charsOfUnits r
    else (if 0xD800 ≤ h ∧ h ≤ 0xDFFF then Char.ofNat 0xFFFD else Char.ofNat h) ::
      charsOfUnits (l :: r)

/-- A string whose opening quote stands before the list. -/
def readString (opening cs : List Char) : Except Refusal (String × List Char) :=
  (readUnits opening cs).map fun p => (.ofList (charsOfUnits p.1), p.2)

/-- The number that a run of decimal digits is. -/
def natOfDigits (cs : List Char) : Nat := cs.foldl (fun n c => n * 10 + (c.toNat - 48)) 0

/-- The whole part of a number: a zero alone, or digits that do not begin with one. -/
def readWhole : List Char → Option (List Char × List Char)
  | '0' :: r => some (['0'], r)
  | cs =>
    match cs.takeWhile Char.isDigit with
    | [] => none
    | ds => some (ds, cs.dropWhile Char.isDigit)

/-- A point and the digits after it; nothing is taken unless a digit follows the point. -/
def readFraction : List Char → List Char × List Char
  | '.' :: r =>
    match r.takeWhile Char.isDigit with
    | [] => ([], '.' :: r)
    | ds => (ds, r.dropWhile Char.isDigit)
  | cs => ([], cs)

/-- The sign and digits of an exponent. -/
def readExponent (cs : List Char) : Option (Int × List Char) :=
  match cs with
  | e :: r =>
    if e = 'e' || e = 'E' then
      let (negative, r') := match r with
        | '-' :: t => (true, t)
        | '+' :: t => (false, t)
        | t => (false, t)
      match r'.takeWhile Char.isDigit with
      | [] => none
      | ds =>
        let n : Int := natOfDigits ds
        some (if negative then -n else n, r'.dropWhile Char.isDigit)
    else none
  | [] => none

/-- A number without its sign. -/
def readNumber (negative : Bool) (cs : List Char) : Option (Json × List Char) := do
  let (whole, r) ← readWhole cs
  let (fraction, r) := readFraction r
  match readExponent r, fraction with
  | none, [] =>
    let n : Int := natOfDigits whole
    return (.int (if negative then -n else n), r)
  | none, _ =>
    return (.decimal ⟨negative, natOfDigits (whole ++ fraction), -(fraction.length : Int)⟩, r)
  | some (e, r), _ =>
    return (.decimal ⟨negative, natOfDigits (whole ++ fraction), e - (fraction.length : Int)⟩, r)

/-- A value that is neither a string, an object nor an array. -/
def readScalar (cs : List Char) : Option (Json × List Char) :=
  match cs with
  | 'n' :: 'u' :: 'l' :: 'l' :: r => some (.null, r)
  | 't' :: 'r' :: 'u' :: 'e' :: r => some (.bool true, r)
  | 'f' :: 'a' :: 'l' :: 's' :: 'e' :: r => some (.bool false, r)
  | 'N' :: 'a' :: 'N' :: r => some (.nan, r)
  | 'I' :: 'n' :: 'f' :: 'i' :: 'n' :: 'i' :: 't' :: 'y' :: r => some (.infinity false, r)
  | '-' :: 'I' :: 'n' :: 'f' :: 'i' :: 'n' :: 'i' :: 't' :: 'y' :: r => some (.infinity true, r)
  | '-' :: r => readNumber true r
  | _ => readNumber false cs

/-- What stands behind a minus sign. -/
def unsigned : List Char → List Char
  | '-' :: r => r
  | cs => cs

/-- How many digits a whole number at the head of the list has. -/
def wholeDigits (cs : List Char) : Nat :=
  match readWhole (unsigned cs) with
  | some (ds, _) => ds.length
  | none => 0

/-- A scalar at the head of the list and what follows it. -/
def readBounded (digits : Nat) (cs : List Char) : Except Refusal (Json × List Char) :=
  match readScalar cs with
  | some (.int n, r) =>
    if digits < wholeDigits cs then .error ⟨.tooManyDigits digits (wholeDigits cs), cs⟩
    else .ok (.int n, r)
  | some p => .ok p
  | none => .error ⟨.expectingValue, cs⟩

mutual

/-- A value at the head of the list and what follows it. Every level of nesting and every member
uses one unit of `fuel`; a document has fewer of both than characters. The limits say how many more
parts may be opened. -/
def readValue (limits : Limits) : (fuel : Nat) → List Char → Except Refusal (Json × List Char)
  | 0, cs => .error ⟨.expectingValue, cs⟩
  | fuel + 1, cs =>
    match cs with
    | '"' :: r => (readString cs r).map fun p => (.str p.1, p.2)
    | '\x7b' :: r =>
      match limits.depth with
      | 0 => .error ⟨.tooDeep "object", cs⟩
      | depth + 1 =>
        match skipBlanks r with
        | '\x7d' :: r' => .ok (.obj [], r')
        | r' => readMembers ⟨limits.digits, depth⟩ fuel [] r'
    | '[' :: r =>
      match limits.depth with
      | 0 => .error ⟨.tooDeep "array", cs⟩
      | depth + 1 =>
        match skipBlanks r with
        | ']' :: r' => .ok (.arr [], r')
        | r' => readItems ⟨limits.digits, depth⟩ fuel [] r'
    | _ => readBounded limits.digits cs

/-- The members of an object from a member name on; `done` are those before it. -/
def readMembers (limits : Limits) : (fuel : Nat) → (done : List (String × Json)) → List Char →
    Except Refusal (Json × List Char)
  | 0, _, cs => .error ⟨.expectingName, cs⟩
  | fuel + 1, done, cs =>
    match cs with
    | '"' :: r => do
      let (name, r) ← readString cs r
      match skipBlanks r with
      | ':' :: r => do
        let (value, r) ← readValue limits fuel (skipBlanks r)
        let done := setMember done name value
        match skipBlanks r with
        | '\x7d' :: r => .ok (.obj done, r)
        | ',' :: r => readMembers limits fuel done (skipBlanks r)
        | r => .error ⟨.expectingComma, r⟩
      | r => .error ⟨.expectingColon, r⟩
    | _ => .error ⟨.expectingName, cs⟩

/-- The items of an array from an item on; `done` are those before it, the last one first. -/
def readItems (limits : Limits) : (fuel : Nat) → (done : List Json) → List Char →
    Except Refusal (Json × List Char)
  | 0, _, cs => .error ⟨.expectingValue, cs⟩
  | fuel + 1, done, cs => do
    let (value, r) ← readValue limits fuel cs
    match skipBlanks r with
    | ']' :: r => .ok (.arr (value :: done).reverse, r)
    | ',' :: r => readItems limits fuel (value :: done) (skipBlanks r)
    | r => .error ⟨.expectingComma, r⟩

end

/-- The value that a whole document is. -/
def readDocument (limits : Limits) (cs : List Char) : Except Refusal Json :=
  match cs with
  | '\uFEFF' :: _ => .error ⟨.byteOrderMark, cs⟩
  | _ => do
    let (value, r) ← readValue limits (cs.length + 1) (skipBlanks cs)
    match skipBlanks r with
    | [] => .ok value
    | r => .error ⟨.extraData, r⟩

/-- A problem with its position in characters, line and column (both from one). -/
structure SyntaxFault where
  problem : Problem
  position : Nat
  line : Nat
  column : Nat
  deriving DecidableEq, Repr

/-- Where the rest `rest` of `document` begins. -/
def SyntaxFault.locate (document : List Char) (r : Refusal) : SyntaxFault :=
  let position := document.length - r.rest.length
  let before := document.take position
  { problem := r.problem
    position
    line := before.count '\n' + 1
    column := (before.reverse.takeWhile (· ≠ '\n')).length + 1 }

/-- The problem, and its place if the document is malformed. -/
def SyntaxFault.message (f : SyntaxFault) : String :=
  if f.problem.isLimit then f.problem.message
  else f.problem.message ++ ": line " ++ toString f.line ++ " column " ++ toString f.column ++
    " (char " ++ toString f.position ++ ")"

/-- The value that a document states, to a reader with these limits. -/
def parse (document : String) (limits : Limits := .usual) : Except SyntaxFault Json :=
  (readDocument limits document.toList).mapError (SyntaxFault.locate document.toList)

/-- Every escaped surrogate of a well-formed document belongs to a pair. -/
def surrogatesPaired : List Char → Bool
  | '\\' :: 'u' :: a :: b :: c :: d :: r =>
    let n := (Hex.value? [a, b, c, d]).getD 0
    if 0xDC00 ≤ n ∧ n ≤ 0xDFFF then false
    else if 0xD800 ≤ n ∧ n ≤ 0xDBFF then
      match r with
      | '\\' :: 'u' :: e :: f :: g :: h :: s =>
        let l := (Hex.value? [e, f, g, h]).getD 0
        0xDC00 ≤ l && l ≤ 0xDFFF && surrogatesPaired s
      | _ => false
    else surrogatesPaired r
  | '\\' :: _ :: r => surrogatesPaired r
  | _ :: r => surrogatesPaired r
  | [] => true

/-- The value that a document of any size states, if all of it is text. -/
def parseStrict (document : String) : Option Json :=
  if surrogatesPaired document.toList then (parse document (.beyond document.length)).toOption
  else none

end ModuleGraph.Json
