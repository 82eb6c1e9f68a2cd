import ModuleGraph.Fault
import ModuleGraph.Text.Affix
import ModuleGraph.Text.Utf8
/-!
# Character sets

The text of a response body, as it is read where the program runs. The header `content-type` may
name a character set; one that is none of these, or none at all, counts as UTF-8. What is malformed
is read as U+FFFD. A set whose order of bytes is marked at the beginning has no text without the
mark.
-/

namespace ModuleGraph.Fetch

/-- The character sets that are known. -/
inductive Charset where
  | utf8
  | utf8Marked
  | utf16
  | utf16Little
  | utf16Big
  | ascii
  | latin1
  | latin9
  | windows1252
  /-- The set in which nothing can be read. -/
  | undefined
  deriving DecidableEq, Repr

namespace Charset

/-- The names of the character sets. -/
def names : List (Charset × List String) :=
  [(utf8, ["utf_8", "u8", "utf", "utf8", "cp65001"]),
   (utf8Marked, ["utf_8_sig"]),
   (utf16, ["utf_16", "u16", "utf16"]),
   (utf16Little, ["utf_16_le", "utf_16le", "unicodelittleunmarked"]),
   (utf16Big, ["utf_16_be", "utf_16be", "unicodebigunmarked"]),
   (ascii, ["ascii", "646", "ansi_x3.4_1968", "ansi_x3_4_1968", "ansi_x3.4_1986", "cp367", "csascii",
     "ibm367", "iso646_us", "iso_646.irv_1991", "iso_ir_6", "us", "us_ascii"]),
   (latin1, ["latin_1", "8859", "cp819", "csisolatin1", "ibm819", "iso8859", "iso8859_1",
     "iso_8859_1", "iso_8859_1_1987", "iso_ir_100", "l1", "latin", "latin1"]),
   (latin9, ["iso8859_15", "iso_8859_15", "latin9", "l9"]),
   (windows1252, ["cp1252", "1252", "windows_1252"]), (undefined, ["undefined"])]

/-- A name with single underscores in the place of everything but letters, digits and points. -/
def plainName : List Char → List Char
  | [] => []
  | c :: r =>
    let isPlain := fun (c : Char) => c.isAlphanum || c = '.'
    if isPlain c then c.toLower :: plainName r
    else match plainName r with
      | '_' :: s => '_' :: s
      | s => '_' :: s

/-- The character set of a name. -/
def ofName? (name : String) : Option Charset :=
  let plain := String.ofList (plainName name.toList)
  (names.find? fun e => e.2.contains plain).map Prod.fst

/-- White space around the parts of a header. -/
def isBlank (c : Char) : Bool := c = ' ' || c = '\t'

/-- A text without quotes around it. -/
def unquote (cs : List Char) : List Char :=
  if 2 ≤ cs.length && cs.head? = some '"' && cs.getLast? = some '"' then (cs.drop 1).dropLast else cs

/-- The character set that a media type names, if it is known. -/
def ofMediaType? (mediaType : String) : Option Charset :=
  (Text.piecesAt ';' mediaType.toList).findSome? fun part =>
    match Text.cutAt '=' part with
    | some (name, value) =>
      let name := (Text.trim isBlank (.ofList name)).toList.map Char.toLower
      if name = "charset".toList then
        ofName? (.ofList (unquote (Text.trim isBlank (.ofList value)).toList))
      else none
    | none => none

/-- What is read where nothing can be read. -/
def replacement : Char := Char.ofNat 0xFFFD

/-- The characters of the upper half of two sets that differ from the first set of ISO 8859. -/
def windowsUpper : List Nat :=
  [0x20AC, 0xFFFD, 0x201A, 0x192, 0x201E, 0x2026, 0x2020, 0x2021, 0x2C6, 0x2030, 0x160, 0x2039,
   0x152, 0xFFFD, 0x17D, 0xFFFD, 0xFFFD, 0x2018, 0x2019, 0x201C, 0x201D, 0x2022, 0x2013, 0x2014,
   0x2DC, 0x2122, 0x161, 0x203A, 0x153, 0xFFFD, 0x17E, 0x178]

/-- The characters in which the ninth Latin set differs from the first. -/
def latin9Changes : List (Nat × Nat) :=
  [(0xA4, 0x20AC), (0xA6, 0x160), (0xA8, 0x161), (0xB4, 0x17D), (0xB8, 0x17E), (0xBC, 0x152),
   (0xBD, 0x153), (0xBE, 0x178)]

/-- What stands for a unit of which only one byte is there. -/
def halfUnit : Nat := 0x10000

/-- The units of 16 bits in a sequence of bytes. -/
def units (big : Bool) : List UInt8 → List Nat
  | [] => []
  | [_] => [halfUnit]
  | a :: b :: r =>
    (if big then a.toNat * 256 + b.toNat else b.toNat * 256 + a.toNat) :: units big r

/-- The character of a unit that is no part of a pair. -/
def ofUnit (n : Nat) : Char :=
  if (0xD800 ≤ n ∧ n ≤ 0xDFFF) ∨ halfUnit ≤ n then replacement else Char.ofNat n

/-- The characters of units of 16 bits. A pair that breaks off is one malformed character. -/
def ofUnits : List Nat → List Char
  | [] => []
  | [n] => [ofUnit n]
  | h :: l :: r =>
    if 0xD800 ≤ h ∧ h ≤ 0xDBFF ∧ 0xDC00 ≤ l ∧ l ≤ 0xDFFF then
      Char.ofNat (0x10000 + (h - 0xD800) * 1024 + (l - 0xDC00)) :: ofUnits r
    else if 0xD800 ≤ h ∧ h ≤ 0xDBFF ∧ l = halfUnit then [replacement]
    else ofUnit h :: ofUnits (l :: r)

/-- The text of a body in a set with one byte for each character. -/
def single (f : Nat → Char) (bytes : List UInt8) : String := .ofList (bytes.map fun b => f b.toNat)

/-- What a body without a text is, seen from outside. -/
def noText (said : String) : Foreign := ⟨"UnicodeError", said⟩

/-- The text of a body. -/
def decode (charset : Charset) (bytes : List UInt8) : Except Foreign String :=
  match charset with
  | utf8 => .ok (Utf8.decodeLossy bytes)
  | utf8Marked =>
    .ok (Utf8.decodeLossy (if bytes.take 3 = [0xEF, 0xBB, 0xBF] then bytes.drop 3 else bytes))
  | utf16 =>
    if bytes.take 2 = [0xFE, 0xFF] then .ok (.ofList (ofUnits (units true (bytes.drop 2))))
    else if bytes.take 2 = [0xFF, 0xFE] then .ok (.ofList (ofUnits (units false (bytes.drop 2))))
    else if 2 ≤ bytes.length then .error (noText "UTF-16 stream does not start with BOM")
    else .ok (.ofList (ofUnits (units false bytes)))
  | utf16Little => .ok (.ofList (ofUnits (units false bytes)))
  | utf16Big => .ok (.ofList (ofUnits (units true bytes)))
  | ascii => .ok (single (fun n => if n < 0x80 then Char.ofNat n else replacement) bytes)
  | latin1 => .ok (single Char.ofNat bytes)
  | latin9 => .ok (single (fun n => Char.ofNat ((latin9Changes.lookup n).getD n)) bytes)
  | windows1252 =>
    .ok (single (fun n =>
      if 0x80 ≤ n ∧ n < 0xA0 then Char.ofNat ((windowsUpper[n - 0x80]?).getD 0xFFFD)
      else Char.ofNat n) bytes)
  | undefined => .error (noText "undefined encoding")

end Charset

end ModuleGraph.Fetch
