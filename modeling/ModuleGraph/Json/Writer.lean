import ModuleGraph.Json.Basic
import ModuleGraph.Text.Hex
/-!
# Writing JSON

One writer, in two spacings: compact, and with a blank after each comma and colon. Characters
outside ASCII stand for themselves.
-/

namespace ModuleGraph.Json

/-- What stands between items and between a name and its value. -/
structure Spacing where
  comma : String
  colon : String
  deriving DecidableEq, Repr

/-- No blanks at all. -/
def compact : Spacing := ⟨",", ":"⟩

/-- A blank after each comma and colon. -/
def spaced : Spacing := ⟨", ", ": "⟩

/-- One character of a string. -/
def escapedChar (c : Char) : List Char :=
  if c = '"' then ['\\', '"']
  else if c = '\\' then ['\\', '\\']
  else if c = '\n' then ['\\', 'n']
  else if c = '\r' then ['\\', 'r']
  else if c = '\t' then ['\\', 't']
  else if c = '\x08' then ['\\', 'b']
  else if c = '\x0c' then ['\\', 'f']
  else if c.toNat < 0x20 then '\\' :: 'u' :: Hex.digits 4 c.toNat
  else [c]

/-- A string between its quotes. -/
def writeString (s : String) : String := .ofList ('"' :: s.toList.flatMap escapedChar ++ ['"'])

/-- A decimal as its digits and its exponent. -/
def writeDecimal (d : Decimal) : String :=
  (if d.negative then "-" else "") ++ toString d.digits ++ "e" ++ toString d.exponent

mutual

/-- The text of a value. -/
def write (sp : Spacing) : Json → String
  | .null => "null"
  | .bool true => "true"
  | .bool false => "false"
  | .int n => toString n
  | .decimal d => writeDecimal d
  | .nan => "NaN"
  | .infinity negative => if negative then "-Infinity" else "Infinity"
  | .str s => writeString s
  | .arr items => "[" ++ sp.comma.intercalate (writeItems sp items) ++ "]"
  | .obj members => "\x7b" ++ sp.comma.intercalate (writeMembers sp members) ++ "\x7d"

/-- The texts of the items. -/
def writeItems (sp : Spacing) : List Json → List String
  | [] => []
  | v :: r => write sp v :: writeItems sp r

/-- The texts of the members. -/
def writeMembers (sp : Spacing) : List (String × Json) → List String
  | [] => []
  | (name, v) :: r => (writeString name ++ sp.colon ++ write sp v) :: writeMembers sp r

end

/-- The members in the order of their names. -/
def sortMembers (members : List (String × Json)) : List (String × Json) :=
  members.mergeSort fun a b => !(b.1 < a.1)

mutual

/-- The value with the members of every object in the order of their names. -/
def sortNames : Json → Json
  | .arr items => .arr (sortNamesItems items)
  | .obj members => .obj (sortMembers (sortNamesMembers members))
  | v => v

/-- The items, each with its names in order. -/
def sortNamesItems : List Json → List Json
  | [] => []
  | v :: r => sortNames v :: sortNamesItems r

/-- The members, each with the names of its value in order. -/
def sortNamesMembers : List (String × Json) → List (String × Json)
  | [] => []
  | (name, v) :: r => (name, sortNames v) :: sortNamesMembers r

end

end ModuleGraph.Json
