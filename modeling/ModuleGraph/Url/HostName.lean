import ModuleGraph.Text.Affix
import ModuleGraph.Url.Punycode
/-!
# Names of hosts

A name with characters outside ASCII is a row of labels with full stops between them, each of which
is checked and then written in ASCII. A full stop may be that of another script, and one at the end
of the name stays.
-/

namespace ModuleGraph.Url.HostName

/-- The full stops of the scripts of the world. -/
def fullStops : List Char := ['.', '\u3002', '\uff0e', '\uff61']

/-- The ranges of the letters, marks and digits of the scripts that names are written in. -/
def scripts : List (Nat × Nat) :=
  [(0xDF, 0xF6), (0xF8, 0x131), (0x134, 0x13E), (0x141, 0x148), (0x14A, 0x17E), (0x180, 0x1C3),
    (0x1CD, 0x1F0), (0x1F4, 0x2AF), (0x300, 0x33F), (0x346, 0x34E), (0x371, 0x373),
    (0x377, 0x377), (0x37B, 0x37D), (0x390, 0x3CE), (0x3D7, 0x3EF), (0x3F3, 0x3F3), (0x3F8, 0x3F8),
    (0x3FB, 0x481), (0x483, 0x487), (0x48A, 0x52F), (0x561, 0x586), (0x591, 0x5BD), (0x5D0, 0x5EA),
    (0x610, 0x61A), (0x620, 0x63F), (0x641, 0x669), (0x66E, 0x674), (0x679, 0x6D3), (0x6D5, 0x6DC),
    (0x6EE, 0x6FF), (0x710, 0x74A), (0x900, 0x957), (0x960, 0x963), (0x966, 0x96F), (0x971, 0x9DB),
    (0xE01, 0xE32), (0xE34, 0xE3A), (0xE40, 0xE4E), (0xE50, 0xE59), (0x10D0, 0x10FA),
    (0x1200, 0x135F), (0x1E00, 0x1E99), (0x1EA0, 0x1EFF), (0x3005, 0x3007), (0x3041, 0x3096),
    (0x3099, 0x309A), (0x309D, 0x309E), (0x30A1, 0x30FA), (0x30FC, 0x30FE), (0x3105, 0x312F),
    (0x3400, 0x4DBF), (0x4E00, 0x9FFF), (0xAC00, 0xD7A3), (0x20000, 0x2A6DF)]

/-- A character that a label may hold. -/
def mayHold (c : Char) : Bool :=
  c.isLower || c.isDigit || c == '-' || scripts.any fun (low, high) => low ≤ c.toNat && c.toNat ≤ high

/-- The longest label that is written, in characters. -/
def labelLimit : Nat := 63

/-- A label in ASCII, unless it may not be part of a name. -/
def label? (label : List Char) : Option (List Char) :=
  let written := Punycode.encode label
  if label.isEmpty || label.head? = some '-' || label.getLast? = some '-' ||
      (label.drop 2).take 2 = ['-', '-'] || !label.all mayHold || labelLimit < written.length then none
  else some written

/-- A name in ASCII, unless it may not name a host. -/
def encode? (name : List Char) : Option (List Char) := do
  let labels := name.splitOnP fullStops.contains
  let atEnd := labels.getLast? = some []
  let labels := if atEnd then labels.dropLast else labels
  if labels.isEmpty then none
  else
    let written ← labels.mapM label?
    return ['.'].intercalate (if atEnd then written ++ [[]] else written)

end ModuleGraph.Url.HostName
