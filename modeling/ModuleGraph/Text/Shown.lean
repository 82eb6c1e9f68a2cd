import ModuleGraph.Json.Basic
import ModuleGraph.Text.Affix
import ModuleGraph.Text.Quoted
/-!
# Values in messages

How a value is shown inside a message: texts between quotes, `True`, `False` and `None` for the
named values, lists in brackets and tables in braces, decimals in positional notation from
`0.0001` to below `10 ^ 16` and with an exponent otherwise.
-/

namespace ModuleGraph.Text

/-- The digits of a positive number without zeros at its end, and how many those were. -/
def trimZeros (n : Nat) : List Char × Nat :=
  let ds := (toString n).toList
  let kept := trimEndList (· = '0') ds
  (kept, ds.length - kept.length)

/-- A decimal in positional or exponent notation. -/
def shownDecimal (d : Decimal) : String :=
  let sign := if d.negative then "-" else ""
  if d.digits = 0 then sign ++ "0.0"
  else
    let (ds, zeros) := trimZeros d.digits
    let exponent := d.exponent + zeros
    let point := (ds.length : Int) + exponent
    if -4 < point ∧ point ≤ 16 then
      let text :=
        if point ≤ 0 then "0." ++ String.ofList (List.replicate (-point).toNat '0' ++ ds)
        else if (ds.length : Int) ≤ point then
          String.ofList (ds ++ List.replicate (point - ds.length).toNat '0') ++ ".0"
        else String.ofList (ds.take point.toNat) ++ "." ++ String.ofList (ds.drop point.toNat)
      sign ++ text
    else
      let e := point - 1
      let digits := toString e.natAbs
      let width := if digits.length < 2 then "0" ++ digits else digits
      let mantissa := match ds with
        | [] => ""
        | [c] => String.ofList [c]
        | c :: r => String.ofList (c :: '.' :: r)
      sign ++ mantissa ++ "e" ++ (if e < 0 then "-" else "+") ++ width

mutual

/-- A value inside a message. -/
def shown : Json → String
  | .null => "None"
  | .bool b => if b then "True" else "False"
  | .int n => toString n
  | .decimal d => shownDecimal d
  | .nan => "nan"
  | .infinity negative => if negative then "-inf" else "inf"
  | .str s => quoted s
  | .arr items => "[" ++ ", ".intercalate (shownItems items) ++ "]"
  | .obj members => "\x7b" ++ ", ".intercalate (shownMembers members) ++ "\x7d"

/-- The items of a list inside a message. -/
def shownItems : List Json → List String
  | [] => []
  | v :: r => shown v :: shownItems r

/-- The members of a table inside a message. -/
def shownMembers : List (String × Json) → List String
  | [] => []
  | (name, v) :: r => (quoted name ++ ": " ++ shown v) :: shownMembers r

end

/-- The name of a value's type in a message. -/
def typeName : Json → String
  | .null => "NoneType"
  | .bool _ => "bool"
  | .int _ => "int"
  | .decimal _ | .nan | .infinity _ => "float"
  | .str _ => "str"
  | .arr _ => "list"
  | .obj _ => "dict"

/-- A value as a text of its own: a text stands for itself, anything else is shown. -/
def plain : Json → String
  | .str s => s
  | v => shown v

end ModuleGraph.Text
