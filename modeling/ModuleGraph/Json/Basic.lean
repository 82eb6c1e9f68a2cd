/-!
# JSON values

Values as a document states them: objects keep the order of their members, whole numbers are
exact, and other numbers keep their decimal digits.
-/

namespace ModuleGraph

/-- A number written with a fraction or an exponent: `digits · 10 ^ exponent` with its sign. -/
structure Decimal where
  negative : Bool
  digits : Nat
  exponent : Int
  deriving DecidableEq, Repr, Inhabited

namespace Decimal

/-- The size of a decimal is `numerator / denominator`. -/
def numerator (d : Decimal) : Nat := d.digits * Nat.pow 10 d.exponent.toNat

/-- The power of ten that divides the size of a decimal. -/
def denominator (d : Decimal) : Nat := Nat.pow 10 (-d.exponent).toNat

end Decimal

/-- A JSON value, with the three numbers that are no decimal. -/
inductive Json where
  | null
  | bool (b : Bool)
  | int (n : Int)
  | decimal (d : Decimal)
  | nan
  | infinity (negative : Bool)
  | str (s : String)
  | arr (items : List Json)
  | obj (members : List (String × Json))
  deriving Inhabited, Repr

namespace Json

/-- The members of an object in which a later member takes the place of an earlier one of the
same name. -/
def setMember (members : List (String × Json)) (name : String) (value : Json) :
    List (String × Json) :=
  if members.any (·.1 == name) then
    members.map fun m => if m.1 == name then (name, value) else m
  else members ++ [(name, value)]

/-- The member of an object. -/
def get? : Json → String → Option Json
  | .obj members, name => members.lookup name
  | _, _ => none

/-- The member of an object, unless it is null. -/
def getPresent? (j : Json) (name : String) : Option Json :=
  match j.get? name with
  | some .null | none => none
  | some v => some v

/-- The text that a value is. -/
def str? : Json → Option String
  | .str s => some s
  | _ => none

/-- The items that a value lists. -/
def arr? : Json → Option (List Json)
  | .arr items => some items
  | _ => none

/-- The members that a value has. -/
def obj? : Json → Option (List (String × Json))
  | .obj members => some members
  | _ => none

/-- The value counts as present and not empty. -/
def isTruthy : Json → Bool
  | .null => false
  | .bool b => b
  | .int n => n != 0
  | .decimal d => d.digits != 0
  | .nan | .infinity _ => true
  | .str s => s != ""
  | .arr items => !items.isEmpty
  | .obj members => !members.isEmpty

end Json

end ModuleGraph
