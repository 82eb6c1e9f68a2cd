import ModuleGraph.Json.Basic
import ModuleGraph.Fault
import ModuleGraph.Table
/-!
# Checked records

Records are read from JSON values field by field. Every field is checked, so a record that is
refused is refused with all its issues, in the order of the fields. Texts are never made from
other values; whole numbers and truth values are read a little more freely.
-/

namespace ModuleGraph

namespace Schema

/-- One issue of a record: where it is, and of which kind. -/
structure Issue where
  place : List String
  kind : String
  deriving DecidableEq, Repr, Inhabited

/-- A record that is refused: its model and its issues. -/
structure Invalid where
  model : String
  issues : List Issue
  deriving DecidableEq, Repr, Inhabited

/-- A step of a place; one with a point in it is set off. -/
def placeStep (s : String) : String := if Text.contains s "." then "`" ++ s ++ "`" else s

/-- One issue in a message. -/
def Issue.message (i : Issue) : String :=
  let place := ".".intercalate (i.place.map placeStep)
  (if i.place.isEmpty then "" else place ++ " ") ++ "[" ++ i.kind ++ "]"

/-- The number of issues, the model and the issues. -/
def Invalid.message (v : Invalid) : String :=
  let n := v.issues.length
  toString n ++ (if n = 1 then " validation error for " else " validation errors for ") ++ v.model ++
    ": " ++ "; ".intercalate (v.issues.map Issue.message)

/-- The refusal as an error seen from outside. -/
def Invalid.toForeign (v : Invalid) : Foreign := ⟨"ValidationError", v.message⟩

/-- A value, or the issues that keep it from being one. -/
abbrev Checked (α : Type) := Except (List Issue) α

/-- Both values, or the issues of both. -/
def both {α β : Type} (a : Checked α) (b : Checked β) : Checked (α × β) :=
  match a, b with
  | .ok x, .ok y => .ok (x, y)
  | .ok _, .error e => .error e
  | .error e, .ok _ => .error e
  | .error e, .error e' => .error (e ++ e')

/-- Every value of a list, or the issues of all. -/
def all {α : Type} : List (Checked α) → Checked (List α)
  | [] => .ok []
  | a :: r => (both a (all r)).map fun p => p.1 :: p.2

/-- The issues with one more step in front of their places. -/
def under {α : Type} (step : String) (a : Checked α) : Checked α :=
  a.mapError fun issues => issues.map fun i => { i with place := step :: i.place }

/-- An issue at the place at hand. -/
def issue {α : Type} (kind : String) : Checked α := .error [⟨[], kind⟩]

/-- A field that a record must have. -/
def required {α : Type} (members : List (String × Json)) (name : String)
    (read : Json → Checked α) : Checked α :=
  under name <| match members.lookup name with
    | some v => read v
    | none => issue "missing"

/-- A field that has a value of its own where the record says nothing. -/
def optional {α : Type} (members : List (String × Json)) (name : String) (default : α)
    (read : Json → Checked α) : Checked α :=
  under name <| match members.lookup name with
    | some v => read v
    | none => .ok default

/-- A text. -/
def text : Json → Checked String
  | .str s => .ok s
  | _ => issue "string_type"

/-- One of a few texts. -/
def oneOf (choices : List String) : Json → Checked String
  | .str s => if choices.contains s then .ok s else issue "literal_error"
  | _ => issue "literal_error"

/-- White space around a number in a text. -/
def isSpace (c : Char) : Bool :=
  c.isWhitespace || c = '\x0b' || c = '\x0c' || c.toNat = 0x85 || c.toNat = 0xA0

/-- The digits of a whole number in a text; single underscores may stand between them. -/
def digitsOf : List Char → Option (List Char)
  | [] => none
  | [c] => if c.isDigit then some [c] else none
  | c :: '_' :: r => if c.isDigit then (digitsOf r).map (c :: ·) else none
  | c :: r => if c.isDigit then (digitsOf r).map (c :: ·) else none

/-- The number of a run of digits. -/
def natOf (cs : List Char) : Nat := cs.foldl (fun n c => n * 10 + (c.toNat - 48)) 0

/-- The whole number that a text states: digits with an optional sign, and an optional fraction
of zeros. -/
def wholeOfText? (s : String) : Option Int :=
  let cs := (Text.trim isSpace s).toList
  let cs := match Text.cutAt '.' cs with
    | some (a, b) => if b.all (· = '0') then a else cs
    | none => cs
  match cs with
  | '-' :: r => (digitsOf r).map fun ds => -(natOf ds : Int)
  | '+' :: r => (digitsOf r).map fun ds => (natOf ds : Int)
  | r => (digitsOf r).map fun ds => (natOf ds : Int)

/-- The whole number that a decimal is. -/
def wholeOfDecimal? (d : Decimal) : Option Int :=
  let signed := fun (n : Nat) => if d.negative then -(n : Int) else (n : Int)
  if 0 ≤ d.exponent then some (signed (d.numerator))
  else
    let unit := d.denominator
    if d.digits % unit = 0 then some (signed (d.digits / unit)) else none

/-- A whole number, also as a decimal without a fraction, a text of digits or a truth value. -/
def whole : Json → Checked Int
  | .int n => .ok n
  | .bool b => .ok (if b then 1 else 0)
  | .decimal d => match wholeOfDecimal? d with
    | some n => .ok n
    | none => issue "int_from_float"
  | .nan | .infinity _ => issue "finite_number"
  | .str s => match wholeOfText? s with
    | some n => .ok n
    | none => issue "int_parsing"
  | _ => issue "int_type"

/-- A truth value, also as zero or one, or as a word for yes or no. -/
def truth : Json → Checked Bool
  | .bool b => .ok b
  | .int n => if n = 0 then .ok false else if n = 1 then .ok true else issue "bool_parsing"
  | .decimal d => match wholeOfDecimal? d with
    | some 0 => .ok false
    | some 1 => .ok true
    | _ => issue "bool_parsing"
  | .str s =>
    let word := String.ofList (s.toList.map Char.toLower)
    if ["1", "on", "t", "true", "y", "yes"].contains word then .ok true
    else if ["0", "off", "f", "false", "n", "no"].contains word then .ok false
    else issue "bool_parsing"
  | .nan | .infinity _ => issue "bool_parsing"
  | _ => issue "bool_type"

/-- A table, every value of which is read by `read`. -/
def table {α : Type} (read : Json → Checked α) : Json → Checked (Table α)
  | .obj members =>
    (all (members.map fun m => under m.1 ((read m.2).map fun v => (m.1, v)))).map .ofList
  | _ => issue "dict_type"

/-- A value or null. -/
def nullable {α : Type} (read : Json → Checked α) : Json → Checked (Option α)
  | .null => .ok none
  | v => (read v).map some

/-- A record of `model`, read from the members of an object. -/
def record {α : Type} (model : String) (read : List (String × Json) → Checked α) (v : Json) :
    Except Invalid α :=
  let checked := match v with
    | .obj members => read members
    | _ => issue "model_type"
  checked.mapError fun issues => ⟨model, issues⟩

end Schema

end ModuleGraph
