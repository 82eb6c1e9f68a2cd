import ModuleGraph.Fault
import ModuleGraph.Text.Shown
/-!
# Message templates

A log message may be a template with slots for values. A slot begins with a percent sign and ends
with a letter that tells how its value is written: `s` as a text, `r` and `a` as it is shown in
messages, `d`, `i`, `u`, `o`, `x` and `X` as a whole number, `c` as a character. Between the two stand
the name of the value in parentheses, flags, a width and a precision. Values are taken from a list in
their order, or from one table by name. Two percent signs stand for one.
-/

namespace ModuleGraph.Template

/-- A number in a slot, written out or taken from the values. -/
inductive Count where
  | fixed (n : Nat)
  | supplied
  deriving DecidableEq, Repr

/-- A place for a value. -/
structure Slot where
  flags : List Char
  width : Option Count
  precision : Option Count
  conversion : Char
  /-- Where the letter stands in the template. -/
  position : Nat
  deriving DecidableEq, Repr

/-- A part of a template. -/
inductive Piece where
  | letter (c : Char)
  /-- The next slot takes the value of this name. -/
  | named (name : String)
  /-- A name that does not end. -/
  | unnamed
  | slot (s : Slot)
  /-- A slot that does not end. -/
  | unfinished
  deriving DecidableEq, Repr

/-! ## Reading -/

/-- What stands before the parenthesis that closes `depth` open ones, and after it. -/
def closing : (depth : Nat) → List Char → Option (List Char × List Char)
  | _, [] => none
  | depth, c :: r =>
    if c = ')' ∧ depth = 0 then some ([], r)
    else
      let depth := if c = ')' then depth - 1 else if c = '(' then depth + 1 else depth
      (closing depth r).map fun (a, b) => (c :: a, b)

/-- A flag in a slot. -/
def isFlag (c : Char) : Bool := c = '-' || c = '+' || c = ' ' || c = '#' || c = '0'

/-- The number at the head of a list, if there is one. -/
def count? : List Char → Option Count × List Char
  | '*' :: r => (some .supplied, r)
  | cs =>
    let ds := cs.takeWhile Char.isDigit
    let n := ds.foldl (fun n c => n * 10 + (c.toNat - 48)) 0
    (if ds.isEmpty then none else some (.fixed n), cs.drop ds.length)

/-- The precision at the head of a list, if there is one; a point alone is one of zero. -/
def precision? : List Char → Option Count × List Char
  | '.' :: r =>
    let (n, r) := count? r
    (some (n.getD (.fixed 0)), r)
  | cs => (none, cs)

/-- A letter for the size of a value, which says nothing here. -/
def dropSize : List Char → List Char
  | c :: r => if c = 'h' ∨ c = 'l' ∨ c = 'L' then r else c :: r
  | [] => []

/-- The slot behind the name, in a template of which `size` characters end with this list. -/
def slot? (size : Nat) (cs : List Char) : Option (Slot × List Char) :=
  let flags := cs.takeWhile isFlag
  let (width, r) := count? (cs.drop flags.length)
  let (precision, r) := precision? r
  match dropSize r with
  | [] => none
  | c :: rest => some (⟨flags, width, precision, c, size - rest.length - 1⟩, rest)

/-- The parts that begin with a percent sign, and what stands behind them. -/
def slotPieces (size : Nat) (cs : List Char) : List Piece × List Char :=
  let finish := fun (before : List Piece) (cs : List Char) =>
    match slot? size cs with
    | some (s, r) => (before ++ [.slot s], r)
    | none => (before ++ [.unfinished], [])
  match cs with
  | '(' :: r =>
    match closing 0 r with
    | some (name, r) => finish [.named (.ofList name)] r
    | none => ([.unnamed], [])
  | cs => finish [] cs

/-- The parts of a template from its character `size - length` on, after `skip` more characters. -/
def piecesFrom (size : Nat) : (skip : Nat) → List Char → List Piece
  | _, [] => []
  | skip + 1, _ :: r => piecesFrom size skip r
  | 0, c :: r =>
    if c = '%' then
      let (pieces, rest) := slotPieces size r
      pieces ++ piecesFrom size (r.length - rest.length) r
    else .letter c :: piecesFrom size 0 r

/-- The parts of a template. -/
def pieces (template : String) : List Piece := piecesFrom template.length 0 template.toList

/-! ## Values -/

/-- The values for a template. -/
structure Supply where
  values : List Json
  /-- The table that values are taken from by name. -/
  byName : Option (List (String × Json))

/-- An error of the type of a value. -/
def typeError (text : String) : Foreign := ⟨"TypeError", text⟩

namespace Supply

/-- The values of a list; a single table that is not empty gives its values by name. -/
def ofList : List Json → Supply
  | [.obj (m :: ms)] => ⟨[.obj (m :: ms)], some (m :: ms)⟩
  | values => ⟨values, none⟩

/-- The next value. -/
def next (s : Supply) : Except Foreign (Json × Supply) :=
  match s.values with
  | v :: r => .ok (v, { s with values := r })
  | [] => .error (typeError "not enough arguments for format string")

/-- The supply whose next value is that of a name. -/
def select (s : Supply) (name : String) : Except Foreign Supply :=
  match s.byName with
  | none => .error (typeError "format requires a mapping")
  | some members =>
    match members.lookup name with
    | some v => .ok { s with values := [v] }
    | none => .error ⟨"KeyError", Text.quoted name⟩

/-- A count, which may be the next value. -/
def count (s : Supply) : Option Count → Except Foreign (Option Int × Supply)
  | none => .ok (none, s)
  | some (.fixed n) => .ok (some n, s)
  | some .supplied => do
    match ← s.next with
    | (.int n, s) => return (some n, s)
    | (.bool b, s) => return (some (if b then 1 else 0), s)
    | _ => throw (typeError "* wants int")

end Supply

/-! ## Writing -/

/-- A written value: what may be set apart from the rest when it is filled up. -/
structure Written where
  sign : List Char
  marker : List Char
  body : List Char

/-- A character outside ASCII by its number. -/
def asciiChar (c : Char) : List Char :=
  let n := c.toNat
  if n < 128 then [c]
  else if n < 256 then '\\' :: 'x' :: Hex.digits 2 n
  else if n < 65536 then '\\' :: 'u' :: Hex.digits 4 n
  else '\\' :: 'U' :: Hex.digits 8 n

/-- The whole number that a value counts as. -/
def whole? (fractions : Bool) : Json → Option Int
  | .int n => some n
  | .bool b => some (if b then 1 else 0)
  | .decimal d =>
    if fractions then
      let size := d.numerator / d.denominator
      some (if d.negative then -(size : Int) else size)
    else none
  | _ => none

/-- The base of a conversion and the mark of that base. -/
def baseOf (conversion : Char) : Nat × List Char :=
  match conversion with
  | 'o' => (8, ['0', 'o'])
  | 'x' => (16, ['0', 'x'])
  | 'X' => (16, ['0', 'X'])
  | _ => (10, [])

/-- A whole number as a slot asks for it. -/
def writeWhole (s : Slot) (precision : Option Int) (n : Int) : Written :=
  let (base, mark) := baseOf s.conversion
  let digits := Nat.toDigits base n.natAbs
  let digits := if s.conversion = 'X' then digits.map Char.toUpper else digits
  let sign :=
    if n < 0 then ['-'] else if s.flags.contains '+' then ['+']
    else if s.flags.contains ' ' then [' '] else []
  let zeros := (precision.getD 0).toNat - digits.length
  ⟨sign, if s.flags.contains '#' then mark else [], List.replicate zeros '0' ++ digits⟩

/-- A text as a slot asks for it. -/
def writeText (precision : Option Int) (cs : List Char) : Written :=
  ⟨[], [], match precision with | some n => cs.take n.toNat | none => cs⟩

/-- What is wrong with a value that is no number. -/
def notNumber (conversion : Char) (v : Json) : Foreign :=
  let wanted := if (baseOf conversion).1 = 10 then "a real number" else "an integer"
  typeError ("%" ++ .singleton conversion ++ " format: " ++ wanted ++ " is required, not " ++ Text.typeName v)

/-- A conversion that there is not. -/
def unsupported (s : Slot) : Foreign :=
  .invalidValue ("unsupported format character '" ++ .singleton s.conversion ++ "' (0x" ++
    .ofList (Nat.toDigits 16 s.conversion.toNat) ++ ") at index " ++ toString s.position)

/-- A value as a character. -/
def writeChar (v : Json) : Except Foreign Written :=
  match v with
  | .str s => match s.toList with
    | [c] => .ok ⟨[], [], [c]⟩
    | _ => .error (typeError "%c requires int or char")
  | .int n =>
    if 0 ≤ n ∧ n < 0x110000 then .ok ⟨[], [], [Char.ofNat n.toNat]⟩
    else .error ⟨"OverflowError", "%c arg not in range(0x110000)"⟩
  | _ => .error (typeError "%c requires int or char")

/-- A value as a slot asks for it. -/
def convert (s : Slot) (precision : Option Int) (v : Json) : Except Foreign Written :=
  match s.conversion with
  | 's' => .ok (writeText precision (Text.plain v).toList)
  | 'r' => .ok (writeText precision (Text.shown v).toList)
  | 'a' => .ok (writeText precision ((Text.shown v).toList.flatMap asciiChar))
  | 'c' => writeChar v
  | 'd' | 'i' | 'u' | 'o' | 'x' | 'X' =>
    match whole? ((baseOf s.conversion).1 = 10) v with
    | some n => .ok (writeWhole s precision n)
    | none => .error (notNumber s.conversion v)
  | _ => .error (unsupported s)

/-- A conversion to a whole number, which zeros may fill up. -/
def isNumeric (conversion : Char) : Bool :=
  conversion = 'd' || conversion = 'i' || conversion = 'u' || conversion = 'o' ||
    conversion = 'x' || conversion = 'X'

/-- A written value filled up to a width; a negative width aligns to the left. -/
def layOut (s : Slot) (width : Int) (w : Written) : List Char :=
  let written := w.sign ++ w.marker ++ w.body
  let missing := width.natAbs - written.length
  if s.flags.contains '-' || width < 0 then written ++ List.replicate missing ' '
  else if s.flags.contains '0' && isNumeric s.conversion then
    w.sign ++ w.marker ++ List.replicate missing '0' ++ w.body
  else List.replicate missing ' ' ++ written

/-- A slot with its value, and the values that are left. -/
def fillSlot (s : Slot) (supply : Supply) : Except Foreign (List Char × Supply) := do
  let (width, supply) ← supply.count s.width
  let (precision, supply) ← supply.count s.precision
  if s.conversion = '%' then return (['%'], supply)
  let (v, supply) ← supply.next
  let w ← convert s precision v
  return (layOut s (width.getD 0) w, supply)

/-- The parts with their values. Values in a list have to be used up. -/
def fillPieces (supply : Supply) : List Piece → Except Foreign (List Char)
  | [] =>
    if supply.byName.isNone && !supply.values.isEmpty then
      .error (typeError "not all arguments converted during string formatting")
    else .ok []
  | .letter c :: r => (fillPieces supply r).map (c :: ·)
  | .named name :: r => do fillPieces (← supply.select name) r
  | .unnamed :: _ =>
    .error (if supply.byName.isNone then typeError "format requires a mapping"
      else .invalidValue "incomplete format key")
  | .unfinished :: _ => .error (.invalidValue "incomplete format")
  | .slot s :: r => do
    let (text, supply) ← fillSlot s supply
    return text ++ (← fillPieces supply r)

/-- A template with values. Without values it stands for itself. -/
def fill (template : String) (values : List Json) : Except Foreign String :=
  if values.isEmpty then .ok template
  else (fillPieces (.ofList values) (pieces template)).map .ofList

end ModuleGraph.Template
