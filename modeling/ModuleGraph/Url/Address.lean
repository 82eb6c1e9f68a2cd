import ModuleGraph.Text.Affix
import ModuleGraph.Text.Hex
/-!
# Addresses in brackets

Which texts are Internet addresses of version four or six, as far as a URL's authority asks.
-/

namespace ModuleGraph.Url

/-- One of the four numbers of a version four address: digits, below 256, no leading zero. -/
def isOctet (cs : List Char) : Bool :=
  !cs.isEmpty && cs.all Char.isDigit && cs.length ≤ 3 && (cs == ['0'] || cs.head? != some '0') &&
    cs.foldl (fun n c => n * 10 + (c.toNat - 48)) 0 ≤ 255

/-- Four numbers with points between them. -/
def isVersion4 (cs : List Char) : Bool :=
  let parts := Text.piecesAt '.' cs
  parts.length == 4 && parts.all isOctet

/-- One of the eight groups of a version six address. -/
def isGroup (cs : List Char) : Bool :=
  !cs.isEmpty && cs.length ≤ 4 && cs.all fun c => (Hex.digitValue? c).isSome

/-- The groups of a version six address, in which a run of zero groups may be left out once. -/
def areGroups (parts : List (List Char)) : Bool :=
  let inner := (parts.drop 1).dropLast
  let gaps := inner.countP List.isEmpty
  let leading := parts.head? == some []
  let trailing := parts.getLast? == some []
  if parts.length < 3 || parts.length > 9 || gaps > 1 then false
  else if gaps = 1 then
    let skip := 1 + (inner.takeWhile fun p => !p.isEmpty).length
    let high := skip - (if leading then 1 else 0)
    let low := parts.length - skip - 1 - (if trailing then 1 else 0)
    if leading && high != 0 || trailing && low != 0 then false
    else high + low < 8 && (parts.filter fun p => !p.isEmpty).all isGroup
  else parts.length == 8 && !leading && !trailing && parts.all isGroup

/-- A version six address, with an optional zone and an optional version four tail. -/
def isVersion6 (cs : List Char) : Bool :=
  let (address, zoneFits) := match Text.cutAt '%' cs with
    | some (a, zone) => (a, !zone.isEmpty && !zone.contains '%')
    | none => (cs, true)
  let parts := Text.piecesAt ':' address
  match parts.getLast? with
  | some last =>
    if parts.length < 3 then false
    else if last.contains '.' then
      zoneFits && isVersion4 last && areGroups (parts.dropLast ++ [['0'], ['0']])
    else zoneFits && areGroups parts
  | none => false

/-- A future address: `v`, hexadecimal digits, a point and something more on the same line. -/
def isFuture : List Char → Bool
  | 'v' :: r =>
    let isHex := fun c => (Hex.digitValue? c).isSome
    match r.takeWhile isHex, r.dropWhile isHex with
    | _ :: _, '.' :: c :: r => !(c :: r).contains '\n'
    | _, _ => false
  | _ => false

end ModuleGraph.Url
