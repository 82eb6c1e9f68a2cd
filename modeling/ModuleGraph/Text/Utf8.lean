import ModuleGraph.Text.Hex
/-!
# UTF-8

Texts as bytes and bytes as texts. Reading runs a machine over the bytes: between characters it
holds nothing, inside one it holds the character begun so far together with the range that the
next byte must lie in. The machine cuts any sequence of bytes into *pieces*, each a character or
a malformed stretch, so that strict reading (`decode`, which reports the first malformed stretch)
and forgiving reading (`decodeLossy`, which puts U+FFFD in place of each) share one definition.
-/

namespace ModuleGraph.Utf8

/-- The bytes of a text. -/
def encode (s : String) : List UInt8 := s.toList.flatMap String.utf8EncodeChar

/-- The number of bytes of a list of characters. -/
def width (cs : List Char) : Nat := (cs.flatMap String.utf8EncodeChar).length

/-- Why a stretch of bytes is no character. -/
inductive Defect where
  /-- No character begins with this byte. -/
  | invalidStart
  /-- A character begun here is not continued by the byte that follows the stretch. -/
  | invalidContinuation
  /-- The bytes end inside a character. -/
  | unexpectedEnd
  deriving DecidableEq, Repr

/-- A stretch of bytes that is no character: its range and its first byte. -/
structure Malformed where
  start : Nat
  stop : Nat
  lead : UInt8
  defect : Defect
  deriving DecidableEq, Repr

/-- A character begun: where it started, its bits so far, how many bytes are owed, and the range
of the next one. -/
structure Pending where
  start : Nat
  lead : UInt8
  code : Nat
  owed : Nat
  low : Nat
  high : Nat
  deriving DecidableEq, Repr

/-- What the bytes are cut into. -/
inductive Piece where
  | char (c : Char)
  | bad (m : Malformed)
  deriving DecidableEq, Repr

/-- The machine between characters reads `b` at position `pos`. The second byte is held to the
narrower ranges that keep out overlong forms, surrogates and values past U+10FFFF. -/
def begin (pos : Nat) (b : UInt8) : List Piece × Option Pending :=
  let n := b.toNat
  if n < 0x80 then ([.char (Char.ofNat n)], none)
  else if n < 0xC2 then ([.bad ⟨pos, pos + 1, b, .invalidStart⟩], none)
  else if n < 0xE0 then ([], some ⟨pos, b, n - 0xC0, 1, 0x80, 0xBF⟩)
  else if n = 0xE0 then ([], some ⟨pos, b, 0, 2, 0xA0, 0xBF⟩)
  else if n = 0xED then ([], some ⟨pos, b, 0xD, 2, 0x80, 0x9F⟩)
  else if n < 0xF0 then ([], some ⟨pos, b, n - 0xE0, 2, 0x80, 0xBF⟩)
  else if n = 0xF0 then ([], some ⟨pos, b, 0, 3, 0x90, 0xBF⟩)
  else if n < 0xF4 then ([], some ⟨pos, b, n - 0xF0, 3, 0x80, 0xBF⟩)
  else if n = 0xF4 then ([], some ⟨pos, b, 4, 3, 0x80, 0x8F⟩)
  else ([.bad ⟨pos, pos + 1, b, .invalidStart⟩], none)

/-- One step of the machine: the pieces completed by `b` and what is pending after it. -/
def step (pos : Nat) : Option Pending → UInt8 → List Piece × Option Pending
  | none, b => begin pos b
  | some p, b =>
    let n := b.toNat
    if p.low ≤ n ∧ n ≤ p.high then
      let code := p.code * 64 + (n - 0x80)
      if p.owed ≤ 1 then ([.char (Char.ofNat code)], none)
      else ([], some { p with code := code, owed := p.owed - 1, low := 0x80, high := 0xBF })
    else
      let next := begin pos b
      (.bad ⟨p.start, pos, p.lead, .invalidContinuation⟩ :: next.1, next.2)

/-- The pieces of the bytes from position `pos` on. -/
def piecesFrom (pos : Nat) : Option Pending → List UInt8 → List Piece
  | none, [] => []
  | some p, [] => [.bad ⟨p.start, pos, p.lead, .unexpectedEnd⟩]
  | st, b :: r =>
    let next := step pos st b
    next.1 ++ piecesFrom (pos + 1) next.2 r

/-- The pieces that the bytes are cut into. -/
def pieces (bytes : List UInt8) : List Piece := piecesFrom 0 none bytes

/-- The characters of the pieces, or the first malformed stretch. -/
def charsOf : List Piece → Except Malformed (List Char)
  | [] => .ok []
  | .bad m :: _ => .error m
  | .char c :: r => (charsOf r).map (c :: ·)

/-- The text that the bytes stand for, or the first stretch that stands for none. -/
def decode (bytes : List UInt8) : Except Malformed String := (charsOf (pieces bytes)).map .ofList

/-- The text of the bytes with U+FFFD for each malformed stretch. -/
def decodeLossy (bytes : List UInt8) : String :=
  .ofList <| (pieces bytes).map fun
    | .char c => c
    | .bad _ => Char.ofNat 0xFFFD

/-- What is said about a malformed stretch. -/
def Defect.message : Defect → String
  | .invalidStart => "invalid start byte"
  | .invalidContinuation => "invalid continuation byte"
  | .unexpectedEnd => "unexpected end of data"

/-- A stretch of one byte is named by its value, a longer one by its first and last position. -/
def Malformed.message (m : Malformed) : String :=
  let place :=
    if m.stop = m.start + 1 then
      "byte 0x" ++ String.ofList (Hex.digits 2 m.lead.toNat) ++ " in position " ++ toString m.start
    else "bytes in position " ++ toString m.start ++ "-" ++ toString (m.stop - 1)
  "'utf-8' codec can't decode " ++ place ++ ": " ++ m.defect.message

end ModuleGraph.Utf8
