/-!
# Host names outside ASCII

A label of a host name that has characters outside ASCII is written as `xn--`, its ASCII
characters, and the others as variable-length integers that say where they belong.
-/

namespace ModuleGraph.Url.Punycode

/-- The digit of a value below 36. -/
def digit (n : Nat) : Char := if n < 26 then Char.ofNat (97 + n) else Char.ofNat (22 + n)

/-- The bias after a delta was written, with `points` characters handled. -/
def adapt (delta points : Nat) (first : Bool) : Nat :=
  let delta := if first then delta / 700 else delta / 2
  let delta := delta + delta / points
  shrink delta 0 delta
where
  /-- Divides until the delta is small; at most `fuel` times. -/
  shrink : (fuel k delta : Nat) → Nat
    | 0, k, delta => k + 36 * delta / (delta + 38)
    | fuel + 1, k, delta =>
      if 455 < delta then shrink fuel (k + 36) (delta / 35) else k + 36 * delta / (delta + 38)

/-- A number in digits of growing thresholds. -/
def integer (bias : Nat) : (fuel k q : Nat) → List Char
  | 0, _, q => [digit (q % 36)]
  | fuel + 1, k, q =>
    let t := if k ≤ bias then 1 else if bias + 26 ≤ k then 26 else k - bias
    if q < t then [digit q]
    else digit (t + (q - t) % (36 - t)) :: integer bias fuel (k + 36) ((q - t) / (36 - t))

/-- What is written for one character so far. -/
structure State where
  delta : Nat
  bias : Nat
  handled : Nat
  written : List Char

/-- One character of the label while the characters of code `n` are handled. -/
def visit (basic n : Nat) (s : State) (c : Char) : State :=
  if c.toNat < n then { s with delta := s.delta + 1 }
  else if c.toNat = n then
    { delta := 0
      bias := adapt s.delta (s.handled + 1) (s.handled = basic)
      handled := s.handled + 1
      written := s.written ++ integer s.bias (s.delta + 1) 36 s.delta }
  else s

/-- The codes that a label holds from `low` on, in their order, each once. -/
def codes (label : List Char) : List Nat :=
  ((label.map Char.toNat).filter (128 ≤ ·)).mergeSort.eraseDups

/-- The characters outside ASCII as they are written. -/
def encodeRest (label : List Char) (basic : Nat) : (before : Nat) → State → List Nat → List Char
  | _, s, [] => s.written
  | before, s, n :: r =>
    let s := { s with delta := s.delta + (n - before) * (s.handled + 1) }
    let s := label.foldl (visit basic n) s
    encodeRest label basic (n + 1) { s with delta := s.delta + 1 } r

/-- A label as it is written. -/
def encode (label : List Char) : List Char :=
  let ascii := label.filter fun c => c.toNat < 128
  if ascii.length = label.length then label
  else
    let opening := if ascii.isEmpty then [] else ascii ++ ['-']
    let start : State := ⟨0, 72, ascii.length, []⟩
    "xn--".toList ++ opening ++ encodeRest label ascii.length 128 start (codes label)

end ModuleGraph.Url.Punycode
