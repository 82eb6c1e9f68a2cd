/-!
# Hexadecimal digits

Writing numbers and bytes in base sixteen, and reading them back.
-/

namespace ModuleGraph.Hex

/-- The lower-case digit of a value below sixteen. -/
def lowerDigit (n : Nat) : Char := if n < 10 then Char.ofNat (48 + n) else Char.ofNat (87 + n)

/-- The upper-case digit of a value below sixteen. -/
def upperDigit (n : Nat) : Char := if n < 10 then Char.ofNat (48 + n) else Char.ofNat (55 + n)

/-- The value of a digit in either case. -/
def digitValue? (c : Char) : Option Nat :=
  let n := c.toNat
  if 48 ≤ n ∧ n ≤ 57 then some (n - 48)
  else if 97 ≤ n ∧ n ≤ 102 then some (n - 87)
  else if 65 ≤ n ∧ n ≤ 70 then some (n - 55)
  else none

/-- The last `width` digits of `n`, in lower case. -/
def digits : (width n : Nat) → List Char
  | 0, _ => []
  | w + 1, n => digits w (n / 16) ++ [lowerDigit (n % 16)]

theorem mem_digits {width n : Nat} {c : Char} (h : c ∈ digits width n) :
    ∃ m, m < 16 ∧ c = lowerDigit m := by
  induction width generalizing n with
  | zero => cases h
  | succ width ih =>
    rw [digits, List.mem_append, List.mem_singleton] at h
    rcases h with h | rfl
    · exact ih h
    · exact ⟨n % 16, Nat.mod_lt n (by decide), rfl⟩

theorem length_digits (width n : Nat) : (digits width n).length = width := by
  induction width generalizing n with
  | zero => rfl
  | succ width ih => rw [digits, List.length_append, ih, List.length_singleton]

/-- The value of a run of digits; nothing if one of them is no digit. -/
def value? : List Char → Option Nat
  | cs => cs.foldlM (fun acc c => (digitValue? c).map (acc * 16 + ·)) 0

/-- Bytes, two lower-case digits each. -/
def ofBytes (bytes : List UInt8) : String := .ofList (bytes.flatMap fun b => digits 2 b.toNat)

/-- The bytes that pairs of digits stand for. -/
def bytesOf? : List Char → Option (List UInt8)
  | [] => some []
  | [_] => none
  | a :: b :: r => do
    let h ← digitValue? a
    let l ← digitValue? b
    return UInt8.ofNat (16 * h + l) :: (← bytesOf? r)

end ModuleGraph.Hex
