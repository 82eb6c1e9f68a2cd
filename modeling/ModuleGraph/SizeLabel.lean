/-!
# Sizes for readers

A size is shown with one place after the point, in the largest of four units that is not larger
than it. Halves of the last place go to the even neighbour.
-/

namespace ModuleGraph

/-- `n` with all but its 53 leading binary digits rounded to zeros, halves to even. -/
def roundBinary (n : Nat) : Nat :=
  let extra := n.log2 + 1 - 53
  let unit := Nat.pow 2 extra
  let q := n / unit
  let r := n % unit
  let up := unit < 2 * r || (2 * r == unit && q % 2 == 1)
  (if up then q + 1 else q) * unit

/-- `a / b` rounded to a whole number, halves to even. -/
def roundQuotient (a b : Nat) : Nat :=
  let q := a / b
  let r := a % b
  if b < 2 * r || (2 * r == b && q % 2 == 1) then q + 1 else q

/-- `a / b` with one place after the point. -/
def onePlace (a b : Nat) : String :=
  let tenths := roundQuotient (10 * a) b
  toString (tenths / 10) ++ "." ++ toString (tenths % 10)

/-- A number of bytes with its unit (`_format_size`). -/
def sizeLabel (size : Int) : String :=
  let n := roundBinary size.natAbs
  if size < 0 then "-" ++ onePlace n 1 ++ " B"
  else if n < 1024 then onePlace n 1 ++ " B"
  else if n < 1024 * 1024 then onePlace n 1024 ++ " KB"
  else if n < 1024 * 1024 * 1024 then onePlace n (1024 * 1024) ++ " MB"
  else onePlace n (1024 * 1024 * 1024) ++ " GB"

end ModuleGraph
