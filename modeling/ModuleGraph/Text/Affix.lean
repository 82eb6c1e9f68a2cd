/-!
# Cutting texts

Operations on texts that only look at their characters from one end or the other: tests for a
beginning or an ending, cutting at a separator, trimming. Each is a function on the list of
characters, so that a statement about texts is a statement about lists.
-/

namespace ModuleGraph.Text

/-- `s` begins with `start`. -/
def startsWith (s start : String) : Bool := start.toList.isPrefixOf s.toList

/-- `s` ends with `stop`. -/
def endsWith (s stop : String) : Bool := stop.toList.isSuffixOf s.toList

/-- `s` without its first `n` characters. -/
def dropFirst (s : String) (n : Nat) : String := .ofList (s.toList.drop n)

/-- The first `n` characters of `s`. -/
def takeFirst (s : String) (n : Nat) : String := .ofList (s.toList.take n)

/-- `s` without its last `n` characters. -/
def dropLast (s : String) (n : Nat) : String := .ofList (s.toList.take (s.length - n))

/-- `s` without the characters at its beginning that satisfy `p`. -/
def trimStart (p : Char → Bool) (s : String) : String := .ofList (s.toList.dropWhile p)

/-- The list without the characters at its end that satisfy `p`. -/
def trimEndList (p : Char → Bool) (cs : List Char) : List Char := (cs.reverse.dropWhile p).reverse

/-- `s` without the characters at its end that satisfy `p`. -/
def trimEnd (p : Char → Bool) (s : String) : String := .ofList (trimEndList p s.toList)

/-- `s` without the characters at either end that satisfy `p`. -/
def trim (p : Char → Bool) (s : String) : String := trimEnd p (trimStart p s)

/-- What stands before and after the first `c`, if there is one. -/
def cutAt (c : Char) : List Char → Option (List Char × List Char)
  | [] => none
  | x :: r => if x = c then some ([], r) else (cutAt c r).map fun p => (x :: p.1, p.2)

/-- What stands before and after the last `c`, if there is one. -/
def cutAtLast (c : Char) : List Char → Option (List Char × List Char)
  | [] => none
  | x :: r =>
    match cutAtLast c r with
    | some (a, b) => some (x :: a, b)
    | none => if x = c then some ([], r) else none

/-- The pieces of a list between the separators `c`; a list without `c` is its own only piece. -/
def piecesAt (c : Char) : List Char → List (List Char)
  | [] => [[]]
  | x :: r =>
    if x = c then [] :: piecesAt c r
    else match piecesAt c r with
      | [] => [[x]]
      | p :: ps => (x :: p) :: ps

/-- The pieces of `s` between the separators `c`. -/
def split (c : Char) (s : String) : List String := (piecesAt c s.toList).map .ofList

/-- `needle` stands somewhere in `hay`. -/
def hasInfix (needle : List Char) : List Char → Bool
  | [] => needle.isEmpty
  | x :: r => needle.isPrefixOf (x :: r) || hasInfix needle r

/-- `needle` stands somewhere in `s`. -/
def contains (s needle : String) : Bool := hasInfix needle.toList s.toList

/-- `texts` one after the other with `sep` between them. -/
def join (sep : String) (texts : List String) : String := sep.intercalate texts

theorem cutAt_eq_some {c : Char} {cs a b : List Char} (h : cutAt c cs = some (a, b)) :
    cs = a ++ c :: b ∧ c ∉ a := by
  induction cs generalizing a with
  | nil => simp [cutAt] at h
  | cons x r ih =>
    by_cases hx : x = c
    · simp [cutAt, hx] at h
      obtain ⟨rfl, rfl⟩ := h
      simp [hx]
    · simp only [cutAt, hx, if_false, Option.map_eq_some_iff] at h
      obtain ⟨⟨a', b'⟩, h', he⟩ := h
      obtain ⟨rfl, rfl⟩ := Prod.mk.inj he
      obtain ⟨rfl, hn⟩ := ih h'
      exact ⟨rfl, by simp [hn, Ne.symm hx]⟩

theorem cutAt_eq_none {c : Char} {cs : List Char} : cutAt c cs = none ↔ c ∉ cs := by
  induction cs with
  | nil => simp [cutAt]
  | cons x r ih =>
    by_cases hx : x = c
    · simp [cutAt, hx]
    · simp [cutAt, hx, ih, Ne.symm hx]

theorem cutAtLast_eq_none {c : Char} {cs : List Char} : cutAtLast c cs = none ↔ c ∉ cs := by
  induction cs with
  | nil => simp [cutAtLast]
  | cons x r ih =>
    by_cases hx : x = c
    · simp only [cutAtLast, hx]
      cases cutAtLast c r <;> simp
    · rw [cutAtLast]
      cases h : cutAtLast c r with
      | none => simp [hx, Ne.symm hx, ih.1 h]
      | some p =>
        have : c ∈ r := Classical.byContradiction fun hn => by simp [ih.2 hn] at h
        simp [this]

theorem cutAtLast_eq_some {c : Char} {cs a b : List Char} (h : cutAtLast c cs = some (a, b)) :
    cs = a ++ c :: b ∧ c ∉ b := by
  induction cs generalizing a with
  | nil => simp [cutAtLast] at h
  | cons x r ih =>
    rw [cutAtLast] at h
    cases hr : cutAtLast c r with
    | some p =>
      simp only [hr, Option.some.injEq, Prod.mk.injEq] at h
      obtain ⟨rfl, rfl⟩ := h
      obtain ⟨h', hn⟩ := ih hr
      exact ⟨by rw [h']; rfl, hn⟩
    | none =>
      by_cases hx : x = c
      · simp only [hr, hx, if_true, Option.some.injEq, Prod.mk.injEq] at h
        obtain ⟨rfl, rfl⟩ := h
        exact ⟨by simp [hx], cutAtLast_eq_none.1 hr⟩
      · simp [hr, hx] at h

end ModuleGraph.Text
