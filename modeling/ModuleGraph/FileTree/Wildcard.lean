import ModuleGraph.Text.Affix
/-!
# Wildcards

Patterns for one name: `*` stands for any characters, `?` for one, and `[…]` for one of a set of
characters. A set with `!` in front stands for the characters that are not in it. A minus between
two characters of a set makes a range; an empty range is dropped. An opening bracket that is never
closed stands for itself.
-/

namespace ModuleGraph.FileTree

/-- A piece of a pattern for a name. -/
inductive Wildcard where
  | exactly (c : Char)
  | any
  | many
  /-- A character in one of the ranges, or in none of them if `negated` is set. -/
  | among (negated : Bool) (ranges : List (Char × Char))
  deriving DecidableEq, Repr

namespace Wildcard

/-- The character fits the piece, which is not one for many characters. -/
def accepts : Wildcard → Char → Bool
  | exactly d, c => c = d
  | any, _ => true
  | many, _ => false
  | among negated ranges, c => ranges.any (fun r => r.1 ≤ c && c ≤ r.2) != negated

/-- The tails of a list, from the list itself to the empty one. -/
def tails : List Char → List (List Char)
  | [] => [[]]
  | c :: r => (c :: r) :: tails r

/-- The name fits the pattern as a whole. -/
def fits : List Wildcard → List Char → Bool
  | [], cs => cs.isEmpty
  | many :: ps, cs => (tails cs).any (fits ps)
  | _ :: _, [] => false
  | p :: ps, c :: r => p.accepts c && fits ps r

/-- The list without `c` at its head, and that `c` if it is there. -/
def cutHead (c : Char) : List Char → List Char × List Char
  | [] => ([], [])
  | d :: r => if d = c then ([c], r) else ([], d :: r)

theorem length_cutHead_le (c : Char) (cs : List Char) : (cutHead c cs).2.length ≤ cs.length := by
  unfold cutHead
  split
  · simp
  · split <;> simp

/-- The rest of a set up to its closing bracket, and what follows the bracket. A bracket at the
very beginning belongs to the set. -/
def cutSet (cs : List Char) : Option (List Char × List Char) :=
  let mark := cutHead '!' cs
  let first := cutHead ']' mark.2
  (Text.cutAt ']' first.2).map fun p => (mark.1 ++ first.1 ++ p.1, p.2)

theorem length_of_cutSet {cs a b : List Char} (h : cutSet cs = some (a, b)) :
    b.length < cs.length := by
  obtain ⟨p, hp, he⟩ := Option.map_eq_some_iff.1 h
  have hcut := (Text.cutAt_eq_some (a := p.1) (b := p.2) hp).1
  have hlen := congrArg List.length hcut
  rw [List.length_append, List.length_cons] at hlen
  have hb : p.2 = b := congrArg Prod.snd he
  have hmark := length_cutHead_le '!' cs
  have hfirst := length_cutHead_le ']' (cutHead '!' cs).2
  rw [hb] at hlen
  omega

/-- The chunks of a set, between the minus signs that make ranges: a minus makes none at the
beginning of the set, and none less than two characters behind another one. `wait` characters
are too early for a minus to make a range. -/
def chunksFrom : (wait : Nat) → List Char → List (List Char)
  | _, [] => [[]]
  | wait + 1, c :: r => match chunksFrom wait r with
    | chunk :: more => (c :: chunk) :: more
    | [] => [[c]]
  | 0, c :: r =>
    if c = '-' then [] :: chunksFrom 2 r
    else match chunksFrom 0 r with
      | chunk :: more => (c :: chunk) :: more
      | [] => [[c]]

/-- Chunks in which a minus sign at the end of the set stands for itself. -/
def keepLastMinus : List (List Char) → List (List Char)
  | [] => []
  | [chunk, []] => [chunk ++ ['-']]
  | chunk :: r => chunk :: keepLastMinus r

/-- Chunks without the empty ranges between them. -/
def dropEmptyRanges : List (List Char) → List (List Char)
  | [] => []
  | chunk :: r =>
    match dropEmptyRanges r with
    | [] => [chunk]
    | next :: more =>
      match chunk.getLast?, next.head? with
      | some a, some b =>
        if b < a then (chunk.dropLast ++ next.drop 1) :: more else chunk :: next :: more
      | _, _ => chunk :: next :: more

/-- The ranges of chunks: every character for itself, and the ranges between the chunks. -/
def rangesOf : List (List Char) → List (Char × Char)
  | [] => []
  | chunk :: r =>
    let between := match chunk.getLast?, r.head?.bind List.head? with
      | some a, some b => [(a, b)]
      | _, _ => []
    chunk.map (fun c => (c, c)) ++ between ++ rangesOf r

/-- The piece that a set stands for. -/
def ofSet (inside : List Char) : Wildcard :=
  let wait := if inside.head? = some '!' then 2 else 1
  let chunks := dropEmptyRanges (keepLastMinus (chunksFrom wait inside))
  match chunks with
  | ('!' :: chunk) :: r => .among true (rangesOf (chunk :: r))
  | chunks => .among false (rangesOf chunks)

/-- The pieces of a pattern. -/
def parse (cs : List Char) : List Wildcard :=
  match cs with
  | [] => []
  | '*' :: r => .many :: parse r
  | '?' :: r => .any :: parse r
  | '[' :: r =>
    match _h : cutSet r with
    | some (inside, after) => ofSet inside :: parse after
    | none => .exactly '[' :: parse r
  | c :: r => .exactly c :: parse r
termination_by cs.length
decreasing_by
  · simp
  · simp
  · have := length_of_cutSet _h
    simp only [List.length_cons]
    omega
  · simp
  · simp

/-- A pattern that stands for more than its own characters. -/
def isPattern (cs : List Char) : Bool := cs.any fun c => c = '*' || c = '?' || c = '['

end Wildcard

end ModuleGraph.FileTree
