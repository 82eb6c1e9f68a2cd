import ModuleGraph.Text.Affix
/-!
# Console markup

The console reads words in square brackets as styles. A text is protected from that by a
backslash in front of everything that would be read so. `markupText` is what the console shows of
markup.
-/

namespace ModuleGraph.Text

/-- Characters with which a style begins. -/
def opensStyle (c : Char) : Bool := c.isLower || c = '#' || c = '/' || c = '@'

/-- The end of a style whose first character has been read: everything up to the closing
bracket, in which no bracket opens. -/
def styleEnd : List Char → Option (List Char × List Char)
  | [] => none
  | ']' :: r => some ([']'], r)
  | '[' :: _ => none
  | c :: r => (styleEnd r).map fun p => (c :: p.1, p.2)

/-- A style at the head of a list, and what follows it. -/
def styleAt : List Char → Option (List Char × List Char)
  | '[' :: c :: r =>
    if opensStyle c then (styleEnd r).map fun p => ('[' :: c :: p.1, p.2) else none
  | _ => none

theorem styleEnd_length {cs a b : List Char} (h : styleEnd cs = some (a, b)) :
    b.length < cs.length := by
  fun_induction styleEnd cs generalizing a b with
  | case1 => simp at h
  | case2 r => simp at h; simp [h]
  | case3 => simp at h
  | case4 c r _ _ ih =>
    obtain ⟨p, hp, he⟩ := Option.map_eq_some_iff.1 h
    have := ih hp
    cases he
    simp; omega

theorem styleAt_length {cs a b : List Char} (h : styleAt cs = some (a, b)) :
    b.length < cs.length := by
  unfold styleAt at h
  split at h
  · split at h
    · obtain ⟨p, hp, he⟩ := Option.map_eq_some_iff.1 h
      have := styleEnd_length hp
      cases he
      simp; omega
    · simp at h
  · simp at h

/-- The characters with every style protected: the backslashes before it are doubled, and one
more is put in front of it. `slashes` counts the backslashes just passed. -/
def escapeStyles (slashes : Nat) (cs : List Char) : List Char :=
  match _h : styleAt cs with
  | some (style, rest) =>
    List.replicate (2 * slashes + 1) '\\' ++ style ++ escapeStyles 0 rest
  | none =>
    match cs with
    | [] => List.replicate slashes '\\'
    | c :: r =>
      if c = '\\' then escapeStyles (slashes + 1) r
      else List.replicate slashes '\\' ++ c :: escapeStyles 0 r
termination_by cs.length
decreasing_by
  · exact styleAt_length _h
  · simp
  · simp

/-- The text as it is written into markup. A single backslash at its end is doubled, so that it
protects nothing that follows. -/
def escapeMarkup (s : String) : String :=
  let escaped := String.ofList (escapeStyles 0 s.toList)
  if endsWith escaped "\\" && !endsWith escaped "\\\\" then escaped ++ "\\" else escaped

/-- What is shown of markup. Of the backslashes before a style every second one is shown, and an odd
number of them protects it; elsewhere a bracket takes the backslash before it away. `slashes` counts
the backslashes just passed. -/
def shownMarkup (slashes : Nat) (cs : List Char) : List Char :=
  match _h : styleAt cs with
  | some (style, rest) =>
    List.replicate (slashes / 2) '\\' ++ (if slashes % 2 = 1 then style else []) ++
      shownMarkup 0 rest
  | none =>
    match cs with
    | [] => List.replicate slashes '\\'
    | c :: r =>
      if c = '\\' then shownMarkup (slashes + 1) r
      else
        let kept := if c = '[' then slashes - 1 else slashes
        List.replicate kept '\\' ++ c :: shownMarkup 0 r
termination_by cs.length
decreasing_by
  · exact styleAt_length _h
  · simp
  · simp

/-- What the console shows of markup. -/
def markupText (markup : String) : String := .ofList (shownMarkup 0 markup.toList)

end ModuleGraph.Text
