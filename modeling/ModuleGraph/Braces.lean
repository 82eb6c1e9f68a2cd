import ModuleGraph.Text.Affix
/-!
# Alternatives in braces

A pattern may hold groups of alternatives, as in `*.{ts,js}`. Expansion takes the first group
without braces inside it, puts each of its alternatives in the group's place, and goes on with
the patterns that this gives, until none of them has a group.
-/

namespace ModuleGraph.Braces

/-- The first group that has no braces inside it: what stands before it, its inside, and what
stands after it. `before` and `inside` are read backwards; `inside` is missing until a brace
opens. -/
def groupFrom (before : List Char) (inside : Option (List Char)) :
    List Char → Option (List Char × List Char × List Char)
  | [] => none
  | c :: r =>
    match inside with
    | none =>
      if c = '\x7b' then groupFrom before (some []) r else groupFrom (c :: before) none r
    | some i =>
      if c = '\x7b' then groupFrom (i ++ '\x7b' :: before) (some []) r
      else if c = '\x7d' then some (before.reverse, i.reverse, r)
      else groupFrom before (some (c :: i)) r

/-- The first group of a pattern that has no braces inside it. -/
def group? (pattern : List Char) : Option (List Char × List Char × List Char) :=
  groupFrom [] none pattern

/-- Nothing is lost: the pattern is what stands before the group, the group and what follows. -/
theorem groupFrom_eq_some {before : List Char} {inside : Option (List Char)} {cs h i t : List Char}
    (he : groupFrom before inside cs = some (h, i, t)) :
    before.reverse ++ (inside.map fun w => '\x7b' :: w.reverse).getD [] ++ cs =
      h ++ '\x7b' :: i ++ '\x7d' :: t := by
  induction cs generalizing before inside with
  | nil => simp [groupFrom] at he
  | cons c r ih =>
    cases inside with
    | none =>
      rw [groupFrom] at he
      split at he
      · next hc => have := ih he; simp_all
      · have := ih he; simp_all
    | some w =>
      rw [groupFrom] at he
      split at he
      · next hc => have := ih he; simp_all
      · split at he
        · next hc =>
          simp only [Option.some.injEq, Prod.mk.injEq] at he
          obtain ⟨rfl, rfl, rfl⟩ := he
          simp [hc]
        · have := ih he; simp_all

/-- No brace stands inside the group. -/
theorem groupFrom_inside {before : List Char} {inside : Option (List Char)} {cs h i t : List Char}
    (hi : ∀ w, inside = some w → '\x7b' ∉ w ∧ '\x7d' ∉ w)
    (he : groupFrom before inside cs = some (h, i, t)) : '\x7b' ∉ i ∧ '\x7d' ∉ i := by
  induction cs generalizing before inside with
  | nil => simp [groupFrom] at he
  | cons c r ih =>
    cases inside with
    | none =>
      rw [groupFrom] at he
      split at he
      · exact ih (by simp) he
      · exact ih (by simp) he
    | some w =>
      rw [groupFrom] at he
      split at he
      · exact ih (by simp) he
      · next hopen =>
        split at he
        · simp only [Option.some.injEq, Prod.mk.injEq] at he
          obtain ⟨_, rfl, _⟩ := he
          simpa using hi w rfl
        · next hclose =>
          refine ih ?_ he
          intro v hv
          cases hv
          obtain ⟨a, b⟩ := hi w rfl
          simp [a, b, Ne.symm hopen, Ne.symm hclose]

theorem mem_piecesAt_subset {c x : Char} {cs p : List Char} (hp : p ∈ Text.piecesAt c cs)
    (hx : x ∈ p) : x ∈ cs := by
  induction cs generalizing p with
  | nil => simp [Text.piecesAt] at hp; simp [hp] at hx
  | cons y r ih =>
    rw [Text.piecesAt] at hp
    by_cases hy : y = c
    · rw [if_pos hy] at hp
      rcases List.mem_cons.1 hp with rfl | hp
      · simp at hx
      · exact List.mem_cons_of_mem _ (ih hp hx)
    · rw [if_neg hy] at hp
      cases hr : Text.piecesAt c r with
      | nil => simp [hr] at hp; simp [hp] at hx; simp [hx]
      | cons q qs =>
        simp only [hr, List.mem_cons] at hp
        rcases hp with rfl | hp
        · rcases List.mem_cons.1 hx with rfl | hx
          · simp
          · exact List.mem_cons_of_mem _ (ih (by simp [hr]) hx)
        · exact List.mem_cons_of_mem _ (ih (by simp [hr, hp]) hx)

/-- The patterns that one step of expansion gives, each with one group less. -/
theorem count_alternative {pattern h i t a : List Char} (he : group? pattern = some (h, i, t))
    (ha : a ∈ Text.piecesAt ',' i) : (h ++ a ++ t).count '\x7b' < pattern.count '\x7b' := by
  have heq : pattern = h ++ '\x7b' :: i ++ '\x7d' :: t := groupFrom_eq_some he
  have hin := groupFrom_inside (by simp) he
  have hzero : a.count '\x7b' = 0 :=
    List.count_eq_zero.2 fun hm => hin.1 (mem_piecesAt_subset ha hm)
  rw [heq]
  simp only [List.count_append, List.count_cons_self, hzero]
  have := List.count_le_count_cons (a := '\x7b') (b := '\x7d') (l := t)
  omega

/-- The patterns without groups that a pattern stands for. -/
def expandChars (pattern : List Char) : List (List Char) :=
  match _he : group? pattern with
  | none => [pattern]
  | some (h, i, t) =>
    (Text.piecesAt ',' i).attach.flatMap fun a => expandChars (h ++ a.1 ++ t)
termination_by pattern.count '\x7b'
decreasing_by exact count_alternative _he a.2

/-- The patterns without groups that a pattern stands for (`expand_braces`). -/
def expand (pattern : String) : List String := (expandChars pattern.toList).map .ofList

end ModuleGraph.Braces
