import ModuleGraph.FilePath
/-!
# Components of paths

Results:
* `components_slash`: the components on both sides of a slash;
* `components_append`: a name in a directory is one more component.
-/

namespace ModuleGraph

namespace Text

variable {c : Char}

theorem piecesAt_ne_nil (c : Char) (cs : List Char) : piecesAt c cs ≠ [] := by
  cases cs with
  | nil => exact List.cons_ne_nil _ _
  | cons x r =>
    rw [piecesAt]
    split
    · exact List.cons_ne_nil _ _
    · split <;> exact List.cons_ne_nil _ _

theorem piecesAt_of_not_mem {cs : List Char} (h : c ∉ cs) : piecesAt c cs = [cs] := by
  induction cs with
  | nil => rfl
  | cons x r ih =>
    rw [List.mem_cons, not_or] at h
    rw [piecesAt, if_neg (Ne.symm h.1), ih h.2]

theorem piecesAt_append (c : Char) (a b : List Char) :
    piecesAt c (a ++ c :: b) = piecesAt c a ++ piecesAt c b := by
  induction a with
  | nil => simp [piecesAt]
  | cons x a ih =>
    rw [List.cons_append, piecesAt, piecesAt, ih]
    by_cases hx : x = c
    · rw [if_pos hx, if_pos hx, List.cons_append]
    · rw [if_neg hx, if_neg hx]
      obtain ⟨p, ps, hp⟩ := List.exists_cons_of_ne_nil (piecesAt_ne_nil c a)
      rw [hp]
      rfl

end Text

namespace FilePath

/-- The text is one component of a path. -/
structure IsComponent (cs : List Char) : Prop where
  noSlash : '/' ∉ cs
  nonempty : cs ≠ []
  notHere : cs ≠ ['.']

theorem components_slash (a b : List Char) :
    components (a ++ '/' :: b) = components a ++ components b := by
  rw [components, Text.piecesAt_append, List.filter_append]
  rfl

theorem IsComponent.components_eq {cs : List Char} (h : IsComponent cs) : components cs = [cs] := by
  rw [components, Text.piecesAt_of_not_mem h.noSlash]
  simp [h.nonempty, h.notHere]

theorem isEmpty_root_iff (cs : List Char) : (root cs).isEmpty = true ↔ cs.head? ≠ some '/' := by
  cases cs with
  | nil => simp [root]
  | cons c r =>
    by_cases hc : c = '/'
    · subst hc
      unfold root
      split <;> simp_all
    · simp [root, hc]

/-- A name in a directory is written behind the directory. -/
theorem toList_append {base path : String} (h : IsComponent path.toList) :
    (append base path).toList = base.toList ++ path.toList ∧ (∃ a, base.toList = a ++ ['/']) ∨
      (append base path).toList = base.toList ++ '/' :: path.toList := by
  have hstart : Text.startsWith path "/" = false := by
    rw [Text.startsWith, Bool.eq_false_iff]
    intro hp
    obtain ⟨r, hr⟩ := List.isPrefixOf_iff_prefix.1 hp
    exact h.noSlash (by rw [← hr]; simp)
  rw [append, hstart]
  by_cases hend : Text.endsWith base "/" = true
  · left
    obtain ⟨a, ha⟩ := List.isSuffixOf_iff_suffix.1 hend
    simp only [Bool.false_eq_true, if_false, hend, if_true, String.toList_append, true_and]
    exact ⟨a, ha.symm⟩
  · right
    simp [hend]

/-- A name in a directory is one more component. -/
theorem components_append {base path : String} (h : IsComponent path.toList) :
    components (append base path).toList = components base.toList ++ [path.toList] := by
  rcases toList_append h with ⟨happ, a, ha⟩ | happ
  · have hbase : components base.toList = components a := by
      rw [ha, components_slash]
      exact List.append_nil _
    rw [happ, hbase, ha, List.append_assoc, List.singleton_append, components_slash,
      h.components_eq]
  · rw [happ, components_slash, h.components_eq]

theorem head?_append {base path : String} (h : IsComponent path.toList) (hbase : base ≠ "") :
    (append base path).toList.head? = base.toList.head? := by
  have hne : base.toList ≠ [] := fun hnil => hbase (String.toList_injective hnil)
  obtain ⟨c, r, hr⟩ := List.exists_cons_of_ne_nil hne
  rcases toList_append h with ⟨happ, -⟩ | happ
  · rw [happ, hr, List.cons_append, List.head?_cons, List.head?_cons]
  · rw [happ, hr, List.cons_append, List.head?_cons, List.head?_cons]

end FilePath

end ModuleGraph
