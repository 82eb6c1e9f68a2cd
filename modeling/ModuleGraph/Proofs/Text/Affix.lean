import Mathlib.Data.List.TakeWhile
import ModuleGraph.Text.Affix
/-!
# Beginnings and endings of texts

Results:
* `startsWith_iff`, `endsWith_iff`: the tests of the library in terms of lists;
* `startsWith_append`, `endsWith_append_right`: the beginning and the ending of a longer text;
* `contains_iff`: the test for a part of a text; `IsPartOf.trans`, `isPartOf_join`: parts of parts,
  and of joined texts;
* `cutAtLast_append`: a list is cut in front of a part that has no separator;
* `trimEndList_append`, `trimEndList_append_of_forall`: what is left once the end of a list is
  trimmed.
-/

namespace ModuleGraph.Text

theorem startsWith_iff {s start : String} :
    startsWith s start = true ↔ start.toList <+: s.toList := by
  rw [startsWith, List.isPrefixOf_iff_prefix]

theorem endsWith_iff {s stop : String} : endsWith s stop = true ↔ stop.toList <:+ s.toList := by
  rw [endsWith, List.isSuffixOf_iff_suffix]

theorem startsWith_append {a b start : String} (h : startsWith a start = true) :
    startsWith (a ++ b) start = true := by
  rw [startsWith_iff] at h ⊢
  rw [String.toList_append]
  exact h.trans (List.prefix_append _ _)

theorem endsWith_append_right {a b stop : String} (h : endsWith b stop = true) :
    endsWith (a ++ b) stop = true := by
  rw [endsWith_iff] at h ⊢
  rw [String.toList_append]
  exact h.trans (List.suffix_append _ _)

/-! ## Parts of texts -/

/-- The text stands somewhere in another one. -/
def IsPartOf (part s : String) : Prop := part.toList <:+: s.toList

theorem hasInfix_iff {needle hay : List Char} : hasInfix needle hay = true ↔ needle <:+: hay := by
  induction hay with
  | nil => rw [hasInfix, List.isEmpty_iff, List.infix_nil]
  | cons x r ih =>
    rw [hasInfix, Bool.or_eq_true, List.isPrefixOf_iff_prefix, ih, List.infix_cons_iff]

theorem contains_iff {s part : String} : contains s part = true ↔ IsPartOf part s :=
  hasInfix_iff

@[refl]
theorem IsPartOf.refl (s : String) : IsPartOf s s := List.infix_rfl

theorem IsPartOf.trans {a b c : String} (h : IsPartOf a b) (h' : IsPartOf b c) : IsPartOf a c :=
  List.IsInfix.trans h h'

theorem isPartOf_of_empty (s : String) : IsPartOf "" s := List.nil_infix

theorem IsPartOf.append_left {part s : String} (h : IsPartOf part s) (before : String) :
    IsPartOf part (before ++ s) := by
  rw [IsPartOf, String.toList_append]
  exact List.IsInfix.trans h (List.suffix_append _ _).isInfix

theorem IsPartOf.append_right {part s : String} (h : IsPartOf part s) (after : String) :
    IsPartOf part (s ++ after) := by
  rw [IsPartOf, String.toList_append]
  exact List.IsInfix.trans h (List.prefix_append _ _).isInfix

theorem IsPartOf.ne_empty {part s : String} (h : IsPartOf part s) (hpart : part ≠ "") : s ≠ "" := by
  rintro rfl
  exact hpart (String.toList_inj.1 (List.infix_nil.1 h))

/-- Joining texts keeps each of them. -/
theorem isPartOf_join {sep s : String} {texts : List String} (h : s ∈ texts) :
    IsPartOf s (sep.intercalate texts) := by
  induction texts with
  | nil => cases h
  | cons t r ih =>
    cases r with
    | nil =>
      rw [String.intercalate_singleton, List.mem_singleton.1 h]
    | cons u r =>
      rw [String.intercalate_cons_cons]
      rcases List.mem_cons.1 h with rfl | h
      · exact ((IsPartOf.refl s).append_right sep).append_right _
      · exact (ih h).append_left _

/-! ## Cutting and trimming -/

theorem cutAtLast_append {c : Char} {a b : List Char} (h : c ∉ b) :
    cutAtLast c (a ++ c :: b) = some (a, b) := by
  induction a with
  | nil =>
    rw [List.nil_append, cutAtLast, cutAtLast_eq_none.2 h]
    simp
  | cons x a ih => rw [List.cons_append, cutAtLast, ih]

/-- A list that ends in a character of another kind is not trimmed. -/
theorem trimEndList_append {p : Char → Bool} {a : List Char} {c : Char} (h : p c = false) :
    trimEndList p (a ++ [c]) = a ++ [c] := by
  rw [trimEndList, List.reverse_append, List.reverse_singleton, List.singleton_append,
    List.dropWhile_cons_of_neg (by simp [h]), List.reverse_cons, List.reverse_reverse]

/-- What is trimmed behind a list does not matter. -/
theorem trimEndList_append_of_forall {p : Char → Bool} (a : List Char) {b : List Char}
    (h : ∀ c ∈ b, p c = true) : trimEndList p (a ++ b) = trimEndList p a := by
  rw [trimEndList, trimEndList, List.reverse_append,
    List.dropWhile_append_of_pos fun c hc => h c (List.mem_reverse.1 hc)]

theorem trimEndList_of_forall {p : Char → Bool} {a : List Char} (h : ∀ c ∈ a, p c = true) :
    trimEndList p a = [] :=
  trimEndList_append_of_forall [] h

/-- What trimming leaves is empty, or ends in a character of another kind. -/
theorem trimEndList_cases (p : Char → Bool) (a : List Char) :
    (trimEndList p a = [] ∧ ∀ c ∈ a, p c = true) ∨
      ∃ b c, trimEndList p a = b ++ [c] ∧ p c = false := by
  rw [trimEndList]
  cases h : a.reverse.dropWhile p with
  | nil =>
    refine .inl ⟨rfl, fun c hc => ?_⟩
    exact List.dropWhile_eq_nil_iff.1 h c (List.mem_reverse.2 hc)
  | cons c r =>
    refine .inr ⟨r.reverse, c, List.reverse_cons, ?_⟩
    have hhead := List.head?_dropWhile_not p a.reverse
    rw [h] at hhead
    simpa using hhead

end ModuleGraph.Text
