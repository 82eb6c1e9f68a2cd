import ModuleGraph.Proofs.Url.Absolute
/-!
# What is put behind a URL

A text that is put behind a URL becomes part of its path, unless the URL has a query or a fragment:
then it becomes part of that. The scheme and the authority stay what they are, as long as something
follows the authority.

Results:
* `clean_append`: what is cut of a longer text;
* `cutAuthority_append`: the authority stays;
* `splitClean_append`: the parts of a longer text;
* `splitClean_append_path`: without marks, it is the path that is longer.
-/

namespace ModuleGraph.Url

/-! ## Longer texts -/

/-- What is put behind a text that has something to cut is kept, up to what is dropped everywhere. -/
theorem clean_append {cs : List Char} (h : clean cs ≠ []) (ending : List Char) :
    clean (cs ++ ending) = clean cs ++ ending.filter fun c => !isLineControl c := by
  have hne : (cs.dropWhile fun c => decide (c.toNat ≤ 0x20)).isEmpty = false := by
    rw [List.isEmpty_eq_false_iff]
    intro hnil
    exact h (by rw [clean, hnil, List.filter_nil])
  rw [clean, List.dropWhile_append, hne, if_neg Bool.false_ne_true, List.filter_append]
  rfl

theorem cutTail_append {c : Char} {cs : List Char} (h : c ∈ cs) (ending : List Char) :
    cutTail c (cs ++ ending) = ((cutTail c cs).1, (cutTail c cs).2 ++ ending) := by
  cases hcut : Text.cutAt c cs with
  | none => exact absurd h (Text.cutAt_eq_none.1 hcut)
  | some p =>
    obtain ⟨a, b⟩ := p
    rw [cutTail, cutTail, hcut, Text.cutAt_append hcut]

/-- Where something follows the authority, the authority does not change. -/
theorem cutAuthority_append {cs ending : List Char} (h : (cutAuthority cs).2 ≠ [])
    (he : ending.head? ≠ some '/') :
    cutAuthority (cs ++ ending) = ((cutAuthority cs).1, (cutAuthority cs).2 ++ ending) := by
  by_cases hslashes : ∃ t, cs = '/' :: '/' :: t
  · obtain ⟨t, rfl⟩ := hslashes
    have hne : (t.dropWhile fun c => !endsAuthority c) ≠ [] := h
    have hlen : ¬ (t.takeWhile fun c => !endsAuthority c).length = t.length := by
      intro hlen
      have hall := (List.takeWhile_prefix fun c => !endsAuthority c).eq_of_length hlen
      exact hne (List.dropWhile_eq_nil_iff.2 (List.takeWhile_eq_self_iff.1 hall))
    simp only [List.cons_append, cutAuthority]
    rw [List.takeWhile_append, if_neg hlen, List.dropWhile_append, if_neg (by simpa using hne)]
  · rw [not_exists] at hslashes
    rw [cutAuthority_of_not_slashes hslashes] at h ⊢
    refine cutAuthority_of_not_slashes fun t ht => ?_
    cases cs with
    | nil => exact h rfl
    | cons c cs =>
      cases cs with
      | nil =>
        cases ht
        exact he rfl
      | cons d cs =>
        cases ht
        exact hslashes _ rfl

/-- The parts with `ending` behind one of those that come last. -/
inductive Lengthened (ending : List Char) (p : Parts) : Parts → Prop
  | path : Lengthened ending p { p with path := p.path ++ ending }
  | query : Lengthened ending p { p with query := p.query ++ ending }
  | fragment : Lengthened ending p { p with fragment := p.fragment ++ ending }

/-- The parts of which `rest` is what follows the authority. -/
def Parts.ofRest (scheme authority rest : List Char) : Parts where
  scheme := scheme
  authority := authority
  path := (cutTail '?' (cutTail '#' rest).1).1
  query := (cutTail '?' (cutTail '#' rest).1).2
  fragment := (cutTail '#' rest).2

theorem splitClean_eq_ofRest (inherited cs : List Char) : splitClean inherited cs =
    match authorityProblem (cutAuthority (cutScheme inherited cs).2).1 with
    | some e => .error e
    | none => .ok (.ofRest (cutScheme inherited cs).1 (cutAuthority (cutScheme inherited cs).2).1
        (cutAuthority (cutScheme inherited cs).2).2) := rfl

/-- What is put behind everything is put behind the part that comes last. -/
theorem lengthened_ofRest (scheme authority rest : List Char) {ending : List Char}
    (hq : '?' ∉ ending) (hf : '#' ∉ ending) :
    Lengthened ending (.ofRest scheme authority rest) (.ofRest scheme authority (rest ++ ending)) := by
  by_cases hfragment : '#' ∈ rest
  · rw [Parts.ofRest, Parts.ofRest, cutTail_append hfragment]
    exact .fragment
  · have hnone : '#' ∉ rest ++ ending := by simp [hfragment, hf]
    rw [Parts.ofRest, Parts.ofRest, cutTail_of_not_mem hfragment, cutTail_of_not_mem hnone]
    by_cases hquery : '?' ∈ rest
    · rw [cutTail_append hquery]
      exact .query
    · have hnone : '?' ∉ rest ++ ending := by simp [hquery, hq]
      rw [cutTail_of_not_mem hquery, cutTail_of_not_mem hnone]
      exact .path

theorem hasScheme_of_scheme_ne_nil {cs : List Char} {p : Parts} (h : splitClean [] cs = .ok p)
    (hs : p.scheme ≠ []) : HasScheme cs := by
  by_contra hnone
  exact hs (by rw [scheme_of_splitClean h, cutScheme_of_not_hasScheme hnone])

/-- A text with a scheme of its own keeps it. -/
theorem cutScheme_append {cs : List Char} (h : HasScheme cs) (inherited ending : List Char) :
    cutScheme inherited (cs ++ ending) =
      ((cutScheme inherited cs).1, (cutScheme inherited cs).2 ++ ending) := by
  obtain ⟨a, r, rfl, ha⟩ := h
  rw [List.append_assoc, List.cons_append, cutScheme_of_isScheme ha, cutScheme_of_isScheme ha]

/-- A text that begins with a point or a slash has no scheme, however it goes on. -/
theorem cutScheme_append_of_head? {cs : List Char} (h : cs.head? = some '.' ∨ cs.head? = some '/')
    (inherited ending : List Char) : cutScheme inherited (cs ++ ending) =
      ((cutScheme inherited cs).1, (cutScheme inherited cs).2 ++ ending) := by
  have hlonger : (cs ++ ending).head? = some '.' ∨ (cs ++ ending).head? = some '/' := by
    cases cs with
    | nil => rcases h with h | h <;> cases h
    | cons c cs => exact h
  rw [cutScheme_of_not_hasScheme (not_hasScheme_of_head? h),
    cutScheme_of_not_hasScheme (not_hasScheme_of_head? hlonger)]

section

variable {inherited cs ending : List Char} {p : Parts}
  (hcut : cutScheme inherited (cs ++ ending) =
    ((cutScheme inherited cs).1, (cutScheme inherited cs).2 ++ ending))
  (hslash : ending.head? ≠ some '/')

include hcut hslash

theorem cutAuthority_of_path (h : splitClean inherited cs = .ok p) (hpath : p.path ≠ []) :
    cutAuthority (cutScheme inherited (cs ++ ending)).2 =
      ((cutAuthority (cutScheme inherited cs).2).1,
        (cutAuthority (cutScheme inherited cs).2).2 ++ ending) := by
  have hrest : (cutAuthority (cutScheme inherited cs).2).2 ≠ [] := by
    intro hnil
    have hp := (splitClean_eq_ok h).2
    rw [hnil] at hp
    exact hpath hp
  rw [hcut, cutAuthority_append hrest hslash]

/-- A longer text has the parts of the shorter one, and one of them is longer. -/
theorem splitClean_append (h : splitClean inherited cs = .ok p) (hpath : p.path ≠ [])
    (hq : '?' ∉ ending) (hf : '#' ∉ ending) :
    ∃ p', splitClean inherited (cs ++ ending) = .ok p' ∧ Lengthened ending p p' := by
  rw [splitClean_eq_ofRest, cutAuthority_of_path hcut hslash h hpath, hcut]
  rw [splitClean_eq_ofRest] at h
  split at h
  · cases h
  · next hproblem =>
    cases h
    dsimp only
    rw [hproblem]
    exact ⟨_, rfl, lengthened_ofRest _ _ _ hq hf⟩

/-- Where there are no marks, it is the path that is longer. -/
theorem splitClean_append_path (h : splitClean inherited cs = .ok p) (hpath : p.path ≠ [])
    (hq : '?' ∉ cs ++ ending) (hf : '#' ∉ cs ++ ending) :
    splitClean inherited (cs ++ ending) = .ok { p with path := p.path ++ ending } := by
  rw [List.mem_append, not_or] at hq hf
  rw [splitClean_eq (by simp [hq]) (by simp [hf]), cutAuthority_of_path hcut hslash h hpath, hcut]
  rw [splitClean_eq hq.1 hf.1] at h
  split at h
  · cases h
  · next hproblem =>
    cases h
    dsimp only
    rw [hproblem]

end

end ModuleGraph.Url
