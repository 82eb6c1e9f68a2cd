import Mathlib.Data.List.Induction
import ModuleGraph.FileTree.Update
import ModuleGraph.Proofs.Action
import ModuleGraph.Proofs.FilePath
import ModuleGraph.Proofs.Table
import ModuleGraph.Proofs.Utf8
/-!
# Places in a file tree

Operations on a file tree take paths, and say what they did to components. For a path without `..`
the components are known beforehand: `placeOf` has them, for trees in which everything stands in a
directory.

Results:
* `get?_set`, `get?_erase`: what stands where after a change;
* `Sound.set`, `Sound.erase`: changes that keep a tree sound;
* `follow_names`, `eq_of_follow`: where the names of a path lead;
* `node_of_locate`, `locate_of_node`: what is found at a path is what stands at its place.
-/

namespace ModuleGraph.FileTree

variable {t : FileTree} {p q : List (List Char)} {n : FileNode}

/-! ## What stands where -/

@[simp] theorem get?_nil (t : FileTree) : t.get? [] = some .directory := rfl

theorem get?_of_ne_nil (hp : p ≠ []) : t.get? p = t.nodes.lookup p := by
  rw [get?, if_neg (by simpa using hp)]

theorem lookup_map_replace (l : List (List (List Char) × FileNode)) (p q : List (List Char))
    (n : FileNode) : (l.map fun e => if e.1 = p then (p, n) else e).lookup q =
      if q = p then (l.lookup p).map fun _ => n else l.lookup q := by
  induction l with
  | nil => simp
  | cons e l ih =>
    obtain ⟨key, m⟩ := e
    rw [List.map_cons, Table.lookup_cons_eq_if, Table.lookup_cons_eq_if]
    by_cases he : key = p
    · rw [if_pos he, Table.lookup_cons_eq_if, ih, if_pos he.symm, he]
      by_cases hq : q = p
      · rw [if_pos hq, if_pos hq, Option.map_some]
      · rw [if_neg hq, if_neg hq, if_neg hq, if_neg hq]
    · rw [if_neg he, Table.lookup_cons_eq_if, ih, if_neg (Ne.symm he)]
      by_cases hq : q = p
      · rw [if_pos hq, if_pos hq, if_neg fun h => he (h.symm.trans hq)]
      · rw [if_neg hq, if_neg hq]

theorem lookup_filter_ne (l : List (List (List Char) × FileNode)) (p q : List (List Char)) :
    (l.filter (·.1 ≠ p)).lookup q = if q = p then none else l.lookup q := by
  induction l with
  | nil => simp
  | cons e l ih =>
    obtain ⟨key, m⟩ := e
    rw [Table.lookup_cons_eq_if]
    by_cases he : key = p
    · rw [List.filter_cons_of_neg (by simpa using he), ih, he]
      by_cases hq : q = p
      · rw [if_pos hq, if_pos hq]
      · rw [if_neg hq, if_neg hq, if_neg hq]
    · rw [List.filter_cons_of_pos (by simpa using he), Table.lookup_cons_eq_if, ih]
      by_cases hq : q = p
      · rw [if_pos hq, if_pos hq, if_neg fun h => he (h.symm.trans hq)]
      · rw [if_neg hq, if_neg hq]

@[simp] theorem start_set (t : FileTree) (p : List (List Char)) (n : FileNode) :
    (t.set p n).start = t.start := by
  rw [set]
  split <;> rfl

@[simp] theorem start_erase (t : FileTree) (p : List (List Char)) : (t.erase p).start = t.start :=
  rfl

theorem get?_set (t : FileTree) (hp : p ≠ []) (n : FileNode) (q : List (List Char)) :
    (t.set p n).get? q = if q = p then some n else t.get? q := by
  by_cases hq : q = []
  · subst hq
    rw [if_neg (Ne.symm hp), get?_nil, get?_nil]
  rw [get?_of_ne_nil hq, get?_of_ne_nil hq, set]
  split
  · next hany =>
    obtain ⟨e, he, hep⟩ := List.any_eq_true.1 hany
    have hsome : t.nodes.lookup p ≠ none := by
      intro hnone
      have := List.lookup_eq_none_iff.1 hnone e he
      simp [of_decide_eq_true hep] at this
    obtain ⟨m, hm⟩ := Option.ne_none_iff_exists'.1 hsome
    rw [lookup_map_replace, hm, Option.map_some]
  · next hany =>
    have hnone : t.nodes.lookup p = none := by
      refine List.lookup_eq_none_iff.2 fun e he => ?_
      have hne : e.1 ≠ p := fun hep => hany (List.any_eq_true.2 ⟨e, he, decide_eq_true hep⟩)
      simpa using hne.symm
    rw [List.lookup_append, Table.lookup_cons_eq_if, List.lookup_nil]
    by_cases hqp : q = p
    · rw [if_pos hqp, if_pos hqp, hqp, hnone, Option.none_or]
    · rw [if_neg hqp, if_neg hqp, Option.or_none]

theorem get?_erase (t : FileTree) (hp : p ≠ []) (q : List (List Char)) :
    (t.erase p).get? q = if q = p then none else t.get? q := by
  by_cases hq : q = []
  · subst hq
    rw [if_neg (Ne.symm hp), get?_nil, get?_nil]
  · rw [get?_of_ne_nil hq, get?_of_ne_nil hq, erase]
    exact lookup_filter_ne t.nodes p q

theorem isDirectoryAt_iff : t.isDirectoryAt p = true ↔ t.get? p = some .directory := by
  rw [isDirectoryAt, decide_eq_true_eq]

/-! ## Sound trees -/

/-- Whatever stands in the tree stands in a directory, and so does what starts from where the tree
is looked at. -/
structure Sound (t : FileTree) : Prop where
  above : ∀ p name, (t.get? (p ++ [name])).isSome = true → t.get? p = some .directory
  start : t.get? t.start = some .directory

namespace Sound

/-- Everything above what stands somewhere is a directory. -/
theorem above_append (h : t.Sound) (hq : q ≠ []) (hs : (t.get? (p ++ q)).isSome = true) :
    t.get? p = some .directory := by
  induction q using List.reverseRec with
  | nil => exact absurd rfl hq
  | append_singleton q name ih =>
    rw [← List.append_assoc] at hs
    have habove := h.above _ _ hs
    cases q with
    | nil => simpa using habove
    | cons c q => exact ih (by simp) (by rw [habove]; rfl)

theorem above_prefix (h : t.Sound) (hq : q <+: p) (hp : t.get? p = some .directory) :
    t.get? q = some .directory := by
  obtain ⟨r, rfl⟩ := hq
  cases r with
  | nil => rwa [List.append_nil] at hp
  | cons c r => exact h.above_append (List.cons_ne_nil c r) (by rw [hp]; rfl)

theorem above_dropLast (h : t.Sound) (hs : (t.get? p).isSome = true) :
    t.get? p.dropLast = some .directory := by
  rcases List.eq_nil_or_concat p with rfl | ⟨d, name, rfl⟩
  · rfl
  · rw [List.concat_eq_append] at hs ⊢
    rw [List.dropLast_concat]
    exact h.above d name hs

theorem set (h : t.Sound) (hp : p ≠ []) (hd : t.get? p.dropLast = some .directory)
    (hn : t.get? p = some .directory → n = .directory) : (t.set p n).Sound where
  above := by
    intro d name hs
    rw [t.get?_set hp] at hs ⊢
    have hdir : t.get? d = some .directory := by
      by_cases he : d ++ [name] = p
      · rwa [← he, List.dropLast_concat] at hd
      · rw [if_neg he] at hs
        exact h.above d name hs
    by_cases hdp : d = p
    · rw [if_pos hdp, hn (hdp ▸ hdir)]
    · rw [if_neg hdp, hdir]
  start := by
    rw [start_set, t.get?_set hp]
    by_cases hs : t.start = p
    · rw [if_pos hs, hn (hs ▸ h.start)]
    · rw [if_neg hs, h.start]

theorem erase (h : t.Sound) (hp : ∃ content, t.get? p = some (.file content)) :
    (t.erase p).Sound := by
  obtain ⟨content, hp⟩ := hp
  have hne : p ≠ [] := by
    rintro rfl
    cases hp
  constructor
  · intro d name hs
    rw [t.get?_erase hne] at hs ⊢
    by_cases he : d ++ [name] = p
    · rw [if_pos he] at hs
      cases hs
    · rw [if_neg he] at hs
      have hdir := h.above d name hs
      rw [if_neg (by rintro rfl; rw [hp] at hdir; cases hdir), hdir]
  · have hstart := h.start
    rw [start_erase, t.get?_erase hne, if_neg, hstart]
    intro he
    rw [he, hp] at hstart
    cases hstart

end Sound

/-! ## Following paths -/

/-- The component leads downwards. -/
def IsName (c : List Char) : Prop := c ≠ ['.', '.'] ∧ Utf8.width c ≤ nameLimit

instance (c : List Char) : Decidable (IsName c) :=
  inferInstanceAs (Decidable (c ≠ ['.', '.'] ∧ Utf8.width c ≤ nameLimit))

theorem follow_cons {done r : List (List Char)} {c : List Char}
    (h : t.get? done = some .directory) (hc : IsName c) :
    t.follow done (c :: r) = t.follow (done ++ [c]) r := by
  rw [follow, h]
  simp only [if_neg hc.1, if_neg (Nat.not_lt.2 hc.2)]

/-- Names lead to where they say from what is a directory. -/
theorem follow_names (ht : t.Sound) {done cs : List (List Char)} (hcs : ∀ c ∈ cs, IsName c)
    (h : t.get? (done ++ cs).dropLast = some .directory) (hdone : t.get? done = some .directory) :
    t.follow done cs = .ok (done ++ cs) := by
  induction cs generalizing done with
  | nil => rw [follow, List.append_nil]
  | cons c cs ih =>
    rw [follow_cons hdone (hcs c List.mem_cons_self)]
    rcases List.eq_nil_or_concat cs with rfl | ⟨ds, d, rfl⟩
    · rw [follow]
    · rw [List.append_cons done c (ds.concat d)] at h ⊢
      refine ih (fun c hc => hcs c (List.mem_cons_of_mem _ hc)) h ?_
      rw [List.concat_eq_append, ← List.append_assoc, List.dropLast_concat] at h
      cases ds with
      | nil => simpa using h
      | cons e ds => exact ht.above_append (List.cons_ne_nil e ds) (by rw [h]; rfl)

theorem directory_of_follow_cons {done r : List (List Char)} {c : List Char}
    (h : t.follow done (c :: r) = .ok p) : t.get? done = some .directory := by
  rw [follow] at h
  cases hd : t.get? done with
  | none =>
    rw [hd] at h
    cases h
  | some n =>
    rw [hd] at h
    cases n with
    | file content => cases h
    | directory => rfl

theorem eq_of_follow {done cs : List (List Char)} (hcs : ∀ c ∈ cs, IsName c)
    (h : t.follow done cs = .ok p) : p = done ++ cs := by
  induction cs generalizing done with
  | nil =>
    cases h
    rw [List.append_nil]
  | cons c cs ih =>
    rw [follow_cons (directory_of_follow_cons h) (hcs c List.mem_cons_self)] at h
    rw [ih (fun c hc => hcs c (List.mem_cons_of_mem _ hc)) h, List.append_assoc,
      List.singleton_append]

/-- What is followed beyond its beginning stands in a directory. -/
theorem directory_of_follow {done cs : List (List Char)} {c : List Char}
    (hcs : ∀ x ∈ c :: cs, IsName x) (h : t.follow done (c :: cs) = .ok p) :
    t.get? p.dropLast = some .directory := by
  have hd := directory_of_follow_cons h
  induction cs generalizing done c with
  | nil => rw [eq_of_follow hcs h, List.dropLast_concat, hd]
  | cons d cs ih =>
    rw [follow_cons hd (hcs c List.mem_cons_self)] at h
    exact ih (fun x hx => hcs x (List.mem_cons_of_mem _ hx)) h (directory_of_follow_cons h)

/-- The path has only names. -/
structure IsPlain (path : String) : Prop where
  noNul : '\x00' ∉ path.toList
  names : ∀ c ∈ FilePath.components path.toList, IsName c

/-- Where a path is followed from. -/
def origin (t : FileTree) (path : String) : List (List Char) :=
  if (FilePath.root path.toList).isEmpty then t.start else []

/-- The components that a path of names leads to. -/
def placeOf (t : FileTree) (path : String) : List (List Char) :=
  t.origin path ++ FilePath.components path.toList

theorem placeOf_congr {t' : FileTree} (h : t'.start = t.start) (path : String) :
    t'.placeOf path = t.placeOf path := by
  rw [placeOf, placeOf, origin, origin, h]

/-- A name in a directory stands below the directory. -/
theorem placeOf_append (t : FileTree) {directory name : String} (hne : directory ≠ "")
    (hname : FilePath.IsComponent name.toList) :
    t.placeOf (FilePath.append directory name) = t.placeOf directory ++ [name.toList] := by
  have hroot : (FilePath.root (FilePath.append directory name).toList).isEmpty =
      (FilePath.root directory.toList).isEmpty := by
    rw [Bool.eq_iff_iff, FilePath.isEmpty_root_iff, FilePath.isEmpty_root_iff,
      FilePath.head?_append hname hne]
  rw [placeOf, placeOf, origin, origin, hroot, FilePath.components_append hname,
    List.append_assoc]

theorem IsPlain.append {directory name : String} (h : IsPlain directory)
    (hcomponent : FilePath.IsComponent name.toList) (hname : IsName name.toList)
    (hnul : '\x00' ∉ name.toList) : IsPlain (FilePath.append directory name) where
  noNul := by
    rcases @FilePath.toList_append directory name hcomponent with ⟨happ, -⟩ | happ
    · rw [happ, List.mem_append, not_or]
      exact ⟨h.noNul, hnul⟩
    · rw [happ, List.mem_append, List.mem_cons, not_or, not_or]
      exact ⟨h.noNul, by decide, hnul⟩
  names := by
    rw [FilePath.components_append hcomponent]
    intro c hc
    rcases List.mem_append.1 hc with hc | hc
    · exact h.names c hc
    · exact List.mem_singleton.1 hc ▸ hname

theorem Sound.origin (ht : t.Sound) (path : String) : t.get? (t.origin path) = some .directory := by
  rw [FileTree.origin]
  split
  · exact ht.start
  · rfl

theorem node_of_locate {t : FileTree} {path : String} (h : t.locate path = .ok p) :
    t.node path = match t.get? p with
      | some n => .ok n
      | none => .error (.blocked .missing path none) := by
  rw [node, h]
  change (match t.get? p with
    | some n => _
    | none => _) = _
  cases t.get? p <;> rfl

theorem locate_of_node {t : FileTree} {path : String} (h : t.node path = .ok n) :
    ∃ p, t.locate path = .ok p ∧ t.get? p = some n := by
  cases hl : t.locate path with
  | error o =>
    rw [node, hl] at h
    cases h
  | ok p =>
    rw [node_of_locate hl] at h
    cases hg : t.get? p with
    | none =>
      rw [hg] at h
      cases h
    | some m =>
      rw [hg] at h
      cases h
      exact ⟨p, rfl, hg⟩

end ModuleGraph.FileTree
