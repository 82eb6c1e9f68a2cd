import ModuleGraph.Braces
import ModuleGraph.Proofs.Fetch.Dispatch
import ModuleGraph.Proofs.FilePath
import ModuleGraph.Proofs.Url.Escaped
/-!
# Normal paths and their URLs

A path from the root is normal if it is written in the one way in which paths are written that were
resolved: with single slashes, and without names that lead nowhere or up. The URL of a file is made
from its resolved path, so all that a URL has to keep are normal paths, and it keeps them whatever
characters their names are made of.

Results:
* `isNormal_iff`: normal paths are those that places in a file tree have;
* `isNormal_of_resolve`, `IsNormal.resolve_eq`: they are what paths resolve to;
* `IsNormal.keeps`: the URL of a normal path leads back to it;
* `exists_keeps`: every URL of a file leads back to what its path resolves to.
-/

namespace ModuleGraph

theorem Text.not_mem_of_mem_piecesAt {c : Char} {cs piece : List Char}
    (h : piece ∈ piecesAt c cs) : c ∉ piece := by
  induction cs generalizing piece with
  | nil =>
    rw [piecesAt, List.mem_singleton] at h
    simp [h]
  | cons x cs ih =>
    obtain ⟨p, ps, hp⟩ := List.exists_cons_of_ne_nil (piecesAt_ne_nil c cs)
    rw [piecesAt] at h
    by_cases hx : x = c
    · rw [if_pos hx, List.mem_cons] at h
      rcases h with rfl | h
      · exact List.not_mem_nil
      · exact ih h
    · rw [if_neg hx, hp] at h
      rcases List.mem_cons.1 h with rfl | h
      · rw [List.mem_cons, not_or]
        exact ⟨Ne.symm hx, ih (hp ▸ List.mem_cons_self)⟩
      · exact ih (hp ▸ List.mem_cons_of_mem p h)

namespace FilePath

/-! ## Names and slashes -/

/-- The name of a file or a directory: a component of a path that does not lead up, without a NUL. -/
structure IsEntryName (cs : List Char) : Prop extends IsComponent cs where
  notAbove : cs ≠ ['.', '.']
  noNull : '\x00' ∉ cs

theorem joinComponents_cons (c : List Char) {r : List (List Char)} (h : r ≠ []) :
    joinComponents (c :: r) = c ++ '/' :: joinComponents r := by
  cases r with
  | nil => exact absurd rfl h
  | cons c' r => rfl

theorem joinComponents_eq (place : List (List Char)) :
    joinComponents place = Url.joinSegments place := by
  induction place with
  | nil => rfl
  | cons c r ih =>
    cases r with
    | nil => rfl
    | cons c' r =>
      rw [joinComponents_cons c (List.cons_ne_nil c' r), ih]
      rfl

theorem joinComponents_piecesAt (cs : List Char) : joinComponents (Text.piecesAt '/' cs) = cs := by
  rw [joinComponents_eq, Url.joinSegments_piecesAt]

theorem piecesAt_joinComponents {place : List (List Char)} (hne : place ≠ [])
    (h : ∀ name ∈ place, '/' ∉ name) : Text.piecesAt '/' (joinComponents place) = place := by
  induction place with
  | nil => exact absurd rfl hne
  | cons name place ih =>
    have hname := Text.piecesAt_of_not_mem (h name List.mem_cons_self)
    by_cases hrest : place = []
    · subst hrest
      exact hname
    · rw [joinComponents_cons name hrest, Text.piecesAt_append, hname,
        ih hrest fun n hn => h n (List.mem_cons_of_mem name hn)]
      rfl

theorem components_joinComponents {place : List (List Char)} (h : ∀ name ∈ place, IsComponent name) :
    components (joinComponents place) = place := by
  induction place with
  | nil => rfl
  | cons name place ih =>
    have hname := (h name List.mem_cons_self).components_eq
    by_cases hrest : place = []
    · subst hrest
      exact hname
    · rw [joinComponents_cons name hrest, components_slash, hname,
        ih fun n hn => h n (List.mem_cons_of_mem name hn)]
      rfl

theorem mem_joinComponents {place : List (List Char)} {c : Char} (h : c ∈ joinComponents place) :
    c = '/' ∨ ∃ name ∈ place, c ∈ name := by
  induction place with
  | nil => cases h
  | cons name place ih =>
    by_cases hrest : place = []
    · subst hrest
      exact .inr ⟨name, List.mem_cons_self, h⟩
    · rw [joinComponents_cons name hrest, List.mem_append, List.mem_cons] at h
      rcases h with h | rfl | h
      · exact .inr ⟨name, List.mem_cons_self, h⟩
      · exact .inl rfl
      · exact (ih h).imp_right fun ⟨n, hn, hc⟩ => ⟨n, List.mem_cons_of_mem name hn, hc⟩

/-! ## Normal paths -/

/-- The path of what stands at a place. -/
def atPlace (place : List (List Char)) : String := .ofList ('/' :: joinComponents place)

/-- The path begins with a slash, and behind it there is nothing, or there are names with single
slashes between them. -/
structure IsNormal (path : String) : Prop where
  rooted : path.toList.head? = some '/'
  names : path = "/" ∨ ∀ name ∈ Text.piecesAt '/' path.toList.tail, IsEntryName name

theorem toList_atPlace (place : List (List Char)) :
    (atPlace place).toList = '/' :: joinComponents place := String.toList_ofList

theorem isNormal_atPlace {place : List (List Char)} (h : ∀ name ∈ place, IsEntryName name) :
    IsNormal (atPlace place) where
  rooted := by
    rw [toList_atPlace]
    rfl
  names := by
    by_cases hne : place = []
    · subst hne
      exact .inl rfl
    · right
      rw [toList_atPlace, List.tail_cons, piecesAt_joinComponents hne fun n hn => (h n hn).noSlash]
      exact h

/-- Normal paths are those of the places in a file tree. -/
theorem isNormal_iff {path : String} : IsNormal path ↔
    ∃ place, (∀ name ∈ place, IsEntryName name) ∧ path = atPlace place := by
  constructor
  · rintro ⟨hrooted, rfl | hnames⟩
    · exact ⟨[], by simp, rfl⟩
    · obtain ⟨rest, hrest⟩ := List.head?_eq_some_iff.1 hrooted
      refine ⟨_, hnames, ?_⟩
      rw [← String.toList_inj, toList_atPlace, joinComponents_piecesAt, hrest, List.tail_cons]
  · rintro ⟨place, hplace, rfl⟩
    exact isNormal_atPlace hplace

section

variable {place : List (List Char)} (h : ∀ name ∈ place, IsEntryName name)

include h

theorem components_atPlace : components (atPlace place).toList = place := by
  have hslash := components_slash [] (joinComponents place)
  rw [List.nil_append] at hslash
  rw [toList_atPlace, hslash, components_joinComponents fun n hn => (h n hn).toIsComponent]
  rfl

theorem foldl_enter (done : List (List Char)) : place.foldl enter done = place.reverse ++ done := by
  induction place generalizing done with
  | nil => rfl
  | cons name place ih =>
    rw [List.foldl_cons, enter, if_neg (h name List.mem_cons_self).notAbove,
      ih (fun n hn => h n (List.mem_cons_of_mem name hn)), List.reverse_cons, List.append_assoc]
    rfl

theorem resolve_atPlace : resolve (atPlace place) = .ok (atPlace place) := by
  have hnull : (atPlace place).toList.contains '\x00' = false := by
    rw [Bool.eq_false_iff, ne_eq, List.contains_iff_mem, toList_atPlace, List.mem_cons, not_or]
    refine ⟨by decide, fun hmem => ?_⟩
    rcases mem_joinComponents hmem with hslash | ⟨name, hname, hc⟩
    · revert hslash
      decide
    · exact (h name hname).noNull hc
  rw [resolve, hnull, absolute, components_atPlace h, foldl_enter h, List.append_nil,
    List.reverse_reverse]
  rfl

theorem normalize_atPlace : normalize (atPlace place) = atPlace place := by
  have hroot : root (atPlace place).toList = ['/'] := by
    rw [toList_atPlace]
    cases place with
    | nil => rfl
    | cons name place =>
      have hname := h name List.mem_cons_self
      obtain ⟨c, cs, rfl⟩ := List.exists_cons_of_ne_nil hname.nonempty
      have hc : c ≠ '/' := fun hc => hname.noSlash (hc ▸ List.mem_cons_self)
      obtain ⟨rest, hrest⟩ : ∃ rest, joinComponents ((c :: cs) :: place) = c :: rest := by
        cases place <;> exact ⟨_, rfl⟩
      rw [hrest]
      unfold root
      split <;> simp_all
  rw [normalize, hroot, components_atPlace h]
  rfl

end

theorem IsNormal.resolve_eq {path : String} (h : IsNormal path) : resolve path = .ok path := by
  obtain ⟨place, hplace, rfl⟩ := isNormal_iff.1 h
  exact resolve_atPlace hplace

theorem IsNormal.normalize_eq {path : String} (h : IsNormal path) : normalize path = path := by
  obtain ⟨place, hplace, rfl⟩ := isNormal_iff.1 h
  exact normalize_atPlace hplace

/-! ## Resolving -/

/-- Carrying out `..` leaves some of the names, and none that leads up. -/
theorem mem_foldl_enter {cs done : List (List Char)} {name : List Char}
    (h : name ∈ cs.foldl enter done) : name ∈ done ∨ name ∈ cs ∧ name ≠ ['.', '.'] := by
  induction cs generalizing done with
  | nil => exact .inl h
  | cons c cs ih =>
    rw [List.foldl_cons] at h
    rcases ih h with hdone | ⟨hmem, habove⟩
    · rw [enter] at hdone
      split_ifs at hdone with hc
      · exact .inl (List.mem_of_mem_tail hdone)
      · rcases List.mem_cons.1 hdone with rfl | hdone
        · exact .inr ⟨List.mem_cons_self, hc⟩
        · exact .inl hdone
    · exact .inr ⟨List.mem_cons_of_mem c hmem, habove⟩

/-- A path resolves to a normal one. -/
theorem isNormal_of_resolve {path p : String} (h : resolve path = .ok p) : IsNormal p := by
  unfold resolve at h
  split_ifs at h with hnull
  rw [List.contains_iff_mem] at hnull
  cases h
  refine isNormal_atPlace fun name hname => ?_
  obtain ⟨hmem, habove⟩ :=
    (mem_foldl_enter (List.mem_reverse.1 hname)).resolve_left List.not_mem_nil
  obtain ⟨hpiece, hsome⟩ := List.mem_filter.1 hmem
  have hslash := Text.not_mem_of_mem_piecesAt hpiece
  simp only [Bool.and_eq_true, Bool.not_eq_true', List.isEmpty_eq_false_iff, bne_iff_ne] at hsome
  exact ⟨⟨hslash, hsome.1, hsome.2⟩, habove, fun hc =>
    hnull (Braces.mem_piecesAt_subset hpiece hc)⟩

/-! ## URLs -/

/-- The URL of a path leads back to it, both as the key of a module and as the place of a file. -/
structure Keeps (path url : String) : Prop where
  written : toUrl path = .ok url
  key : virtualPath url = .ok path
  place : ofUrl url = .ok path

/-- A URL is that of one path. -/
theorem Keeps.unique {path path' url : String} (h : Keeps path url) (h' : Keeps path' url) :
    path = path' := by
  have hkey := h.key
  rw [h'.key, Except.ok.injEq] at hkey
  exact hkey.symm

theorem virtualPath_of_file {path : String} (h : path.toList.head? = some '/') :
    virtualPath ("file://" ++ Url.escapePath path) = .ok path := by
  have hsplit := Url.split_file h
  rw [virtualPath_eq (registryToNetworkUrl_of_none hsplit rfl) hsplit, if_pos rfl,
    Url.unescape_escapePath, String.ofList_toList]

theorem ofUrl_of_file {path : String} (h : path.toList.head? = some '/') :
    ofUrl ("file://" ++ Url.escapePath path) = .ok (normalize path) := by
  rw [ofUrl, Url.split_file h, Except.map, Url.unescape_escapePath, String.ofList_toList]

/-- The URL of a normal path leads back to it. -/
theorem IsNormal.keeps {path : String} (h : IsNormal path) :
    Keeps path ("file://" ++ Url.escapePath path) where
  written := by
    rw [toUrl, h.resolve_eq]
    rfl
  key := virtualPath_of_file h.rooted
  place := by rw [ofUrl_of_file h.rooted, h.normalize_eq]

/-- Every URL of a file leads back to what its path resolves to. -/
theorem exists_keeps {path url : String} (h : toUrl path = .ok url) :
    ∃ p, resolve path = .ok p ∧ IsNormal p ∧ Keeps p url := by
  obtain ⟨p, hp, rfl⟩ := Action.map_eq_ok_iff.1 h
  exact ⟨p, hp, isNormal_of_resolve hp, (isNormal_of_resolve hp).keeps⟩

end FilePath

end ModuleGraph
