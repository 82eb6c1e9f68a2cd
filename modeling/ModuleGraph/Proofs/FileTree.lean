import ModuleGraph.Proofs.FileTree.Place
/-!
# Reading and changing a file tree

What an operation yields and what the tree holds after it, by place, for trees in which everything
stands in a directory.

Results:
* `text_eq_error_iff`, `text_eq_noPath_iff`: when a file has no text;
* `node_eq_ok_iff`, `bytes_eq_ok_iff`, `contains_iff`: what is read is what stands at the place;
* `remove_eq`, `write_eq`, `replace_eq`, `makeDirectory_eq`: the changes that go well;
* `Sound.directories`: new directories keep a tree sound.
-/

namespace ModuleGraph.FileTree

variable {t : FileTree} {p q : List (List Char)} {n : FileNode}

/-! ## Bytes and texts -/

section

variable {path text : String}

theorem text_eq_error_iff {p : Problem} : t.text path = .error p ↔
    t.bytes path = .error p ∨
      ∃ content m, t.bytes path = .ok content ∧ Utf8.decode content = .error m ∧ p = .noText m := by
  rw [FileTree.text, Action.bind_eq_error_iff]
  simp only [Action.bind_eq_error_iff, Action.mapError_eq_error_iff]
  constructor
  · rintro (h | ⟨content, hcontent, ⟨m, hm, hp⟩ | ⟨s, -, h⟩⟩)
    · exact .inl h
    · exact .inr ⟨content, m, hcontent, hm, hp⟩
    · cases h
  · rintro (h | ⟨content, m, hcontent, hm, hp⟩)
    · exact .inl h
    · exact .inr ⟨content, hcontent, .inl ⟨m, hm, hp⟩⟩

/-- A file whose bytes can be had is there. -/
theorem contains_of_bytes {content : List UInt8} (h : t.bytes path = .ok content) :
    t.contains path = true := by
  rw [contains]
  cases hnode : t.node path with
  | error p =>
    rw [bytes, hnode] at h
    cases h
  | ok n => rfl

theorem locate_eq_noPath_iff :
    t.locate path = .error .noPath ↔ path.toList.contains '\x00' = true := by
  rw [locate]
  dsimp only
  split
  · next h => exact iff_of_true rfl h
  · next h =>
    refine iff_of_false (fun hlocate => ?_) h
    obtain ⟨o, -, ho⟩ := Action.mapError_eq_error_iff.1 hlocate
    cases ho

theorem bytes_eq_noPath_iff :
    t.bytes path = .error .noPath ↔ path.toList.contains '\x00' = true := by
  rw [← locate_eq_noPath_iff (t := t), bytes, node, Action.bind_eq_error_iff,
    Action.bind_eq_error_iff]
  constructor
  · rintro ((h | ⟨components, -, h⟩) | ⟨n, -, h⟩)
    · exact h
    · cases hn : t.get? components with
      | none =>
        rw [hn] at h
        cases h
      | some n =>
        rw [hn] at h
        cases h
    · cases n <;> cases h
  · exact fun h => .inl (.inl h)

/-- A path that names nothing has a NUL. -/
theorem text_eq_noPath_iff :
    t.text path = .error .noPath ↔ path.toList.contains '\x00' = true := by
  rw [text_eq_error_iff, bytes_eq_noPath_iff]
  constructor
  · rintro (h | ⟨_, _, -, -, h⟩)
    · exact h
    · cases h
  · exact .inl

end

section

variable {path : String} (ht : t.Sound) (hpath : IsPlain path)

include hpath

theorem locate_eq : t.locate path = (t.follow (t.origin path)
    (FilePath.components path.toList)).mapError fun o => .blocked o path none := by
  rw [locate]
  simp only [List.contains_iff_mem, hpath.noNul, if_false]
  rfl

theorem eq_of_locate (h : t.locate path = .ok p) : p = t.placeOf path := by
  rw [locate_eq hpath, Action.mapError_eq_ok_iff] at h
  exact eq_of_follow hpath.names h

/-- What a path with components leads to stands in a directory. -/
theorem directory_of_locate (hne : FilePath.components path.toList ≠ [])
    (h : t.locate path = .ok p) : t.get? p.dropLast = some .directory := by
  rw [locate_eq hpath, Action.mapError_eq_ok_iff] at h
  obtain ⟨c, cs, hcs⟩ := List.exists_cons_of_ne_nil hne
  have hnames := hpath.names
  rw [hcs] at h hnames
  exact directory_of_follow hnames h

include ht

theorem locate_eq_ok (h : t.get? (t.placeOf path).dropLast = some .directory) :
    t.locate path = .ok (t.placeOf path) := by
  rw [locate_eq hpath, follow_names ht hpath.names h (ht.origin path)]
  rfl

/-! ## Reading -/

/-- What is found under a path is what stands at its place. -/
theorem node_eq_ok_iff : t.node path = .ok n ↔ t.get? (t.placeOf path) = some n := by
  constructor
  · intro h
    obtain ⟨p, hl, hg⟩ := locate_of_node h
    rwa [eq_of_locate hpath hl] at hg
  · intro h
    rw [node_of_locate (locate_eq_ok ht hpath (ht.above_dropLast (by rw [h]; rfl))), h]

theorem bytes_eq_ok_iff {content : List UInt8} :
    t.bytes path = .ok content ↔ t.get? (t.placeOf path) = some (.file content) := by
  rw [← node_eq_ok_iff ht hpath, bytes]
  cases hn : t.node path with
  | error o =>
    constructor
    · intro h
      cases h
    · intro h
      cases h
  | ok n =>
    cases n with
    | file content' =>
      constructor
      · intro h
        cases h
        rfl
      · intro h
        cases h
        rfl
    | directory =>
      constructor
      · intro h
        cases h
      · intro h
        cases h

theorem contains_iff : t.contains path = true ↔ (t.get? (t.placeOf path)).isSome = true := by
  rw [contains, Option.isSome_iff_exists, Option.isSome_iff_exists]
  constructor
  · rintro ⟨n, hn⟩
    refine ⟨n, (node_eq_ok_iff ht hpath).1 ?_⟩
    cases h : t.node path with
    | error o =>
      rw [h] at hn
      cases hn
    | ok m =>
      rw [h] at hn
      cases hn
      rfl
  · rintro ⟨n, hn⟩
    exact ⟨n, by rw [(node_eq_ok_iff ht hpath).2 hn]; rfl⟩

/-! ## Changing -/

theorem remove_eq {content : List UInt8} (h : t.get? (t.placeOf path) = some (.file content)) :
    t.remove path = .ok (t.erase (t.placeOf path)) := by
  have hl := locate_eq_ok ht hpath (ht.above_dropLast (by rw [h]; rfl))
  rw [remove, (node_eq_ok_iff ht hpath).2 h]
  simp only [hl]
  rfl

theorem write_eq (content : List UInt8) (hd : t.get? (t.placeOf path).dropLast = some .directory)
    (hn : t.get? (t.placeOf path) ≠ some .directory) :
    t.write path content = .ok (t.set (t.placeOf path) (.file content)) := by
  have hfile : t.isDirectoryAt (t.placeOf path) = false := by
    rwa [isDirectoryAt, decide_eq_false_iff_not]
  rw [write, locate_eq_ok ht hpath hd]
  change (if t.isDirectoryAt (t.placeOf path) = true then _ else _) = _
  rw [hfile]
  rfl

theorem replace_eq {target : String} (htarget : IsPlain target) {content : List UInt8}
    (h : t.get? (t.placeOf path) = some (.file content))
    (hd : t.get? (t.placeOf target).dropLast = some .directory)
    (hn : t.get? (t.placeOf target) ≠ some .directory) :
    t.replace path target =
      .ok ((t.erase (t.placeOf path)).set (t.placeOf target) (.file content)) := by
  have hfile : t.isDirectoryAt (t.placeOf target) = false := by
    rwa [isDirectoryAt, decide_eq_false_iff_not]
  rw [replace, locate_eq_ok ht hpath (ht.above_dropLast (by rw [h]; rfl)),
    (bytes_eq_ok_iff ht hpath).2 h, locate_eq_ok ht htarget hd]
  change (if t.isDirectoryAt (t.placeOf target) = true then _ else _) = _
  rw [hfile]
  rfl

end

/-- What is removed is a file, if anything. -/
theorem remove_eq_ok {t' : FileTree} {path : String} (h : t.remove path = .ok t') :
    t' = t ∨ ∃ p content, t.get? p = some (.file content) ∧ t' = t.erase p := by
  unfold remove at h
  split at h
  · exact .inl (Except.ok.inj h).symm
  · cases h
  · cases h
  · next content hn =>
    obtain ⟨p, hl, hg⟩ := locate_of_node hn
    rw [hl] at h
    cases h
    exact .inr ⟨p, content, hg, rfl⟩

theorem mem_ancestry_iff : q ∈ ancestry p ↔ q ≠ [] ∧ q <+: p := by
  rw [ancestry, List.mem_map]
  constructor
  · rintro ⟨m, hm, rfl⟩
    refine ⟨?_, List.take_prefix _ _⟩
    rw [List.mem_range] at hm
    exact List.ne_nil_of_length_pos (by rw [List.length_take]; omega)
  · rintro ⟨hq, hp⟩
    have hlen := hp.length_le
    have hpos := List.length_pos_iff.2 hq
    refine ⟨q.length - 1, List.mem_range.2 (by omega), ?_⟩
    rw [Nat.sub_add_cancel hpos]
    exact (List.prefix_iff_eq_take.1 hp).symm

/-- Directories are made where they are missing. -/
theorem get?_foldl_directories (places : List (List (List Char))) (t : FileTree)
    (h : ∀ p ∈ places, p ≠ []) (q : List (List Char)) :
    let t' := places.foldl (fun t c => if t.isDirectoryAt c then t else t.set c .directory) t
    t'.start = t.start ∧ t'.get? q = if q ∈ places then some .directory else t.get? q := by
  induction places generalizing t with
  | nil => simp
  | cons p places ih =>
    obtain ⟨hstart, hget⟩ := ih (if t.isDirectoryAt p then t else t.set p .directory)
      fun p hp => h p (List.mem_cons_of_mem _ hp)
    have hp := h p List.mem_cons_self
    have hfirst : (if t.isDirectoryAt p then t else t.set p .directory).start = t.start ∧
        (if t.isDirectoryAt p then t else t.set p .directory).get? q =
          if q = p then some .directory else t.get? q := by
      split
      · next hdir =>
        refine ⟨rfl, ?_⟩
        split
        · next hq => rw [hq, isDirectoryAt_iff.1 hdir]
        · rfl
      · exact ⟨start_set .., t.get?_set hp _ q⟩
    rw [List.foldl_cons]
    refine ⟨hstart.trans hfirst.1, hget.trans ?_⟩
    rw [hfirst.2]
    by_cases hmem : q ∈ places
    · simp [hmem]
    · by_cases hq : q = p
      · simp [hq]
      · simp [hmem, hq]

/-- A directory is made where no file is in the way. -/
theorem makeDirectory_eq (ht : t.Sound) {path : String}
    (hopen : ∀ q, q <+: t.placeOf path → t.isFileAt q = false) :
    ∃ t', t.makeDirectory path = .ok t' ∧ t'.start = t.start ∧
      ∀ q, t'.get? q = if q <+: t.placeOf path then some .directory else t.get? q := by
  rw [makeDirectory]
  cases hcs : FilePath.components path.toList with
  | nil =>
    refine ⟨t, rfl, rfl, fun q => ?_⟩
    have hplace : t.placeOf path = t.origin path := by rw [placeOf, hcs, List.append_nil]
    split
    · next hq =>
      exact ht.above_prefix (hplace ▸ hq) (ht.origin path)
    · rfl
  | cons c cs =>
    have hplace : (if (FilePath.root path.toList).isEmpty = true then t.start ++ c :: cs
        else c :: cs) = t.placeOf path := by
      rw [placeOf, origin, hcs]
      split <;> rfl
    simp only [hplace]
    have hfree : (ancestry (t.placeOf path)).filter t.isFileAt = [] := by
      refine List.filter_eq_nil_iff.2 fun q hq => ?_
      rw [hopen q (mem_ancestry_iff.1 hq).2]
      exact Bool.false_ne_true
    rw [hfree]
    refine ⟨_, rfl, ?_, fun q => ?_⟩
    · exact (get?_foldl_directories _ t (fun p hp => (mem_ancestry_iff.1 hp).1) []).1
    · rw [(get?_foldl_directories _ t (fun p hp => (mem_ancestry_iff.1 hp).1) q).2]
      by_cases hq : q = []
      · subst hq
        simp
      · simp [mem_ancestry_iff, hq]

/-- A tree with more directories, from the root on, is as sound. -/
theorem Sound.directories (ht : t.Sound) {t' : FileTree} (hstart : t'.start = t.start)
    (hget : ∀ q, t'.get? q = if q <+: p then some .directory else t.get? q) : t'.Sound where
  above := by
    intro d name hs
    rw [hget] at hs ⊢
    split
    · rfl
    · next hd =>
      rw [if_neg fun hp => hd ((List.prefix_append d [name]).trans hp)] at hs
      exact ht.above d name hs
  start := by
    rw [hstart, hget]
    split
    · rfl
    · exact ht.start

end ModuleGraph.FileTree
