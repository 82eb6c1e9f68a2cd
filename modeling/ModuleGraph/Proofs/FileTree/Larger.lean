import ModuleGraph.Proofs.FileTree
/-!
# Trees that agree where something is read

A tree with more in it is read as before, and so is a tree in which one directory has changed, as
long as the path lies elsewhere.

Results:
* `Extends.text`: a tree with more in it is read as before;
* `SameBut.text`: a tree in which one directory has changed is read as before elsewhere.
-/

namespace ModuleGraph.FileTree

variable {t : FileTree} {p q : List (List Char)} {n : FileNode}

/-! ## Larger trees -/

/-- Whatever stands in the one tree stands in the other one as well. -/
structure Extends (t t' : FileTree) : Prop where
  start : t'.start = t.start
  keeps : ∀ q n, t.get? q = some n → t'.get? q = some n

namespace Extends

variable {t' t'' : FileTree} {path : String}

theorem refl (t : FileTree) : t.Extends t := ⟨rfl, fun _ _ h => h⟩

theorem trans (h : t.Extends t') (h' : t'.Extends t'') : t.Extends t'' :=
  ⟨h'.start.trans h.start, fun q n hn => h'.keeps q n (h.keeps q n hn)⟩

/-- What can be followed leads to the same place. -/
theorem follow (h : t.Extends t') {done cs : List (List Char)} (hf : t.follow done cs = .ok p) :
    t'.follow done cs = .ok p := by
  induction cs generalizing done with
  | nil => exact hf
  | cons c cs ih =>
    have hd := directory_of_follow_cons hf
    rw [FileTree.follow, hd] at hf
    rw [FileTree.follow, h.keeps _ _ hd]
    dsimp only at hf ⊢
    split_ifs at hf ⊢
    · exact ih hf
    · exact ih hf

theorem locate (h : t.Extends t') (hl : t.locate path = .ok p) : t'.locate path = .ok p := by
  unfold FileTree.locate at hl ⊢
  rw [h.start]
  dsimp only at hl ⊢
  split_ifs at hl ⊢ with hnul
  all_goals
    rw [Action.mapError_eq_ok_iff] at hl ⊢
    exact h.follow hl

theorem node (h : t.Extends t') (hn : t.node path = .ok n) : t'.node path = .ok n := by
  obtain ⟨p, hl, hg⟩ := locate_of_node hn
  rw [node_of_locate (h.locate hl), h.keeps _ _ hg]

/-- What can be read is read as it was. -/
theorem text (h : t.Extends t') {s : String} (hs : t.text path = .ok s) : t'.text path = .ok s := by
  unfold FileTree.text FileTree.bytes at hs ⊢
  rw [Action.bind_eq_ok_iff] at hs ⊢
  obtain ⟨content, hb, hs⟩ := hs
  obtain ⟨n, hn, hc⟩ := Action.bind_eq_ok_iff.1 hb
  exact ⟨content, Action.bind_eq_ok_iff.2 ⟨n, h.node hn, hc⟩, hs⟩

end Extends

/-! ## Trees that are the same but for a directory -/

/-- What is followed without going upwards consists of names. -/
theorem isName_of_follow {done cs : List (List Char)} (h : t.follow done cs = .ok p)
    (hcs : ['.', '.'] ∉ cs) : ∀ c ∈ cs, IsName c := by
  induction cs generalizing done with
  | nil => exact fun c hc => absurd hc List.not_mem_nil
  | cons c cs ih =>
    rw [List.mem_cons, not_or] at hcs
    have hdir := directory_of_follow_cons h
    rw [follow, hdir] at h
    simp only [if_neg (Ne.symm hcs.1)] at h
    split at h
    · cases h
    · next hshort =>
      exact List.forall_mem_cons.2 ⟨⟨Ne.symm hcs.1, Nat.not_lt.1 hshort⟩, ih h hcs.2⟩

/-- A file that is found without going upwards is found by names. -/
theorem isPlain_of_bytes {path : String} {content : List UInt8} (h : t.bytes path = .ok content)
    (hpath : ['.', '.'] ∉ FilePath.components path.toList) : IsPlain path := by
  have hnul : '\x00' ∉ path.toList := by
    intro hmem
    rw [bytes_eq_noPath_iff.2 (List.contains_iff_mem.2 hmem)] at h
    cases h
  obtain ⟨n, hnode, -⟩ := Action.bind_eq_ok_iff.1 h
  obtain ⟨p, hlocate, -⟩ := locate_of_node hnode
  refine ⟨hnul, ?_⟩
  rw [locate] at hlocate
  simp only [List.contains_iff_mem, hnul, if_false] at hlocate
  exact isName_of_follow (Action.mapError_eq_ok_iff.1 hlocate) hpath

/-- The trees have the same files, except in a directory. -/
structure SameBut (directory : String) (t t' : FileTree) : Prop where
  start : t'.start = t.start
  files : ∀ q, ¬ t.placeOf directory <+: q → ∀ content,
    t'.get? q = some (.file content) ↔ t.get? q = some (.file content)

namespace SameBut

variable {t' t'' : FileTree} {directory path : String}

theorem refl (directory : String) (t : FileTree) : t.SameBut directory t :=
  ⟨rfl, fun _ _ _ => Iff.rfl⟩

theorem symm (h : t.SameBut directory t') : t'.SameBut directory t where
  start := h.start.symm
  files q hq content := (h.files q (placeOf_congr h.start directory ▸ hq) content).symm

theorem trans (h : t.SameBut directory t') (h' : t'.SameBut directory t'') :
    t.SameBut directory t'' where
  start := h'.start.trans h.start
  files q hq content :=
    (h'.files q (placeOf_congr h.start directory ▸ hq) content).trans (h.files q hq content)

/-- A text outside the directory is read in both. -/
theorem text (h : t.SameBut directory t') (ht : t.Sound) (ht' : t'.Sound)
    (hpath : ['.', '.'] ∉ FilePath.components path.toList)
    (hplace : ¬ t.placeOf directory <+: t.placeOf path) {s : String} (hs : t.text path = .ok s) :
    t'.text path = .ok s := by
  obtain ⟨content, hbytes, hrest⟩ := Action.bind_eq_ok_iff.1 hs
  have hplain := isPlain_of_bytes hbytes hpath
  refine Action.bind_eq_ok_iff.2 ⟨content, ?_, hrest⟩
  rw [bytes_eq_ok_iff ht' hplain, placeOf_congr h.start, h.files _ hplace]
  exact (bytes_eq_ok_iff ht hplain).1 hbytes

end SameBut

end ModuleGraph.FileTree
