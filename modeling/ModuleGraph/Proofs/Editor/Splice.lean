import Mathlib.Algebra.BigOperators.Group.List.Basic
import Mathlib.Algebra.Ring.Int.Defs
import ModuleGraph.Proofs.Editor.Calls
/-!
# One pass and one edit after the other

The edited text is made in one pass, from the first edit of the text to the last, with a cursor in the
original. An edit can also be made on its own, by a splice of the text as it is then. A splice moves
what stands behind it, so the two agree if the edits are made from the last one to the first: then
what a later splice names has not moved yet.

Results:
* `foldr_splice_eq`: splices from the last edit to the first, and the pass;
* `Sound.foldl_splice_eq`: the same for any list of the edits with descending starts;
* `Sound.exists_pieces`: what each byte of the original gives way to;
* `Sound.length_toBytes`: the size of the edited text;
* `splices_afterAll`: **main theorem**: what every run of calls amounts to.
-/

namespace ModuleGraph

/-- By how much the edit lengthens the text. -/
def Edit.growth (d : Edit) : Int := d.replacement.length - ((d.stop : Int) - d.start)

namespace Editor

/-! ## Splices -/

/-- Splices from the last edit to the first: what stands before the cursor is still as it was, and
behind it stands what the pass yields. -/
theorem foldr_splice_eq {bytes : List UInt8} {cursor : Nat} {ds : List Edit}
    (h : Ordered bytes.length cursor ds) (hc : cursor ≤ bytes.length) :
    ds.foldr (fun d text => splice text d) bytes = bytes.take cursor ++ spliceFrom bytes cursor ds := by
  induction ds generalizing cursor with
  | nil => exact (List.take_append_drop cursor bytes).symm
  | cons d r ih =>
    have hle := h.from_cursor d List.mem_cons_self
    obtain ⟨hlt, hstop⟩ := h.fits d List.mem_cons_self
    have hlength : (bytes.take d.stop).length = d.stop := List.length_take_of_le hstop
    have hbefore : (bytes.take d.stop ++ spliceFrom bytes d.stop r).take d.start =
        bytes.take d.start := by
      rw [List.take_append_of_le_length (by omega), List.take_take, Nat.min_eq_left (by omega)]
    have hbehind : (bytes.take d.stop ++ spliceFrom bytes d.stop r).drop d.stop =
        spliceFrom bytes d.stop r := List.drop_left' hlength
    have hfront : bytes.take cursor ++ (bytes.take d.start).drop cursor = bytes.take d.start := by
      have hcursor : (bytes.take d.start).take cursor = bytes.take cursor := by
        rw [List.take_take, Nat.min_eq_left hle]
      rw [← hcursor, List.take_append_drop]
    calc (d :: r).foldr (fun d text => splice text d) bytes
        = splice (bytes.take d.stop ++ spliceFrom bytes d.stop r) d := by
          rw [List.foldr_cons, ih h.tail hstop]
      _ = bytes.take d.start ++ d.replacement ++ spliceFrom bytes d.stop r := by
          rw [splice, hbefore, hbehind]
      _ = bytes.take cursor ++ spliceFrom bytes cursor (d :: r) := by
          rw [← hfront, spliceFrom]
          simp only [List.append_assoc]

/-- The edits in the order of the text begin one behind the other. -/
theorem Sound.pairwise_start {e : Editor} (h : e.Sound) :
    e.edits.Pairwise fun a b => a.start < b.start := by
  refine (List.Pairwise.and_mem.1 h.ordered.chain).imp ?_
  rintro a b ⟨ha, -, hle⟩
  exact Nat.lt_of_lt_of_le (h.ordered.fits a ha).1 hle

/-- The recorded edits, made one at a time from the highest start to the lowest, yield the edited
text. -/
theorem Sound.foldl_splice_eq {e : Editor} (h : e.Sound) {ds : List Edit}
    (hperm : ds.Perm e.recorded) (hdown : ds.Pairwise fun a b => b.start < a.start) :
    ds.foldl splice e.original = e.toBytes := by
  have hsame : ds.reverse = e.edits := by
    have hedits : ds.reverse.Perm e.edits :=
      ((List.reverse_perm ds).trans hperm).trans (List.mergeSort_perm e.recorded _).symm
    have hup : ds.reverse.Pairwise fun a b => a.start < b.start := List.pairwise_reverse.2 hdown
    exact hedits.eq_of_pairwise (fun a b _ _ hab hba => absurd hab (Nat.lt_asymm hba)) hup
      h.pairwise_start
  have hpass := foldr_splice_eq h.ordered (Nat.zero_le _)
  rw [← hsame, List.foldr_reverse, List.take_zero, List.nil_append, hsame] at hpass
  exact hpass

/-! ## Byte by byte -/

theorem find?_covers_of_mem {ds : List Edit} {d : Edit} {pos : Nat} (hds : Coherent ds)
    (hd : d ∈ ds) (hc : d.covers pos = true) : ds.find? (·.covers pos) = some d := by
  rw [find?_covers_cons_of_mem hds hd, find?_cons_of_covers hc]

theorem patchAt_of_uncovered {ds : List Edit} {pos : Nat} (h : ∀ d ∈ ds, d.covers pos = false)
    (b : UInt8) : patchAt ds pos b = [b] := by
  have hnone : ds.find? (·.covers pos) = none :=
    List.find?_eq_none.2 fun d hd hc => by rw [h d hd] at hc; cases hc
  rw [patchAt, hnone]

theorem patchAt_of_covers {ds : List Edit} {d : Edit} {pos : Nat} (hds : Coherent ds) (hd : d ∈ ds)
    (hc : d.covers pos = true) (b : UInt8) :
    patchAt ds pos b = if d.start = pos then d.replacement else [] := by
  rw [patchAt, find?_covers_of_mem hds hd hc]

/-- The patched text, position by position. -/
theorem patch_eq_flatMap (ds : List Edit) (bytes : List UInt8) : patch ds bytes =
    (List.range bytes.length).flatMap fun pos => patchAt ds pos (bytes.getD pos 0) := by
  have hfrom : ∀ (bs : List UInt8) (pos : Nat),
      patchFrom ds pos bs = (bs.zipIdx pos).flatMap fun x => patchAt ds x.2 x.1 := by
    intro bs
    induction bs with
    | nil => exact fun _ => rfl
    | cons b bs ih =>
      intro pos
      rw [patchFrom, ih, List.zipIdx_cons, List.flatMap_cons]
  have hplaces : bytes.zipIdx = (List.range bytes.length).map fun pos => (bytes.getD pos 0, pos) := by
    refine List.ext_getElem (by simp) fun pos h₁ h₂ => ?_
    rw [List.length_zipIdx] at h₁
    simp [h₁]
  rw [patch, hfrom, hplaces, List.flatMap_map]

/-- Each byte that no edit covers is kept, the first byte of a range gives way to the replacement, and
the others to nothing. -/
theorem Sound.exists_pieces {e : Editor} (h : e.Sound) : ∃ piece : Nat → List UInt8,
    e.toBytes = (List.range e.original.length).flatMap piece ∧
    (∀ pos (hpos : pos < e.original.length), (∀ d ∈ e.recorded, d.covers pos = false) →
      piece pos = [e.original[pos]]) ∧
    ∀ d ∈ e.recorded, piece d.start = d.replacement ∧
      ∀ pos, d.start < pos → pos < d.stop → piece pos = [] := by
  have hcoherent := coherent_of_pairwise h.apart
  refine ⟨fun pos => patchAt e.recorded pos (e.original.getD pos 0), ?_, ?_, ?_⟩
  · rw [h.toBytes_eq_patch, patch_eq_flatMap]
  · intro pos hpos hnone
    dsimp only
    rw [patchAt_of_uncovered hnone, List.getD_eq_getElem?_getD, List.getElem?_eq_getElem hpos,
      Option.getD_some]
  · intro d hd
    have hlt := (h.fits d hd).1
    dsimp only
    refine ⟨?_, fun pos hstart hstop => ?_⟩
    · rw [patchAt_of_covers hcoherent hd ((d.covers_iff _).2 ⟨Nat.le_refl _, hlt⟩), if_pos rfl]
    · rw [patchAt_of_covers hcoherent hd ((d.covers_iff _).2 ⟨Nat.le_of_lt hstart, hstop⟩),
        if_neg (Nat.ne_of_lt hstart)]

/-! ## Sizes -/

theorem length_spliceFrom {bytes : List UInt8} {cursor : Nat} {ds : List Edit}
    (h : Ordered bytes.length cursor ds) (hc : cursor ≤ bytes.length) :
    ((spliceFrom bytes cursor ds).length : Int) =
      bytes.length - cursor + (ds.map Edit.growth).sum := by
  induction ds generalizing cursor with
  | nil =>
    rw [spliceFrom, List.length_drop, List.map_nil, List.sum_nil]
    omega
  | cons d r ih =>
    have hle := h.from_cursor d List.mem_cons_self
    obtain ⟨hlt, hstop⟩ := h.fits d List.mem_cons_self
    have hrest := ih h.tail hstop
    rw [spliceFrom, List.length_append, List.length_append, List.length_drop, List.length_take,
      List.map_cons, List.sum_cons, Edit.growth]
    omega

/-- The edited text is longer than the original by what its edits lengthen it. -/
theorem Sound.length_toBytes {e : Editor} (h : e.Sound) :
    (e.toBytes.length : Int) = e.original.length + (e.recorded.map Edit.growth).sum := by
  have hsum : (e.edits.map Edit.growth).sum = (e.recorded.map Edit.growth).sum :=
    ((List.mergeSort_perm e.recorded _).map Edit.growth).sum_eq
  rw [toBytes, length_spliceFrom h.ordered (Nat.zero_le _), hsum]
  omega

/-! ## Every run of calls -/

/-- What the editor of a text amounts to. -/
structure Splices (bytes : List UInt8) (e : Editor) : Prop where
  original : e.original = bytes
  /-- The ranges are not empty, and lie inside the text. -/
  fits : ∀ d ∈ e.recorded, d.start < d.stop ∧ d.stop ≤ bytes.length
  /-- No two of them share a byte. -/
  apart : e.recorded.Pairwise fun a b => a.stop ≤ b.start ∨ b.stop ≤ a.start
  /-- The list of the edits has each of them once, -/
  listed : e.edits.Perm e.recorded
  /-- and none begins before the one in front of it has ended. -/
  chain : e.edits.Pairwise fun a b => a.stop ≤ b.start
  /-- Backwards, the list goes from the highest start to the lowest. -/
  backwards : e.edits.reverse.Pairwise fun a b => b.start < a.start
  /-- The edited text is what the edits yield in this order, one splice at a time. -/
  spliced : ∀ ds : List Edit, ds.Perm e.recorded → (ds.Pairwise fun a b => b.start < a.start) →
    ds.foldl splice bytes = e.toBytes
  /-- It is made of a piece for each byte of the text, in the order of the text: the byte itself if no
  edit covers it; the replacement if it is the first one of a range; nothing if it is a later one. -/
  pieces : ∃ piece : Nat → List UInt8, e.toBytes = (List.range bytes.length).flatMap piece ∧
    (∀ pos (hpos : pos < bytes.length), (∀ d ∈ e.recorded, d.covers pos = false) →
      piece pos = [bytes[pos]]) ∧
    ∀ d ∈ e.recorded, piece d.start = d.replacement ∧
      ∀ pos, d.start < pos → pos < d.stop → piece pos = []
  /-- Each edit changes the size by what its replacement is longer than its range. -/
  length : (e.toBytes.length : Int) = bytes.length +
    (e.recorded.map fun d => (d.replacement.length : Int) - ((d.stop : Int) - d.start)).sum

/-- **main theorem**: after every run of calls, accepted or refused, one pass over the text yields what
the recorded edits yield one after the other, from the last one to the first. -/
theorem splices_afterAll (bytes : List UInt8) (calls : List Call) :
    Splices bytes ((ofBytes bytes).afterAll calls) := by
  have hsound := (sound_ofBytes bytes).afterAll calls
  have horiginal : ((ofBytes bytes).afterAll calls).original = bytes := original_afterAll _ calls
  generalize (ofBytes bytes).afterAll calls = e at hsound horiginal
  subst horiginal
  exact {
    original := rfl
    fits := hsound.fits
    apart := hsound.apart
    listed := List.mergeSort_perm e.recorded _
    chain := hsound.ordered.chain
    backwards := List.pairwise_reverse.2 hsound.pairwise_start
    spliced := fun _ hperm hdown => hsound.foldl_splice_eq hperm hdown
    pieces := hsound.exists_pieces
    length := hsound.length_toBytes }

example : ([⟨5, 9, []⟩, ⟨0, 2, [0x61, 0x62, 0x63]⟩] : List Edit).foldl splice
    [0x30, 0x31, 0x32, 0x33, 0x34, 0x35, 0x36, 0x37, 0x38, 0x39] =
      [0x61, 0x62, 0x63, 0x32, 0x33, 0x34, 0x39] := by
  decide

end Editor

end ModuleGraph
