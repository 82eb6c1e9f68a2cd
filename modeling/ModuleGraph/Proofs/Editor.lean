import Mathlib.Data.List.Sort
import ModuleGraph.Editor
import ModuleGraph.Proofs.Utf8
/-!
# What an editor yields

The edits that an editor accepts lie inside the text and share no byte, so that the order in which
they came does not matter: each byte of the text that no edit covers is kept, and each stretch that
an edit covers gives way to the replacement. `patch` says this byte by byte, for edits in any order.

Results:
* `overwrite_eq_ok_iff`: which edits are accepted;
* `toBytes_eq_patch`: **main theorem**: the edited text is the patched text;
* `patch_congr`: the patched text depends on the edits alone, not on their order;
* `Sound.isText_toBytes`: edits that put texts in the place of texts leave a text.
-/

namespace ModuleGraph

namespace Edit

/-- The ranges share no byte. -/
def Apart (a b : Edit) : Prop := a.stop ≤ b.start ∨ b.stop ≤ a.start

instance (a b : Edit) : Decidable (a.Apart b) :=
  inferInstanceAs (Decidable (a.stop ≤ b.start ∨ b.stop ≤ a.start))

theorem Apart.symm {a b : Edit} (h : a.Apart b) : b.Apart a := Or.symm h

/-- The range is not empty and lies inside a text of this many bytes. -/
def Fits (d : Edit) (size : Nat) : Prop := d.start < d.stop ∧ d.stop ≤ size

/-- The byte at a position is in the range. -/
def covers (d : Edit) (pos : Nat) : Bool := d.start ≤ pos && pos < d.stop

theorem covers_iff (d : Edit) (pos : Nat) :
    d.covers pos = true ↔ d.start ≤ pos ∧ pos < d.stop := by
  simp [covers]

end Edit

namespace Editor

/-! ## Patching a text -/

/-- What the byte `b` at a position gives way to: itself if no edit covers it; the replacement if
it is the first byte of a range; nothing if it is a later one. -/
def patchAt (ds : List Edit) (pos : Nat) (b : UInt8) : List UInt8 :=
  match ds.find? (·.covers pos) with
  | none => [b]
  | some d => if d.start = pos then d.replacement else []

theorem find?_cons_of_covers {d : Edit} {pos : Nat} (h : d.covers pos = true) (ds : List Edit) :
    (d :: ds).find? (·.covers pos) = some d := by
  rw [List.find?_cons, h]

/-- What the bytes from a position on give way to. -/
def patchFrom (ds : List Edit) : Nat → List UInt8 → List UInt8
  | _, [] => []
  | pos, b :: r => patchAt ds pos b ++ patchFrom ds (pos + 1) r

/-- The text with the edits applied: bytes that no edit covers are kept, and the replacement of an
edit stands in the place of the bytes that it covers. -/
def patch (ds : List Edit) (bytes : List UInt8) : List UInt8 := patchFrom ds 0 bytes

theorem patchFrom_append (ds : List Edit) (pos : Nat) (a b : List UInt8) :
    patchFrom ds pos (a ++ b) = patchFrom ds pos a ++ patchFrom ds (pos + a.length) b := by
  induction a generalizing pos with
  | nil => rfl
  | cons x a ih =>
    rw [List.cons_append, patchFrom, patchFrom, ih, List.append_assoc, List.length_cons,
      Nat.add_assoc, Nat.add_comm 1]

theorem patchFrom_congr {ds es : List Edit} {pos : Nat} {bytes : List UInt8}
    (h : ∀ p, pos ≤ p → p < pos + bytes.length →
      ds.find? (·.covers p) = es.find? (·.covers p)) :
    patchFrom ds pos bytes = patchFrom es pos bytes := by
  induction bytes generalizing pos with
  | nil => rfl
  | cons b r ih =>
    have hr : patchFrom ds (pos + 1) r = patchFrom es (pos + 1) r := by
      refine ih fun p hl hh => h p (by omega) ?_
      rw [List.length_cons]
      omega
    rw [patchFrom, patchFrom, hr, patchAt, patchAt, h pos (Nat.le_refl _) (by simp)]

/-- Bytes that no edit covers are kept. -/
theorem patchFrom_of_uncovered {ds : List Edit} {pos : Nat} {bytes : List UInt8}
    (h : ∀ d ∈ ds, d.stop ≤ pos ∨ pos + bytes.length ≤ d.start) :
    patchFrom ds pos bytes = bytes := by
  induction bytes generalizing pos with
  | nil => rfl
  | cons b r ih =>
    have hnone : ds.find? (·.covers pos) = none := by
      refine List.find?_eq_none.2 fun d hd hc => ?_
      have hs := h d hd
      have := (d.covers_iff pos).1 hc
      rw [List.length_cons] at hs
      omega
    have hr : patchFrom ds (pos + 1) r = r := by
      apply ih
      intro d hd
      have hs := h d hd
      rw [List.length_cons] at hs
      omega
    rw [patchFrom, hr, patchAt, hnone]
    rfl

/-- The bytes behind the first one that an edit covers vanish. -/
theorem patchFrom_of_inside {d : Edit} {ds : List Edit} {pos : Nat} {bytes : List UInt8}
    (hl : d.start < pos) (hh : pos + bytes.length ≤ d.stop) :
    patchFrom (d :: ds) pos bytes = [] := by
  induction bytes generalizing pos with
  | nil => rfl
  | cons b r ih =>
    rw [List.length_cons] at hh
    have hc : d.covers pos = true := (d.covers_iff pos).2 ⟨by omega, by omega⟩
    rw [patchFrom, ih (by omega) (by omega), patchAt, find?_cons_of_covers hc]
    simp only
    rw [if_neg (by omega)]
    rfl

/-- The bytes that an edit covers give way to the replacement. -/
theorem patchFrom_of_covered {d : Edit} {ds : List Edit} {bytes : List UInt8} (hne : bytes ≠ [])
    (hh : d.start + bytes.length = d.stop) : patchFrom (d :: ds) d.start bytes = d.replacement := by
  cases bytes with
  | nil => exact absurd rfl hne
  | cons b r =>
    rw [List.length_cons] at hh
    have hc : d.covers d.start = true := (d.covers_iff d.start).2 ⟨by omega, by omega⟩
    rw [patchFrom, patchFrom_of_inside (by omega) (by omega), patchAt, find?_cons_of_covers hc]
    simp

/-- Any two of the edits are one or share no byte. -/
def Coherent (ds : List Edit) : Prop := ∀ a ∈ ds, ∀ b ∈ ds, a = b ∨ a.Apart b

theorem coherent_of_pairwise {ds : List Edit} (h : ds.Pairwise Edit.Apart) : Coherent ds := by
  induction ds with
  | nil =>
    intro a ha
    cases ha
  | cons d ds ih =>
    rw [List.pairwise_cons] at h
    intro a ha b hb
    rcases List.mem_cons.1 ha with rfl | ha'
    · rcases List.mem_cons.1 hb with rfl | hb'
      · exact .inl rfl
      · exact .inr (h.1 b hb')
    · rcases List.mem_cons.1 hb with rfl | hb'
      · exact .inr (h.1 a ha').symm
      · exact ih h.2 a ha' b hb'

theorem find?_covers_congr {ds es : List Edit} (h : ∀ d, d ∈ ds ↔ d ∈ es) (hds : Coherent ds)
    (pos : Nat) : ds.find? (·.covers pos) = es.find? (·.covers pos) := by
  cases hd : ds.find? (·.covers pos) with
  | none =>
    rw [List.find?_eq_none] at hd
    exact (List.find?_eq_none.2 fun e he => hd e ((h e).2 he)).symm
  | some d =>
    have hdm := List.mem_of_find?_eq_some hd
    have hdc := (d.covers_iff pos).1 (List.find?_some (p := (Edit.covers · pos)) hd)
    cases he : es.find? (·.covers pos) with
    | none => exact absurd ((d.covers_iff pos).2 hdc) (List.find?_eq_none.1 he d ((h d).1 hdm))
    | some e =>
      have hec := (e.covers_iff pos).1 (List.find?_some (p := (Edit.covers · pos)) he)
      rcases hds d hdm e ((h e).2 (List.mem_of_find?_eq_some he)) with rfl | hap
      · rfl
      · unfold Edit.Apart at hap
        omega

/-- One of the edits can as well be the first one. -/
theorem find?_covers_cons_of_mem {ds : List Edit} {d : Edit} (hds : Coherent ds) (hd : d ∈ ds)
    (pos : Nat) : ds.find? (·.covers pos) = (d :: ds).find? (·.covers pos) := by
  have hfirst : ∀ e, e ∈ ds ↔ e ∈ d :: ds := by
    intro e
    rw [List.mem_cons]
    exact ⟨.inr, fun he => he.elim (fun he => he ▸ hd) id⟩
  exact find?_covers_congr hfirst hds pos

/-- The bytes that one of the edits covers give way to its replacement. -/
theorem patchFrom_of_mem {ds : List Edit} {d : Edit} {bytes : List UInt8} (hds : Coherent ds)
    (hd : d ∈ ds) (hne : bytes ≠ []) (hh : d.start + bytes.length = d.stop) :
    patchFrom ds d.start bytes = d.replacement := by
  rw [patchFrom_congr fun p _ _ => find?_covers_cons_of_mem hds hd p]
  exact patchFrom_of_covered hne hh

/-- The patched text depends on the edits alone, not on their order. -/
theorem patch_congr {ds es : List Edit} (h : ∀ d, d ∈ ds ↔ d ∈ es) (hds : Coherent ds)
    (bytes : List UInt8) : patch ds bytes = patch es bytes :=
  patchFrom_congr fun p _ _ => find?_covers_congr h hds p

/-! ## Accepted edits -/

/-- The recorded edits lie inside the text and share no byte. -/
structure Sound (e : Editor) : Prop where
  fits : ∀ d ∈ e.recorded, d.Fits e.original.length
  apart : e.recorded.Pairwise Edit.Apart

theorem sound_ofBytes (bytes : List UInt8) : (ofBytes bytes).Sound :=
  ⟨fun _ hd => absurd hd List.not_mem_nil, List.Pairwise.nil⟩

theorem clashes_eq_false_iff (start stop : Nat) (replacement : List UInt8) (d : Edit) :
    clashes start stop d = false ↔ d.Apart ⟨start, stop, replacement⟩ := by
  simp only [clashes, Edit.Apart, Bool.and_eq_false_iff, decide_eq_false_iff_not]
  omega

/-- An edit is accepted exactly if its range is not empty, lies inside the text and shares no byte
with that of a recorded edit. -/
theorem overwrite_eq_ok_iff (e e' : Editor) (start stop : Nat) (replacement : List UInt8) :
    e.overwrite start stop replacement = .ok e' ↔
      Edit.Fits ⟨start, stop, replacement⟩ e.original.length ∧
      (∀ d ∈ e.recorded, d.Apart ⟨start, stop, replacement⟩) ∧
      e' = { e with recorded := e.recorded ++ [⟨start, stop, replacement⟩] } := by
  unfold overwrite Edit.Fits
  by_cases hr : start < stop ∧ stop ≤ e.original.length
  · rw [if_pos (by omega)]
    simp only [Int.toNat_natCast]
    cases hf : e.recorded.find? (clashes start stop) with
    | some other =>
      have hc : clashes start stop other = true := List.find?_some hf
      have hm := List.mem_of_find?_eq_some hf
      simp only [reduceCtorEq, false_iff]
      rintro ⟨-, hap, -⟩
      rw [(clashes_eq_false_iff start stop replacement other).2 (hap other hm)] at hc
      cases hc
    | none =>
      have hap : ∀ d ∈ e.recorded, d.Apart ⟨start, stop, replacement⟩ := by
        intro d hd
        have hc := List.find?_eq_none.1 hf d hd
        exact (clashes_eq_false_iff ..).1 (by simpa using hc)
      simp only [Except.ok.injEq]
      exact ⟨fun h => ⟨hr, hap, h.symm⟩, fun h => h.2.2.symm⟩
  · rw [if_neg (by omega)]
    simp only [reduceCtorEq, false_iff]
    exact fun h => hr h.1

/-- One more edit that lies inside the text and shares no byte with the others. -/
theorem Sound.concat {e : Editor} (h : e.Sound) {d : Edit} (hfits : d.Fits e.original.length)
    (hap : ∀ d' ∈ e.recorded, d'.Apart d) :
    ({ e with recorded := e.recorded ++ [d] } : Editor).Sound := by
  refine ⟨fun d' hd' => ?_, List.pairwise_append.2 ⟨h.apart, List.pairwise_singleton _ _, ?_⟩⟩
  · rcases List.mem_append.1 hd' with hd' | hd'
    · exact h.fits d' hd'
    · rw [List.mem_singleton.1 hd']
      exact hfits
  · intro d' hd' d'' hd''
    rw [List.mem_singleton.1 hd'']
    exact hap d' hd'

theorem Sound.overwrite {e e' : Editor} {start stop : Nat} {replacement : List UInt8}
    (h : e.Sound) (he : e.overwrite start stop replacement = .ok e') : e'.Sound := by
  obtain ⟨hfits, hap, rfl⟩ := (overwrite_eq_ok_iff ..).1 he
  exact h.concat hfits hap

/-! ## The edited text -/

/-- The edits stand in the order of the text, from a position on. -/
structure Ordered (size cursor : Nat) (ds : List Edit) : Prop where
  from_cursor : ∀ d ∈ ds, cursor ≤ d.start
  fits : ∀ d ∈ ds, d.Fits size
  chain : ds.Pairwise fun a b => a.stop ≤ b.start

theorem Ordered.tail {size cursor : Nat} {d : Edit} {ds : List Edit}
    (h : Ordered size cursor (d :: ds)) : Ordered size d.stop ds :=
  ⟨(List.pairwise_cons.1 h.chain).1, fun e he => h.fits e (List.mem_cons_of_mem d he),
    (List.pairwise_cons.1 h.chain).2⟩

/-- The text behind a position is what stands before the next edit, what the edit covers, and what
stands behind it. -/
theorem drop_eq_parts (bytes : List UInt8) {cursor start stop : Nat} (hc : cursor ≤ start)
    (hs : start ≤ stop) : bytes.drop cursor =
      (bytes.take start).drop cursor ++ (bytes.take stop).drop start ++ bytes.drop stop := by
  have hstart : bytes.drop start = (bytes.take stop).drop start ++ bytes.drop stop := by
    have hdrop : bytes.drop stop = (bytes.drop start).drop (stop - start) := by
      rw [List.drop_drop, Nat.add_sub_cancel' hs]
    rw [List.drop_take, hdrop, List.take_append_drop]
  have hcursor : bytes.drop cursor = (bytes.take start).drop cursor ++ bytes.drop start := by
    have hdrop : bytes.drop start = (bytes.drop cursor).drop (start - cursor) := by
      rw [List.drop_drop, Nat.add_sub_cancel' hc]
    rw [List.drop_take, hdrop, List.take_append_drop]
  rw [hcursor, hstart, List.append_assoc]

/-- Splicing edits in the order of the text patches the text. -/
theorem spliceFrom_eq_patchFrom {bytes : List UInt8} {cursor : Nat} {ds : List Edit}
    (h : Ordered bytes.length cursor ds) (hc : cursor ≤ bytes.length) :
    spliceFrom bytes cursor ds = patchFrom ds cursor (bytes.drop cursor) := by
  induction ds generalizing cursor with
  | nil =>
    rw [spliceFrom, patchFrom_of_uncovered]
    intro d hd
    cases hd
  | cons d r ih =>
    have hle := h.from_cursor d List.mem_cons_self
    obtain ⟨hlt, hstop⟩ := h.fits d List.mem_cons_self
    have hbefore : ((bytes.take d.start).drop cursor).length = d.start - cursor := by
      rw [List.length_drop, List.length_take]
      omega
    have hinside : ((bytes.take d.stop).drop d.start).length = d.stop - d.start := by
      rw [List.length_drop, List.length_take]
      omega
    have hkept : patchFrom (d :: r) cursor ((bytes.take d.start).drop cursor) =
        (bytes.take d.start).drop cursor := by
      apply patchFrom_of_uncovered
      intro e he
      right
      rw [hbefore]
      rcases List.mem_cons.1 he with rfl | he'
      · omega
      · have := h.tail.from_cursor e he'
        omega
    have hcovered : patchFrom (d :: r) d.start ((bytes.take d.stop).drop d.start) =
        d.replacement := by
      refine patchFrom_of_covered (List.ne_nil_of_length_pos ?_) ?_
      · omega
      · omega
    have hbehind : patchFrom (d :: r) d.stop (bytes.drop d.stop) =
        patchFrom r d.stop (bytes.drop d.stop) := by
      apply patchFrom_congr
      intro p hp _
      have hnot : d.covers p = false := by
        simp only [Edit.covers, Bool.and_eq_false_iff, decide_eq_false_iff_not]
        omega
      rw [List.find?_cons, hnot]
    rw [spliceFrom, ih h.tail hstop, drop_eq_parts bytes hle (Nat.le_of_lt hlt), patchFrom_append,
      patchFrom_append, hkept, List.length_append, hbefore, hinside]
    have hpos : cursor + (d.start - cursor) = d.start := by omega
    have hpos' : cursor + (d.start - cursor + (d.stop - d.start)) = d.stop := by omega
    rw [hpos, hpos', hcovered, hbehind]

theorem mem_edits (e : Editor) (d : Edit) : d ∈ e.edits ↔ d ∈ e.recorded :=
  (List.mergeSort_perm e.recorded _).mem_iff

theorem Sound.ordered {e : Editor} (h : e.Sound) : Ordered e.original.length 0 e.edits := by
  have hfits : ∀ d ∈ e.edits, d.Fits e.original.length := fun d hd =>
    h.fits d ((e.mem_edits d).1 hd)
  have hapart : e.edits.Pairwise Edit.Apart :=
    ((List.mergeSort_perm e.recorded _).pairwise_iff Edit.Apart.symm).2 h.apart
  have hsorted : e.edits.Pairwise fun a b => (decide (a.start ≤ b.start)) = true :=
    List.pairwise_mergeSort (fun a b c hab hbc => by simp at *; omega)
      (fun a b => by simp; omega) e.recorded
  refine ⟨fun d _ => Nat.zero_le _, hfits, ?_⟩
  refine (List.Pairwise.and_mem.1 (hapart.and hsorted)).imp ?_
  rintro a b ⟨ha, hb, hab, hle⟩
  have hfa := (hfits a ha).1
  have hfb := (hfits b hb).1
  simp only [decide_eq_true_eq] at hle
  unfold Edit.Apart at hab
  omega

/-- **main theorem**: the edited text is the patched text. -/
theorem Sound.toBytes_eq_patch {e : Editor} (h : e.Sound) :
    e.toBytes = patch e.recorded e.original := by
  rw [toBytes, spliceFrom_eq_patchFrom h.ordered (Nat.zero_le _), List.drop_zero]
  exact (patch_congr (fun d => (e.mem_edits d).symm) (coherent_of_pairwise h.apart) _).symm

/-! ## Edits that keep a text a text -/

/-- The edit puts a text in the place of a text. -/
def PutsText (bytes : List UInt8) (d : Edit) : Prop :=
  Utf8.IsText ((bytes.take d.stop).drop d.start) ∧ Utf8.IsText d.replacement

theorem isText_spliceFrom {bytes : List UInt8} {cursor : Nat} {ds : List Edit}
    (h : Ordered bytes.length cursor ds) (hds : ∀ d ∈ ds, PutsText bytes d)
    (hb : Utf8.IsText (bytes.drop cursor)) : Utf8.IsText (spliceFrom bytes cursor ds) := by
  induction ds generalizing cursor with
  | nil => exact hb
  | cons d r ih =>
    obtain ⟨hlt, hstop⟩ := h.fits d List.mem_cons_self
    obtain ⟨hinside, hreplacement⟩ := hds d List.mem_cons_self
    have hne : (bytes.take d.stop).drop d.start ≠ [] := by
      refine List.ne_nil_of_length_pos ?_
      rw [List.length_drop, List.length_take]
      omega
    rw [drop_eq_parts bytes (h.from_cursor d List.mem_cons_self) (Nat.le_of_lt hlt)] at hb
    obtain ⟨hbefore, hbehind⟩ := Utf8.isText_around hb hinside hne
    exact (hbefore.append hreplacement).append
      (ih h.tail (fun e he => hds e (List.mem_cons_of_mem d he)) hbehind)

/-- Edits that put texts in the place of texts leave a text. -/
theorem Sound.isText_toBytes {e : Editor} (h : e.Sound) (he : Utf8.IsText e.original)
    (hds : ∀ d ∈ e.recorded, PutsText e.original d) : Utf8.IsText e.toBytes :=
  isText_spliceFrom h.ordered (fun d hd => hds d ((e.mem_edits d).1 hd)) he

end Editor

end ModuleGraph
