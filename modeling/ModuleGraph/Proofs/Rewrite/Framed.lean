import ModuleGraph.Proofs.Directive.Alike
import ModuleGraph.Proofs.Editor
/-!
# Edits between quotes and behind the pragma

Every range that is written while a file is rewritten stands between quotes or is the value of the
pragma. If what stands there and what is put there are plain, the edited text and the text itself
are two sides of one list of parts.

Results:
* `exists_behind`: the frames of two edits overlap at most in a quote;
* `exists_parts`: **main theorem**: edits in frames that share no byte turn a text into parts.
-/

namespace ModuleGraph.Rewrite

open Directive

/-! ## Frames -/

/-- What stands before and behind a stretch: quotes, or the word of the pragma with white space and
the end of the value. -/
inductive Frame : (value : Bool) → (lead rest : List Char) → Prop
  | quoted {q q' : Char} {w : List Char} : IsQuote q → IsQuote q' → Frame false [q] (q' :: w)
  | value {b w : List Char} : b ≠ [] → (∀ c ∈ b, isBlank c = true) →
      (∀ c ∈ w.head?, isBlank c = true) → Frame true (pragmaWord ++ b) w

theorem Frame.lead_ne {k : Bool} {lead w : List Char} (h : Frame k lead w) : lead ≠ [] := by
  cases h with
  | quoted => simp
  | value hne => simp [hne]

/-- No quote stands between the word of the pragma and its value. -/
theorem Frame.not_isQuote {lead w : List Char} (h : Frame true lead w) {c : Char} (hc : c ∈ lead) :
    ¬IsQuote c := by
  cases h with
  | value _ hb =>
    intro hq
    rcases List.mem_append.1 hc with hc | hc
    · have hplain := isPlainChar_of_mem_pragmaWord c hc
      rw [isPlainChar_eq_false_of_isQuote hq] at hplain
      cases hplain
    · exact not_isQuote_of_isBlank (hb c hc) hq

/-- White space stands right before the value of the pragma. -/
theorem Frame.isBlank_last {lead w : List Char} (h : Frame true lead w) {c : Char}
    (hc : lead.getLast? = some c) : isBlank c = true := by
  cases h with
  | value hne hb =>
    rw [List.getLast?_append_of_ne_nil _ hne] at hc
    exact hb c (List.mem_of_getLast? hc)

/-- The edit puts plain characters in the place of plain ones that stand in such a frame. The
characters begin at byte `pos`, and `u` is what stands before the frame. -/
structure Framed (k : Bool) (pos : Nat) (cs : List Char) (d : Edit) (u lead o w n : List Char) :
    Prop where
  eq : cs = u ++ (lead ++ (o ++ w))
  frame : Frame k lead w
  old : IsPlain o
  new : IsPlain n
  start : d.start = pos + Utf8.width (u ++ lead)
  stop : d.stop = pos + Utf8.width (u ++ (lead ++ o))
  replacement : d.replacement = Utf8.encodeChars n

/-- The edit stands in a frame in the characters. -/
def Fills (k : Bool) (pos : Nat) (cs : List Char) (d : Edit) : Prop :=
  ∃ u lead o w n, Framed k pos cs d u lead o w n

section

variable {k k' : Bool} {pos : Nat} {cs : List Char} {d d' : Edit}
  {u lead o w n u' lead' o' w' n' : List Char}

/-- A frame with its stretch is not a part of what stands before another stretch. -/
theorem not_within {z : List Char} (h : Frame k lead w) (h' : Frame k' lead' w')
    (hone : ¬(k = true ∧ k' = true)) (ho : o' ≠ []) (hlead : lead = u' ++ (lead' ++ o') ++ z) :
    False := by
  cases k with
  | false =>
    cases h with
    | quoted =>
      have hlen := congrArg List.length hlead
      have hpos := List.length_pos_iff.2 h'.lead_ne
      have hpos' := List.length_pos_iff.2 ho
      simp only [List.length_append, List.length_singleton] at hlen
      omega
  | true =>
    cases h' with
    | @quoted q q' w' hq =>
      refine h.not_isQuote ?_ hq
      rw [hlead]
      simp
    | value => exact hone ⟨rfl, rfl⟩

/-- The end of a stretch is not a part of what stands before another stretch. -/
theorem not_overlap {x y z : List Char} (h : Frame k lead w) (h' : Frame k' lead' w')
    (hone : ¬(k = true ∧ k' = true)) (ho : IsPlain o) (hx : x ≠ []) (hend : lead ++ o = u' ++ x)
    (hlead : lead' = x ++ y) (hw : w = y ++ z) : False := by
  -- The last character of the stretch.
  obtain ⟨c, hc⟩ : ∃ c, o.getLast? = some c := by
    rw [← Option.isSome_iff_exists, List.getLast?_isSome]
    exact ho.ne
  have hcx : x.getLast? = some c := by
    have hlast := congrArg List.getLast? hend
    rwa [List.getLast?_append_of_ne_nil _ ho.ne, List.getLast?_append_of_ne_nil _ hx, hc,
      eq_comm] at hlast
  have hplain := ho.of_mem (List.mem_of_getLast? hc)
  have hmem : c ∈ lead' := by
    rw [hlead]
    exact List.mem_append_left y (List.mem_of_getLast? hcx)
  cases k' with
  | false =>
    cases h' with
    | quoted hq =>
      rw [List.mem_singleton.1 hmem] at hc
      exact ho.not_isQuote (List.mem_of_getLast? hc) hq
  | true =>
    cases y with
    | nil =>
      rw [List.append_nil] at hlead
      have hblank := h'.isBlank_last (hlead ▸ hcx)
      rw [hplain.1] at hblank
      cases hblank
    | cons e y =>
      cases h with
      | @quoted q q' w hq hq' =>
        obtain ⟨rfl, -⟩ := List.cons.inj hw
        refine h'.not_isQuote ?_ hq'
        rw [hlead]
        simp
      | value => exact hone ⟨rfl, rfl⟩

/-- If an edit stands at the head of the characters, the frame of one that shares no byte with it
stands behind its stretch. -/
theorem exists_behind (h : Framed k pos cs d [] lead o w n)
    (h' : Framed k' pos cs d' u' lead' o' w' n') (hone : ¬(k = true ∧ k' = true))
    (hap : d.Apart d') : ∃ x, u' = lead ++ (o ++ x) := by
  have hcs : (lead ++ o) ++ w = u' ++ (lead' ++ (o' ++ w')) := by
    rw [← h'.eq, h.eq, List.nil_append, List.append_assoc]
  have hstart := h.start
  have hstop := h.stop
  have hstart' := h'.start
  have hstop' := h'.stop
  simp only [List.nil_append] at hstart hstop
  rcases hap with hap | hap
  · -- The other stretch begins behind this one.
    have hle : Utf8.width (lead ++ o) ≤ Utf8.width (u' ++ lead') := by omega
    obtain ⟨y, hy⟩ := Utf8.prefix_of_width_le (hcs.trans (List.append_assoc ..).symm) hle
    rcases List.append_eq_append_iff.1 hy with ⟨x, rfl, -⟩ | ⟨x, hx, hlead⟩
    · exact ⟨x, by rw [List.append_assoc]⟩
    · cases x with
      | nil => exact ⟨[], by simpa using hx.symm⟩
      | cons c x =>
        have hw : w = y ++ (o' ++ w') := by
          rw [hx, hlead] at hcs
          simpa using hcs
        exact (not_overlap h.frame h'.frame hone h.old (by simp) hx hlead hw).elim
  · -- The other stretch would end before this one, within the frame.
    have hle : Utf8.width (u' ++ (lead' ++ o')) ≤ Utf8.width lead := by omega
    have hcs' : (u' ++ (lead' ++ o')) ++ w' = lead ++ (o ++ w) := by
      rw [← List.append_assoc lead, hcs]
      simp only [List.append_assoc]
    obtain ⟨z, hz⟩ := Utf8.prefix_of_width_le hcs' hle
    exact (not_within h.frame h'.frame hone h'.old.ne hz.symm).elim

/-- The other edits stand behind an edit at the head. -/
theorem fills_behind (h : Framed k pos cs d [] lead o w n) (h' : Fills k' pos cs d')
    (hone : ¬(k = true ∧ k' = true)) (hap : d.Apart d') : Fills k' d.stop w d' := by
  obtain ⟨u', lead', o', w', n', hf⟩ := h'
  obtain ⟨x, rfl⟩ := exists_behind h hf hone hap
  have hw : w = x ++ (lead' ++ (o' ++ w')) := by
    have hcs := h.eq.symm.trans hf.eq
    simp only [List.nil_append, List.append_assoc] at hcs
    exact List.append_cancel_left (List.append_cancel_left hcs)
  have hstop := h.stop
  have hstart' := hf.start
  have hstop' := hf.stop
  simp only [Utf8.width_append, List.nil_append] at hstop hstart' hstop'
  refine ⟨x, lead', o', w', n', hw, hf.frame, hf.old, hf.new, ?_, ?_, hf.replacement⟩
  · rw [Utf8.width_append]
    omega
  · rw [Utf8.width_append, Utf8.width_append]
    omega

/-- An edit that does not stand at the head stands in the rest. -/
theorem fills_tail {c : Char} {r : List Char} (h : Fills k pos (c :: r) d)
    (hhead : ¬∃ lead o w n, Framed k pos (c :: r) d [] lead o w n) :
    Fills k (pos + Utf8.width [c]) r d := by
  obtain ⟨u, lead, o, w, n, hf⟩ := h
  cases u with
  | nil => exact absurd ⟨lead, o, w, n, hf⟩ hhead
  | cons e u =>
    obtain ⟨rfl, hr⟩ := List.cons.inj hf.eq
    have hstart := hf.start
    have hstop := hf.stop
    rw [List.cons_append, Utf8.width_cons] at hstart hstop
    refine ⟨u, lead, o, w, n, hr, hf.frame, hf.old, hf.new, ?_, ?_, hf.replacement⟩
    · rw [hstart, Utf8.width_singleton, Nat.add_assoc]
    · rw [hstop, Utf8.width_singleton, Nat.add_assoc]

theorem Fills.le_start (h : Fills k pos cs d) : pos ≤ d.start := by
  obtain ⟨u, lead, o, w, n, hf⟩ := h
  rw [hf.start]
  omega

end

/-! ## Parts of an edited text -/

/-- A stretch in a frame gives way. -/
theorem Frame.settled {k : Bool} {lead o n : List Char} {ps : List Part}
    (h : Frame k lead (before ps)) (ho : IsPlain o) (hn : IsPlain n) (hps : Settled ps) :
    Settled (lead.map .kept ++ .moved o n :: ps) := by
  generalize hw : before ps = w at h
  cases h with
  | quoted hq hq' =>
    obtain ⟨r, rfl, -⟩ := hps.exists_kept hw
    exact .quoted hq hq' ho hn hps
  | value hne hb hends =>
    subst hw
    exact .value rfl hne hb ho hn hends hps

/-- From a position on, what the edits make of each part is its new side. -/
def Renders (ds : List Edit) : Nat → List Part → Prop
  | _, [] => True
  | pos, x :: ps => Editor.patchFrom ds pos (Utf8.encodeChars x.old) = Utf8.encodeChars x.new ∧
      Renders ds (pos + Utf8.width x.old) ps

theorem renders_append {ds : List Edit} {pos : Nat} {ps qs : List Part} :
    Renders ds pos (ps ++ qs) ↔
      Renders ds pos ps ∧ Renders ds (pos + Utf8.width (before ps)) qs := by
  induction ps generalizing pos with
  | nil => simp [Renders, Utf8.width]
  | cons x ps ih =>
    have hwidth : Utf8.width (before (x :: ps)) = Utf8.width x.old + Utf8.width (before ps) :=
      Utf8.width_append x.old (before ps)
    rw [List.cons_append, Renders, Renders, ih, hwidth, and_assoc, Nat.add_assoc]

/-- What the edits make of the old side is the new side. -/
theorem Renders.patchFrom_before {ds : List Edit} {pos : Nat} {ps : List Part}
    (h : Renders ds pos ps) : Editor.patchFrom ds pos (Utf8.encodeChars (before ps)) =
      Utf8.encodeChars (after ps) := by
  induction ps generalizing pos with
  | nil => rfl
  | cons x ps ih =>
    have hold : before (x :: ps) = x.old ++ before ps := rfl
    have hnew : after (x :: ps) = x.new ++ after ps := rfl
    rw [hold, hnew, Utf8.encodeChars_append, Utf8.encodeChars_append, Editor.patchFrom_append,
      h.1, Utf8.length_encodeChars, ih h.2]

/-- Characters that no edit covers are kept. -/
theorem renders_map_kept {ds : List Edit} {pos : Nat} {cs : List Char}
    (h : ∀ d ∈ ds, d.stop ≤ pos ∨ pos + Utf8.width cs ≤ d.start) :
    Renders ds pos (cs.map .kept) := by
  induction cs generalizing pos with
  | nil => trivial
  | cons c cs ih =>
    rw [Utf8.width_cons] at h
    refine ⟨Editor.patchFrom_of_uncovered fun d hd => ?_, ih fun d hd => ?_⟩
    · have hd' := h d hd
      rw [Utf8.length_encodeChars, Part.old, Utf8.width_singleton]
      omega
    · have hd' := h d hd
      rw [Part.old, Utf8.width_singleton]
      omega

/-- An edit at the head makes its replacement of the stretch, and no other edit touches what stands
before the stretch. -/
theorem renders_head {ds : List Edit} {k : Bool} {pos : Nat} {cs lead o w n : List Char} {d : Edit}
    {ps : List Part} (hf : Framed k pos cs d [] lead o w n) (hds : Editor.Coherent ds)
    (hd : d ∈ ds) (hfree : ∀ d' ∈ ds, d' = d ∨ d'.stop ≤ pos ∨ d.stop ≤ d'.start)
    (h : Renders ds d.stop ps) : Renders ds pos (lead.map .kept ++ .moved o n :: ps) := by
  have hstart := hf.start
  have hstop := hf.stop
  rw [List.nil_append] at hstart hstop
  rw [Utf8.width_append] at hstop
  refine renders_append.2 ⟨renders_map_kept fun d' hd' => ?_, ?_, ?_⟩
  · rcases hfree d' hd' with rfl | hle | hle
    · omega
    · exact .inl hle
    · omega
  · rw [before_map_kept, ← hstart, Part.old, Part.new, ← hf.replacement]
    refine Editor.patchFrom_of_mem hds hd (Utf8.encodeChars_ne_nil hf.old.ne) ?_
    rw [Utf8.length_encodeChars]
    omega
  · rw [before_map_kept, Part.old, Nat.add_assoc, ← hstop]
    exact h

/-- **main theorem**: edits in frames that share no byte turn a text into parts. At most one of the
edits is of the value of the pragma. -/
theorem exists_parts {ds : List Edit} (value : Edit → Bool) (hds : Editor.Coherent ds)
    (hone : ∀ d ∈ ds, ∀ d' ∈ ds, value d = true ∧ value d' = true → d = d') {pos : Nat}
    {cs : List Char} (h : ∀ d ∈ ds, d.stop ≤ pos ∨ Fills (value d) pos cs d) :
    ∃ ps, Settled ps ∧ before ps = cs ∧ Renders ds pos ps := by
  induction hlen : cs.length using Nat.strongRecOn generalizing pos cs with
  | _ size ih =>
    cases cs with
    | nil => exact ⟨[], .nil, rfl, trivial⟩
    | cons c r =>
      by_cases hhead : ∃ d ∈ ds, ∃ lead o w n, Framed (value d) pos (c :: r) d [] lead o w n
      · obtain ⟨d, hd, lead, o, w, n, hf⟩ := hhead
        have hrest : ∀ d' ∈ ds, d' = d ∨ d'.stop ≤ pos ∨ Fills (value d') d.stop w d' := by
          intro d' hd'
          rcases hds d hd d' hd' with rfl | hap
          · exact .inl rfl
          · refine or_iff_not_imp_left.2 fun hdd => (h d' hd').imp_right fun hfills => ?_
            exact fills_behind hf hfills (fun hv => hdd (hone d hd d' hd' hv).symm) hap
        have hstop := hf.stop
        have hlength : w.length < size := by
          have := List.length_pos_iff.2 hf.frame.lead_ne
          rw [← hlen, hf.eq]
          simp only [List.length_append, List.nil_append]
          omega
        have hbehind : ∀ d' ∈ ds, d'.stop ≤ d.stop ∨ Fills (value d') d.stop w d' := by
          intro d' hd'
          rcases hrest d' hd' with rfl | hle | hfills
          · exact .inl (Nat.le_refl _)
          · exact .inl (by omega)
          · exact .inr hfills
        obtain ⟨ps, hps, rfl, hrenders⟩ := ih w.length hlength hbehind rfl
        refine ⟨_, hf.frame.settled hf.old hf.new hps, ?_, renders_head hf hds hd ?_ hrenders⟩
        · rw [hf.eq]
          simp
        · exact fun d' hd' => (hrest d' hd').imp_right (.imp_right Fills.le_start)
      · have hstep : ∀ d ∈ ds, d.stop ≤ pos ∨ Fills (value d) (pos + Utf8.width [c]) r d :=
          fun d hd => (h d hd).imp_right fun hfills =>
            fills_tail hfills fun ⟨lead, o, w, n, hf⟩ => hhead ⟨d, hd, lead, o, w, n, hf⟩
        obtain ⟨ps, hps, rfl, hrenders⟩ := ih r.length (by rw [← hlen]; simp)
          (fun d hd => (hstep d hd).imp_left fun hle => by omega) rfl
        have hkept : Renders ds pos ([c].map .kept) :=
          renders_map_kept fun d hd => (hstep d hd).imp_right Fills.le_start
        exact ⟨.kept c :: ps, hps.kept c, rfl, renders_append.2 ⟨hkept, hrenders⟩⟩

end ModuleGraph.Rewrite
