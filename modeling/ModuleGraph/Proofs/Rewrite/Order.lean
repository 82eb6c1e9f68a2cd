import ModuleGraph.Proofs.Rewrite.Answer
import ModuleGraph.Proofs.Syntax.Script
/-!
# A file whose loads complete in any order

The directives of a file are answered first, then its specifiers, each group in the order in which
its loads complete. The stretches that name modules are texts between characters, so nothing that is
decoded on the way is malformed.

Results:
* `complete_patches`: **main theorem**: edits that share no byte are made whatever the order, and
  every other byte is kept;
* `complete_eq_ok_iff_scans_apart`: **main theorem**: a file can be rewritten exactly if no edit of
  one scan shares a byte with an edit of another scan, whatever tree its specifiers come from;
* `scans_clash`: they may share bytes.
-/

namespace ModuleGraph.Rewrite

/-! ## Specifiers between quotes -/

/-- The byte of a quote. -/
def IsQuote (b : UInt8) : Prop := b = 0x22 ∨ b = 0x27

/-- A range lies between two quotes. -/
def Delimited (bytes : List UInt8) (span : Nat × Nat) : Prop :=
  ∃ before q inside q' behind, bytes = before ++ q :: (inside ++ q' :: behind) ∧ IsQuote q ∧
    IsQuote q' ∧ span = (before.length + 1, before.length + 1 + inside.length)

theorem isText_of_isQuote {q : UInt8} (h : IsQuote q) : Utf8.IsText [q] := by
  rcases h with rfl | rfl
  · exact ⟨['"'], by decide⟩
  · exact ⟨['\''], by decide⟩

theorem encodeChar_quote {q : Char} (h : q = '"' ∨ q = '\'') :
    ∃ b, IsQuote b ∧ String.utf8EncodeChar q = [b] := by
  rcases h with rfl | rfl
  · exact ⟨0x22, .inl rfl, by decide⟩
  · exact ⟨0x27, .inr rfl, by decide⟩

/-- What lies between quotes of a text is a text. -/
theorem isText_slice_of_delimited {bytes : List UInt8} {span : Nat × Nat}
    (h : Delimited bytes span) (hb : Utf8.IsText bytes) :
    span.2 ≤ bytes.length ∧ Utf8.IsText (slice bytes span) := by
  obtain ⟨before, q, inside, q', behind, rfl, hq, hq', rfl⟩ := h
  have hfrom : Utf8.IsText (inside ++ [q'] ++ behind) := by
    have hsplit : Utf8.IsText (before ++ [q] ++ (inside ++ [q'] ++ behind)) := by simpa using hb
    exact (Utf8.isText_around hsplit (isText_of_isQuote hq) (by simp)).2
  have hinside : slice (before ++ q :: (inside ++ q' :: behind))
      (before.length + 1, before.length + 1 + inside.length) = inside := by
    have hsplit : before ++ q :: (inside ++ q' :: behind) =
        before ++ [q] ++ inside ++ q' :: behind := by simp
    rw [slice, hsplit, List.take_left' (by simp; omega), List.drop_left' (by simp)]
  rw [hinside]
  refine ⟨?_, (Utf8.isText_around hfrom (isText_of_isQuote hq') (by simp)).1⟩
  simp only [List.length_append, List.length_cons]
  omega

theorem inside_of_delimited {text : String} {tree : Syntax.Tree}
    (h : ∀ span ∈ tree.specifierSpans, Delimited (Utf8.encode text) span) :
    ∀ span ∈ tree.specifierSpans, span.2 ≤ (Utf8.encode text).length := fun span hspan =>
  (isText_slice_of_delimited (h span hspan) (Utf8.isText_encode text)).1

/-- A specifier of a script lies between two quotes. -/
theorem delimited_of_quoted {text : String} {span : Nat × Nat}
    (h : Syntax.Quoted 0 text.toList span) : Delimited (Utf8.encode text) span := by
  obtain ⟨a, q, v, b, htext, hq, rfl⟩ := h
  obtain ⟨c, hc, hbyte⟩ := encodeChar_quote hq
  refine ⟨Utf8.encodeChars a, c, Utf8.encodeChars v, c, Utf8.encodeChars b, ?_, hc, hc, ?_⟩
  · rw [Utf8.encode_eq, htext, Utf8.encodeChars_append, Utf8.encodeChars_cons,
      Utf8.encodeChars_append, Utf8.encodeChars_cons, hbyte]
    rfl
  · rw [Nat.zero_add]
    rfl

theorem delimited_of_parse {dialect : Syntax.Dialect} {text : String} {span : Nat × Nat}
    (h : span ∈ (Syntax.parse dialect text).specifierSpans) : Delimited (Utf8.encode text) span :=
  delimited_of_quoted (Syntax.quoted_of_mem_specifierSpans h)

/-! ## Targets between characters -/

/-- A target is not empty, lies inside the text and begins and ends between characters. -/
structure Sits (bytes : List UInt8) (t : Target) : Prop where
  lt : t.start < t.stop
  le : t.stop ≤ bytes.length
  text : Utf8.IsText (slice bytes (t.start, t.stop))

theorem sits_ofFound {text segment : String} {f : Directive.Found}
    (h : Directive.Stands 0 text.toList f) : Sits (Utf8.encode text) (ofFound segment f) := by
  obtain ⟨-, hlt, hle⟩ := h.bounds
  rw [Nat.zero_add] at hle
  exact ⟨hlt, hle, Directive.isText_of_stands h⟩

theorem sits_of_mem_directives {text : String} {t : Target} (h : .module t ∈ directives text) :
    Sits (Utf8.encode text) t := by
  simp only [directives, List.mem_append, List.mem_map, Option.mem_toList, Request.module.injEq,
    reduceCtorEq, and_false, exists_false, or_false] at h
  rcases h with ⟨f, hf, rfl⟩ | ⟨f, hf, rfl⟩
  · exact sits_ofFound (Directive.stands_of_pragma? hf)
  · exact sits_ofFound (Directive.stands_of_references hf)

/-- The request for the specifier at a range, whose bytes are a text. -/
def specifierAt (bytes : List UInt8) (span : Nat × Nat) : Request :=
  .module ⟨span.1, span.2, ((Utf8.decode (slice bytes span)).toOption).getD "", true⟩

/-- Specifiers between quotes can be read. -/
theorem specifiers_eq_ok {text : String} {tree : Syntax.Tree}
    (h : ∀ span ∈ tree.specifierSpans, Delimited (Utf8.encode text) span) :
    specifiers (Utf8.encode text) tree =
      .ok (tree.specifierSpans.map (specifierAt (Utf8.encode text))) := by
  unfold specifiers
  generalize tree.specifierSpans = spans at h
  induction spans with
  | nil => rfl
  | cons span spans ih =>
    obtain ⟨-, htext⟩ :=
      isText_slice_of_delimited (h span List.mem_cons_self) (Utf8.isText_encode text)
    obtain ⟨value, hvalue⟩ := (Utf8.isText_iff_decode _).1 htext
    rw [List.mapM_cons, ih fun s hs => h s (List.mem_cons_of_mem span hs), ofSpan, hvalue,
      List.map_cons, specifierAt, hvalue]
    rfl

/-- Specifiers that can be read are those of their ranges. -/
theorem eq_of_specifiers_eq_ok {bytes : List UInt8} {tree : Syntax.Tree} {rs : List Request}
    (h : specifiers bytes tree = .ok rs) : rs = tree.specifierSpans.map (specifierAt bytes) := by
  unfold specifiers at h
  generalize tree.specifierSpans = spans at h
  induction spans generalizing rs with
  | nil =>
    cases h
    rfl
  | cons span spans ih =>
    rw [List.mapM_cons, ofSpan] at h
    cases hvalue : Utf8.decode (slice bytes span) with
    | error p =>
      rw [hvalue] at h
      cases h
    | ok value =>
      cases hrest : spans.mapM (fun span => (ofSpan bytes span).map Request.module) with
      | error p =>
        rw [hvalue, hrest] at h
        cases h
      | ok rest =>
        rw [hvalue, hrest] at h
        cases h
        rw [ih hrest, List.map_cons, specifierAt, hvalue]
        rfl

/-- Specifiers that can be read, and whose ranges lie inside the text, stand between characters. -/
theorem sits_of_mem_specifiers {bytes : List UInt8} {tree : Syntax.Tree} {rs : List Request}
    (h : specifiers bytes tree = .ok rs)
    (hinside : ∀ span ∈ tree.specifierSpans, span.2 ≤ bytes.length) {t : Target}
    (ht : .module t ∈ rs) : Sits bytes t := by
  have htext := isText_of_specifiers h ht
  rw [eq_of_specifiers_eq_ok h] at ht
  obtain ⟨span, hspan, hspecifier⟩ := List.mem_map.1 ht
  cases hspecifier
  exact ⟨Syntax.Tree.lt_of_mem_specifierSpans hspan, hinside span hspan, htext⟩

/-! ## Answers in any order -/

/-- What every request of a file is answered with, scan by scan in the order of the source. -/
structure Answers (text : String) (tree : Syntax.Tree) where
  pragma : List Asked
  paths : List Asked
  libraries : List Asked
  specifiers : List Asked
  pragma_eq : pragma.map Asked.request =
    (Directive.pragma? text).toList.map fun f => .module (ofFound runtimeSegment f)
  paths_eq : paths.map Asked.request =
    (Directive.references .path text).map fun f => .module (ofFound "" f)
  libraries_eq : libraries.map Asked.request =
    (Directive.references .lib text).map fun f => .library f.value
  specifiers_eq :
    Rewrite.specifiers (Utf8.encode text) tree = .ok (specifiers.map Asked.request)
  mild : ∀ q ∈ pragma ++ paths ++ libraries ++ specifiers, q.loads.IsMild

namespace Answers

variable {text : String} {tree : Syntax.Tree}

/-- What the directives are answered with. -/
def directives (a : Answers text tree) : List Asked := a.pragma ++ a.paths ++ a.libraries

theorem directives_eq (a : Answers text tree) :
    a.directives.map Asked.request = Rewrite.directives text := by
  simp only [directives, List.map_append, a.pragma_eq, a.paths_eq, a.libraries_eq]
  rfl

/-- The edits that the answers lead to, in the order of the source. -/
def edits (a : Answers text tree) (m : ImportMap) (source : String) : List Edit :=
  editsOf m source (a.directives ++ a.specifiers)

end Answers

/-- A file rewritten with the answered requests of its directives and those of its specifiers, each
group in the order in which its loads complete. -/
def complete (m : ImportMap) (source text : String) (ds ss : List Asked) : Except Fault String :=
  let s := answerEach m source ⟨.ofBytes (Utf8.encode text), [], [], none⟩ ds
  let s := match s.escaped with
    | some _ => s
    | none => answerEach m source s ss
  match s.escaped with
  | some fault => .error fault
  | none => s.editor.toText.mapError fun p => .foreign (.ofMalformed p)

theorem edit_of_edit?_eq_some {m : ImportMap} {source : String} {q : Asked} {d : Edit}
    (h : q.edit? m source = some d) : ∃ t path, q.request = .module t ∧ d = edit t path := by
  obtain ⟨r, loads⟩ := q
  unfold Asked.edit? at h
  cases r with
  | library name => cases h
  | module t =>
    simp only at h
    split at h
    · cases h
    · split at h
      · cases h
      · next path _ =>
        cases h
        exact ⟨t, path, rfl, rfl⟩

/-- An edit writes a path at the target of one of the requests. -/
theorem exists_target_of_mem_editsOf {m : ImportMap} {source : String} {qs : List Asked} {d : Edit}
    (h : d ∈ editsOf m source qs) :
    ∃ t path, .module t ∈ qs.map Asked.request ∧ d = edit t path := by
  obtain ⟨q, hq, hedit⟩ := List.mem_filterMap.1 h
  obtain ⟨t, path, hrequest, rfl⟩ := edit_of_edit?_eq_some hedit
  exact ⟨t, path, hrequest ▸ List.mem_map_of_mem hq, rfl⟩

section

variable {m : ImportMap} {source text : String} {tree : Syntax.Tree} {a : Answers text tree}

theorem Answers.specifiers_map_eq (a : Answers text tree) : a.specifiers.map Asked.request =
    tree.specifierSpans.map (specifierAt (Utf8.encode text)) :=
  eq_of_specifiers_eq_ok a.specifiers_eq

variable (h : ∀ span ∈ tree.specifierSpans, span.2 ≤ (Utf8.encode text).length)

include h

/-- The edits of a file fit and put texts in the place of texts. -/
theorem fits_of_mem_edits {d : Edit} (hd : d ∈ a.edits m source) :
    d.Fits (Utf8.encode text).length ∧ Editor.PutsText (Utf8.encode text) d := by
  obtain ⟨t, path, hrequest, rfl⟩ := exists_target_of_mem_editsOf hd
  rw [List.map_append, a.directives_eq] at hrequest
  have hsits : Sits (Utf8.encode text) t := by
    rcases List.mem_append.1 hrequest with hrequest | hrequest
    · exact sits_of_mem_directives hrequest
    · exact sits_of_mem_specifiers a.specifiers_eq h hrequest
  exact ⟨⟨hsits.lt, hsits.le⟩, hsits.text, Utf8.isText_encode _⟩

end

/-- A file is rewritten by recording the edits of its directives, then those of its specifiers. -/
theorem complete_eq (m : ImportMap) (source text : String) {ds ss : List Asked}
    (h : ∀ q ∈ ds ++ ss, q.loads.IsMild) :
    complete m source text ds ss =
      match (Editor.ofBytes (Utf8.encode text)).recordAll
        (editsOf m source (ds ++ ss)) with
      | (_, some p) => .error (refused p)
      | (e, none) => e.toText.mapError fun p => .foreign (.ofMalformed p) := by
  unfold complete
  obtain ⟨heditor, hescaped⟩ := answerEach_eq m source
    ⟨.ofBytes (Utf8.encode text), [], [], none⟩ fun q hq => h q (List.mem_append_left ss hq)
  generalize answerEach m source ⟨.ofBytes (Utf8.encode text), [], [], none⟩ ds = s at *
  simp only at heditor hescaped
  rw [editsOf_append, Editor.recordAll_append]
  cases hp : (Editor.recordAll (.ofBytes (Utf8.encode text))
    (editsOf m source ds)).2 with
  | some p =>
    have hs : s.escaped = some (refused p) := by simpa [hp] using hescaped
    simp [hs]
  | none =>
    have hs : s.escaped = none := by simpa [hp] using hescaped
    obtain ⟨heditor', hescaped'⟩ :=
      answerEach_eq m source s fun q hq => h q (List.mem_append_right ds hq)
    rw [heditor] at heditor' hescaped'
    simp only [hs, heditor', hescaped']
    generalize Editor.recordAll _ (editsOf m source ss) = result
    cases result.2 <;> rfl

section

variable {m : ImportMap} {source text : String} {tree : Syntax.Tree} {a : Answers text tree}
  {ds ss : List Asked} (h : ∀ span ∈ tree.specifierSpans, span.2 ≤ (Utf8.encode text).length)
  (hds : ds.Perm a.directives) (hss : ss.Perm a.specifiers)

include hds hss in
theorem perm_edits : (editsOf m source (ds ++ ss)).Perm (a.edits m source) :=
  (hds.append hss).filterMap _

include hds hss in
theorem mild_of_perm : ∀ q ∈ ds ++ ss, q.loads.IsMild := fun q hq =>
  a.mild q ((hds.append hss).mem_iff.1 hq)

include h

theorem sound_edits (hap : (a.edits m source).Pairwise Edit.Apart) :
    Editor.Sound ⟨Utf8.encode text, a.edits m source⟩ :=
  ⟨fun _ hd => (fits_of_mem_edits h hd).1, hap⟩

/-- The patched bytes are a text. -/
theorem exists_patched (hap : (a.edits m source).Pairwise Edit.Apart) :
    ∃ final, Utf8.encode final = Editor.patch (a.edits m source) (Utf8.encode text) := by
  have htext := (sound_edits h hap).isText_toBytes (Utf8.isText_encode text)
    fun d hd => (fits_of_mem_edits h hd).2
  obtain ⟨final, hfinal⟩ := (Utf8.isText_iff_decode _).1 htext
  refine ⟨final, ?_⟩
  rw [← (Utf8.decode_eq_ok_iff _ _).1 hfinal, (sound_edits h hap).toBytes_eq_patch]

include hds hss

/-- Edits that share no byte are made, whatever the order in which the loads complete. -/
theorem complete_of_pairwise (hap : (a.edits m source).Pairwise Edit.Apart) {final : String}
    (hfinal : Utf8.encode final = Editor.patch (a.edits m source) (Utf8.encode text)) :
    complete m source text ds ss = .ok final := by
  have hperm : (editsOf m source (ds ++ ss)).Perm (a.edits m source) :=
    perm_edits hds hss
  have hap' := (hperm.pairwise_iff Edit.Apart.symm).2 hap
  have hsound : Editor.Sound ⟨Utf8.encode text, editsOf m source (ds ++ ss)⟩ :=
    ⟨fun d hd => (sound_edits h hap).fits d (hperm.mem_iff.1 hd), hap'⟩
  have hrecord := Editor.recordAll_of_pairwise (e := .ofBytes (Utf8.encode text)) hsound.fits
    (by simpa [Editor.ofBytes] using hap')
  have htext : Editor.toText ⟨Utf8.encode text, editsOf m source (ds ++ ss)⟩ =
      .ok final := by
    rw [Editor.toText, Utf8.decode_eq_ok_iff, hfinal, hsound.toBytes_eq_patch]
    exact Editor.patch_congr (fun d => hperm.mem_iff) (Editor.coherent_of_pairwise hap') _
  rw [complete_eq m source text (mild_of_perm hds hss), hrecord]
  simp only [Editor.ofBytes, List.nil_append, htext]
  rfl

/-- An edit that shares a byte with another one keeps the file from being rewritten. -/
theorem complete_of_not_pairwise (hap : ¬(a.edits m source).Pairwise Edit.Apart) :
    ∃ x ∈ a.edits m source, ∃ d ∈ a.edits m source, ¬x.Apart d ∧
      complete m source text ds ss = .error (refused (.overlap d.start d.stop x)) := by
  have hperm : (editsOf m source (ds ++ ss)).Perm (a.edits m source) :=
    perm_edits hds hss
  have hfits : ∀ d ∈ editsOf m source (ds ++ ss),
      d.Fits (Editor.ofBytes (Utf8.encode text)).original.length :=
    fun d hd => (fits_of_mem_edits h (hperm.mem_iff.1 hd)).1
  rw [complete_eq m source text (mild_of_perm hds hss)]
  cases hr : (Editor.ofBytes (Utf8.encode text)).recordAll
    (editsOf m source (ds ++ ss)) with
  | mk e problem =>
    cases problem with
    | none =>
      refine absurd ?_ hap
      have hnone := (Editor.recordAll_eq_none_iff hfits .nil).1 (congrArg Prod.snd hr)
      exact (hperm.pairwise_iff Edit.Apart.symm).1 (by simpa [Editor.ofBytes] using hnone)
    | some p =>
      obtain ⟨x, hx, d, hd, hclash, rfl⟩ := Editor.recordAll_eq_some hfits (congrArg Prod.snd hr)
      exact ⟨x, hperm.mem_iff.1 hx, d, hperm.mem_iff.1 hd, hclash, rfl⟩

/-- A file that is rewritten is the patched text. -/
theorem patched_of_complete {final : String} (hok : complete m source text ds ss = .ok final) :
    (a.edits m source).Pairwise Edit.Apart ∧
      Utf8.encode final = Editor.patch (a.edits m source) (Utf8.encode text) := by
  by_cases hap : (a.edits m source).Pairwise Edit.Apart
  · obtain ⟨final', hfinal⟩ := exists_patched h hap
    have hok' := complete_of_pairwise h hds hss hap hfinal
    rw [hok] at hok'
    exact ⟨hap, Except.ok.inj hok' ▸ hfinal⟩
  · obtain ⟨x, -, d, -, -, herror⟩ := complete_of_not_pairwise h hds hss hap
    rw [hok] at herror
    cases herror

end

/-- What happens does not depend on what was reported and asked for before. -/
theorem answerEach_congr (m : ImportMap) (source : String) (qs : List Asked) {s s' : Step}
    (heditor : s.editor = s'.editor) (hescaped : s.escaped = s'.escaped) :
    (answerEach m source s qs).editor = (answerEach m source s' qs).editor ∧
      (answerEach m source s qs).escaped = (answerEach m source s' qs).escaped := by
  induction qs generalizing s s' with
  | nil => exact ⟨heditor, hescaped⟩
  | cons q qs ih =>
    have heditor' : (s.next m source q).editor = (s'.next m source q).editor := by
      simp only [Step.next, heditor]
    have hescaped' : (s.next m source q).escaped = (s'.next m source q).escaped := by
      simp only [Step.next, heditor, hescaped]
    exact ih heditor' hescaped'

/-- A file that is rewritten with loads that answer at once is rewritten in the order of the
source. -/
theorem run_eq_complete {m : ImportMap} {loads : Loads} {source fileName text : String}
    {rs : List Request}
    (h : specifiers (Utf8.encode text) (Syntax.parse (.ofFileName fileName) text) = .ok rs) :
    (run m loads source fileName text).1 =
      complete m source text ((directives text).map (⟨·, loads⟩)) (rs.map (⟨·, loads⟩)) := by
  unfold run complete
  simp only [h, ← answerEach_map]
  obtain ⟨heditor, hescaped⟩ := @answerEach_congr m source
    ((directives text).map (⟨·, loads⟩))
    ⟨.ofBytes (Utf8.encode text), syntaxEvents fileName
      (Syntax.parse (.ofFileName fileName) text), [], none⟩
    ⟨.ofBytes (Utf8.encode text), [], [], none⟩ rfl rfl
  generalize answerEach m source ⟨_, syntaxEvents _ _, _, _⟩ _ = s₁ at *
  generalize answerEach m source ⟨_, [], _, _⟩ _ = s₂ at *
  cases hs : s₂.escaped with
  | some fault => simp [hescaped, hs]
  | none =>
    obtain ⟨heditor', hescaped'⟩ :=
      answerEach_congr m source (rs.map (⟨·, loads⟩)) heditor hescaped
    cases ht : (answerEach m source s₂ (rs.map (⟨·, loads⟩))).escaped with
    | some fault => simp [hescaped, hs, hescaped', ht]
    | none => simp [hescaped, hs, heditor', hescaped', ht]

/-- **main theorem**: whatever the loads of a file yield and whatever the order in which they
complete, if the ranges of those that succeed share no byte, each of these ranges gives way to its
path and every other byte is kept. Nothing that is decoded on the way is malformed, provided that
the specifiers lie between quotes, as those of a parsed script do. -/
theorem complete_patches (m : ImportMap) (source text : String) :
    (∀ dialect, ∀ span ∈ (Syntax.parse dialect text).specifierSpans,
      Delimited (Utf8.encode text) span) ∧
    (∀ f, Directive.pragma? text = some f ∨ (∃ named, f ∈ Directive.references named text) →
      Utf8.decode (slice (Utf8.encode text) (f.start, f.stop)) = .ok f.value) ∧
    ∀ tree : Syntax.Tree, (∀ span ∈ tree.specifierSpans, Delimited (Utf8.encode text) span) →
      ∃ rs, specifiers (Utf8.encode text) tree = .ok rs ∧
        (∀ fileName loads, tree = Syntax.parse (.ofFileName fileName) text →
          (run m loads source fileName text).1 = complete m source text
            ((directives text).map (⟨·, loads⟩)) (rs.map (⟨·, loads⟩))) ∧
        ∀ a : Answers text tree, (a.edits m source).Pairwise Edit.Apart →
          ∃ final, Utf8.encode final = Editor.patch (a.edits m source) (Utf8.encode text) ∧
            ∀ ds ss, ds.Perm a.directives → ss.Perm a.specifiers →
              complete m source text ds ss = .ok final := by
  refine ⟨fun dialect span => delimited_of_parse, fun f hf => ?_, fun tree h => ?_⟩
  · have hstands : Directive.Stands 0 text.toList f := by
      rcases hf with hf | ⟨named, hf⟩
      · exact Directive.stands_of_pragma? hf
      · exact Directive.stands_of_references hf
    rw [slice, Directive.bytes_of_stands hstands]
    exact (Utf8.decode_eq_ok_iff _ _).2 rfl
  · refine ⟨_, specifiers_eq_ok h, fun fileName loads htree => ?_, fun a hap => ?_⟩
    · exact run_eq_complete (htree ▸ specifiers_eq_ok h)
    · have hinside := inside_of_delimited h
      obtain ⟨final, hfinal⟩ := exists_patched hinside hap
      exact ⟨final, hfinal, fun ds ss hds hss => complete_of_pairwise hinside hds hss hap hfinal⟩

/-- Everything is answered by the same loads. -/
def Answers.uniform {text : String} {tree : Syntax.Tree}
    (h : ∀ span ∈ tree.specifierSpans, Delimited (Utf8.encode text) span) {loads : Loads}
    (hmild : loads.IsMild) : Answers text tree where
  pragma := (Directive.pragma? text).toList.map fun f => ⟨.module (ofFound runtimeSegment f), loads⟩
  paths := (Directive.references .path text).map fun f => ⟨.module (ofFound "" f), loads⟩
  libraries := (Directive.references .lib text).map fun f => ⟨.library f.value, loads⟩
  specifiers := tree.specifierSpans.map fun span => ⟨specifierAt (Utf8.encode text) span, loads⟩
  pragma_eq := by simp
  paths_eq := by simp
  libraries_eq := by simp
  specifiers_eq := by
    rw [specifiers_eq_ok h, List.map_map]
    rfl
  mild := by
    intro q hq
    simp only [List.mem_append, List.mem_map] at hq
    rcases hq with ((⟨_, -, rfl⟩ | ⟨_, -, rfl⟩) | ⟨_, -, rfl⟩) | ⟨_, -, rfl⟩ <;> exact hmild

/-- A text with a reference, a declaration file and a module that is gone. -/
def nearNames : String :=
  "/// <reference path=\"./ä.ts\" />\nimport './b.d.ts'; // ü\nimport './gone.ts';\n"

/-- Every module is loaded but one. -/
def allButGone : Loads where
  module url := if url = "file:///p/gone.ts" then .error (.fetch url "gone") else .ok "/v/é.d.ts"
  library _ := .ok ()

theorem isMild_allButGone : allButGone.IsMild := by
  refine ⟨fun url fault h => ?_, fun _ => rfl⟩
  simp only [allButGone] at h
  split at h
  · cases h
    rfl
  · cases h

/-- The answers to what the text asks for. -/
def nearNamesAnswers : Answers nearNames (Syntax.parse .plain nearNames) :=
  .uniform (fun _ => delimited_of_parse) isMild_allButGone

/-- The modules of a text may be loaded in the order from its end to its beginning. -/
theorem complete_patches_nearNames :
    (nearNamesAnswers.edits .empty "file:///p/main.ts").Pairwise Edit.Apart ∧
    complete .empty "file:///p/main.ts" nearNames nearNamesAnswers.directives.reverse
        nearNamesAnswers.specifiers.reverse =
      .ok "/// <reference path=\"/v/é.d.ts\" />\nimport '/v/é.js'; // ü\nimport './gone.ts';\n" := by
  have hap : (nearNamesAnswers.edits .empty "file:///p/main.ts").Pairwise Edit.Apart := by
    decide +kernel
  obtain ⟨hquoted, -, hall⟩ := complete_patches .empty "file:///p/main.ts" nearNames
  obtain ⟨rs, -, -, hdone⟩ := hall _ (hquoted .plain)
  obtain ⟨final, hfinal, horder⟩ := hdone nearNamesAnswers hap
  have hbytes : Utf8.encode final = Utf8.encode
      "/// <reference path=\"/v/é.d.ts\" />\nimport '/v/é.js'; // ü\nimport './gone.ts';\n" :=
    hfinal.trans (by decide +kernel)
  rw [← Utf8.encode_injective hbytes]
  exact ⟨hap, horder _ _ (List.reverse_perm _) (List.reverse_perm _)⟩

/-! ## Scans of a script -/

/-- Edits of requests for ranges that share no byte share no byte. -/
theorem pairwise_editsOf {m : ImportMap} {source : String} {qs : List Asked}
    (h : (qs.map Asked.request).Pairwise fun r r' =>
      ∀ t t', r = .module t → r' = .module t' → t.stop ≤ t'.start ∨ t'.stop ≤ t.start) :
    (editsOf m source qs).Pairwise Edit.Apart := by
  rw [List.pairwise_map] at h
  refine List.pairwise_filterMap.2 (h.imp fun {q q'} hqq d hd d' hd' => ?_)
  obtain ⟨t, path, ht, rfl⟩ := edit_of_edit?_eq_some hd
  obtain ⟨t', path', ht', rfl⟩ := edit_of_edit?_eq_some hd'
  exact hqq t t' ht ht'

theorem editsOf_libraries (m : ImportMap) (source : String) {text : String} {tree : Syntax.Tree}
    (a : Answers text tree) : editsOf m source a.libraries = [] := by
  refine List.filterMap_eq_nil_iff.2 fun q hq => ?_
  have hmem : q.request ∈ (Directive.references .lib text).map fun f => Request.library f.value := by
    rw [← a.libraries_eq]
    exact List.mem_map_of_mem hq
  obtain ⟨f, -, hf⟩ := List.mem_map.1 hmem
  simp [Asked.edit?, ← hf]

/-- Three of the scans lead to edits. -/
theorem Answers.edits_eq {text : String} {tree : Syntax.Tree} (a : Answers text tree)
    (m : ImportMap) (source : String) : a.edits m source = editsOf m source a.pragma ++
      (editsOf m source a.paths ++ editsOf m source a.specifiers) := by
  rw [Answers.edits, Answers.directives, editsOf_append, editsOf_append, editsOf_append,
    editsOf_libraries, List.append_nil, List.append_assoc]

/-- The edits of one scan share no byte, so what counts is that those of different scans do not. -/
theorem pairwise_edits_iff {m : ImportMap} {source text : String} {tree : Syntax.Tree}
    (hapart : tree.specifierSpans.Pairwise Syntax.Tree.Apart) (a : Answers text tree) :
    (a.edits m source).Pairwise Edit.Apart ↔
      (∀ d ∈ editsOf m source a.pragma,
        ∀ x ∈ editsOf m source a.paths ++ editsOf m source a.specifiers, d.Apart x) ∧
      ∀ d ∈ editsOf m source a.paths, ∀ x ∈ editsOf m source a.specifiers, d.Apart x := by
  have hpragma : (editsOf m source a.pragma).Pairwise Edit.Apart := by
    refine pairwise_editsOf ?_
    rw [a.pragma_eq]
    cases Directive.pragma? text <;> simp
  have hpaths : (editsOf m source a.paths).Pairwise Edit.Apart := by
    refine pairwise_editsOf ?_
    rw [a.paths_eq, List.pairwise_map]
    refine (Directive.pairwise_references .path text).imp fun {f g} hfg t t' ht ht' => ?_
    cases ht
    cases ht'
    exact .inl hfg
  have hspecifiers : (editsOf m source a.specifiers).Pairwise Edit.Apart := by
    refine pairwise_editsOf ?_
    rw [a.specifiers_map_eq, List.pairwise_map]
    refine hapart.imp fun {x y} hxy t t' ht ht' => ?_
    cases ht
    cases ht'
    exact hxy
  rw [a.edits_eq, List.pairwise_append, List.pairwise_append]
  constructor
  · rintro ⟨-, ⟨-, -, hacross⟩, hfirst⟩
    exact ⟨hfirst, hacross⟩
  · rintro ⟨hfirst, hacross⟩
    exact ⟨hpragma, ⟨hpaths, hspecifiers, hacross⟩, hfirst⟩

/-- The ranges of the specifiers lie inside the text, and no two of them share a byte. -/
structure Spaced (text : String) (tree : Syntax.Tree) : Prop where
  inside : ∀ span ∈ tree.specifierSpans, span.2 ≤ (Utf8.encode text).length
  apart : tree.specifierSpans.Pairwise Syntax.Tree.Apart

theorem spaced_parse (dialect : Syntax.Dialect) (text : String) :
    Spaced text (Syntax.parse dialect text) :=
  ⟨inside_of_delimited fun _ => delimited_of_parse,
    Syntax.pairwise_specifierSpans_parse dialect text⟩

/-- **main theorem**: a file whose loads all end with a path or a fault that is reported is
rewritten exactly if no range of one scan that is written shares a byte with one of another scan. If
two of them do, the file is given up with the message that one of two such ranges overlaps the
other. Ranges of one scan never do. All that counts of the tree is that its specifiers lie inside
the text and share no byte, as those of a parsed script do. -/
theorem complete_eq_ok_iff_scans_apart (m : ImportMap) (source text : String) :
    (∀ dialect, Spaced text (Syntax.parse dialect text)) ∧
    ∀ tree, Spaced text tree → ∀ (a : Answers text tree) (ds ss : List Asked),
      ds.Perm a.directives → ss.Perm a.specifiers →
      ((∃ final, complete m source text ds ss = .ok final) ↔
        (∀ d ∈ editsOf m source a.pragma,
          ∀ x ∈ editsOf m source a.paths ++ editsOf m source a.specifiers, d.Apart x) ∧
        ∀ d ∈ editsOf m source a.paths, ∀ x ∈ editsOf m source a.specifiers, d.Apart x) ∧
      ((¬∃ final, complete m source text ds ss = .ok final) →
        ∃ x ∈ a.edits m source, ∃ d ∈ a.edits m source, ¬x.Apart d ∧
          complete m source text ds ss = .error (refused (.overlap d.start d.stop x))) := by
  refine ⟨fun dialect => spaced_parse dialect text, fun tree h a ds ss hds hss => ?_⟩
  rw [← pairwise_edits_iff h.apart]
  by_cases hap : (a.edits m source).Pairwise Edit.Apart
  · obtain ⟨final, hfinal⟩ := exists_patched h.inside hap
    have hok := complete_of_pairwise h.inside hds hss hap hfinal
    exact ⟨⟨fun _ => hap, fun _ => ⟨final, hok⟩⟩, fun hnot => absurd ⟨final, hok⟩ hnot⟩
  · refine ⟨⟨fun ⟨final, hok⟩ => ?_, fun hap' => absurd hap' hap⟩, fun _ => ?_⟩
    · exact (patched_of_complete h.inside hds hss hok).1
    · exact complete_of_not_pairwise h.inside hds hss hap

/-- Every module is found at one place. -/
def onePlace : Loads := ⟨fun _ => .ok "/m.ts", fun _ => .ok ()⟩

theorem isMild_onePlace : onePlace.IsMild := ⟨fun _ _ h => (by cases h), fun _ => rfl⟩

/-- A text in which the value of the pragma runs into a statement. -/
def closeImport : String := "/** @jsxImportSource ./jsx*/import\"./b.ts\";\n"

/-- Ranges of different scans may share bytes: the value of a pragma may run into a statement, a
pragma may stand in the path of a reference, and a call in a template may stand in the path of what
looks like a reference. -/
theorem scans_clash :
    onePlace.IsMild ∧
    (run .empty onePlace "https://cdn.test/main.ts" "/https/cdn.test/main.ts" closeImport).1 =
      .error (refused (.overlap 35 41 ⟨21, 43, Utf8.encode "/m.ts"⟩)) ∧
    (run .empty onePlace "https://cdn.test/main.ts" "/https/cdn.test/main.ts"
        "/// <reference path=\"./@jsxImportSource ./b.ts\" />\n").1 =
      .error (refused (.overlap 21 46 ⟨40, 47, Utf8.encode "/m.ts"⟩)) ∧
    (run .empty onePlace "https://cdn.test/main.ts" "/https/cdn.test/main.ts"
        "`\n/// <reference path=\"./$\x7bimport('./x.ts')\x7d\" />`;\n").1 =
      .error (refused (.overlap 35 41 ⟨23, 44, Utf8.encode "/m.ts"⟩)) := by
  refine ⟨isMild_onePlace, ?_, ?_, ?_⟩
  · decide +kernel
  · decide +kernel
  · decide +kernel

/-- The answers to what the text asks for. -/
def closeImportAnswers : Answers closeImport (Syntax.parse .plain closeImport) :=
  .uniform (fun _ => delimited_of_parse) isMild_onePlace

/-- The pragma and the statement of the text cannot both be rewritten. -/
theorem complete_eq_ok_iff_scans_apart_closeImport :
    ¬∃ final, complete .empty "https://cdn.test/main.ts" closeImport
      closeImportAnswers.directives closeImportAnswers.specifiers = .ok final := by
  have hclash : ¬((∀ d ∈ editsOf .empty "https://cdn.test/main.ts" closeImportAnswers.pragma,
      ∀ x ∈ editsOf .empty "https://cdn.test/main.ts" closeImportAnswers.paths ++
        editsOf .empty "https://cdn.test/main.ts" closeImportAnswers.specifiers, d.Apart x) ∧
      ∀ d ∈ editsOf .empty "https://cdn.test/main.ts" closeImportAnswers.paths,
        ∀ x ∈ editsOf .empty "https://cdn.test/main.ts" closeImportAnswers.specifiers,
          d.Apart x) := by
    decide +kernel
  obtain ⟨hspaced, hall⟩ :=
    complete_eq_ok_iff_scans_apart .empty "https://cdn.test/main.ts" closeImport
  obtain ⟨hiff, -⟩ := hall _ (hspaced .plain) closeImportAnswers _ _ (.refl _) (.refl _)
  exact fun hok => hclash (hiff.1 hok)

end ModuleGraph.Rewrite
