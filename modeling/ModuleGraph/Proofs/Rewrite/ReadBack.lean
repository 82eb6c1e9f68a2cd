import ModuleGraph.Proofs.Rewrite.Framed
import ModuleGraph.Proofs.Rewrite.Order
/-!
# Reading a rewritten text again

A path is written as it is into a pragma, a reference or a string. It reads back as long as it is
plain: no white space, no quote and no backslash, and it begins neither a reference nor the end of
one. Then the new text has the directives of the old one and the strings of its specifiers, in the
same order, and each of them reads the path that was written, or what it read before.

A path that was decoded may hold any character. The scans of the new text then find other values
than the paths that were written, or no directive at all.

Results:
* `readsBack_of_complete`: **main theorem**: plain paths read back;
* `paths_break_out`: other paths do not.
-/

namespace ModuleGraph.Rewrite

open Directive

/-! ## What the edits make of a range -/

/-- Where a position of a text is found once the edits are made. -/
def shift (ds : List Edit) (bytes : List UInt8) (pos : Nat) : Nat :=
  (Editor.patch ds (bytes.take pos)).length

/-- What the edits make of the bytes of a range. -/
def reading (ds : List Edit) (bytes : List UInt8) (span : Nat × Nat) : List UInt8 :=
  Editor.patchFrom ds span.1 (slice bytes span)

/-- `f'` is in the edited text what `f` is in the text. -/
structure Follows (ds : List Edit) (bytes : List UInt8) (f f' : Directive.Found) : Prop where
  start : f'.start = shift ds bytes f.start
  stop : f'.stop = shift ds bytes f.stop
  value : Utf8.encode f'.value = reading ds bytes (f.start, f.stop)

/-- At this range of the characters stands the content of a string, and reading the string ends
where the content ends. -/
def IsLiteral (cs : List Char) (span : Nat × Nat) (content : List UInt8) : Prop :=
  ∃ u q v w, cs = u ++ q :: (v ++ q :: w) ∧ Directive.IsQuote q ∧
    span = (Utf8.width u + 1, Utf8.width u + 1 + Utf8.width v) ∧ Utf8.encodeChars v = content ∧
    Syntax.string? (q :: (v ++ q :: w)) = some (v.length + 2)

/-- The directives and specifiers of a text are those of the edited text. -/
structure ReadsBack (ds : List Edit) (text : String) (tree : Syntax.Tree) (final : String) :
    Prop where
  /-- The pragma is found where it was found. -/
  pragma : List.Forall₂ (Follows ds (Utf8.encode text)) (pragma? text).toList
    (pragma? final).toList
  /-- The references are found where they were found. -/
  references : ∀ named, List.Forall₂ (Follows ds (Utf8.encode text)) (references named text)
    (references named final)
  /-- Specifiers still stand between quotes. -/
  specifiers : ∀ span ∈ tree.specifierSpans,
    Syntax.Quoted 0 final.toList
      (shift ds (Utf8.encode text) span.1, shift ds (Utf8.encode text) span.2) ∧
    slice (Utf8.encode final)
        (shift ds (Utf8.encode text) span.1, shift ds (Utf8.encode text) span.2) =
      reading ds (Utf8.encode text) span
  /-- A specifier that was written is a string that reads exactly what was written. -/
  literals : ∀ d ∈ ds, (d.start, d.stop) ∈ tree.specifierSpans →
    IsLiteral final.toList
      (shift ds (Utf8.encode text) d.start, shift ds (Utf8.encode text) d.stop) d.replacement
  /-- What is written at a range is read there. -/
  written : ∀ d ∈ ds, reading ds (Utf8.encode text) (d.start, d.stop) = d.replacement
  /-- What is not touched reads as before. -/
  untouched : ∀ span : Nat × Nat, (∀ d ∈ ds, d.stop ≤ span.1 ∨ span.2 ≤ d.start) →
    reading ds (Utf8.encode text) span = slice (Utf8.encode text) span

theorem reading_of_untouched {ds : List Edit} {bytes : List UInt8} {span : Nat × Nat}
    (h : ∀ d ∈ ds, d.stop ≤ span.1 ∨ span.2 ≤ d.start) :
    reading ds bytes span = slice bytes span := by
  have hlen : (slice bytes span).length ≤ span.2 - span.1 := by
    rw [slice, List.length_drop, List.length_take]
    omega
  by_cases hle : span.1 ≤ span.2
  · refine Editor.patchFrom_of_uncovered fun d hd => (h d hd).imp_right fun hstop => ?_
    omega
  · have hnil : slice bytes span = [] := List.eq_nil_of_length_eq_zero (by omega)
    rw [reading, hnil]
    rfl

theorem reading_of_mem {ds : List Edit} {d : Edit} {bytes : List UInt8}
    (hds : Editor.Coherent ds) (hd : d ∈ ds) (hfits : d.Fits bytes.length) :
    reading ds bytes (d.start, d.stop) = d.replacement := by
  obtain ⟨hlt, hle⟩ := hfits
  have hlen : (slice bytes (d.start, d.stop)).length = d.stop - d.start := by
    rw [slice, List.length_drop, List.length_take, Nat.min_eq_left hle]
  refine Editor.patchFrom_of_mem hds hd (List.ne_nil_of_length_pos ?_) ?_
  · omega
  · omega

theorem slice_encodeChars (a v b : List Char) :
    slice (Utf8.encodeChars (a ++ (v ++ b))) (Utf8.width a, Utf8.width a + Utf8.width v) =
      Utf8.encodeChars v :=
  Utf8.drop_take_encodeChars a v b

section

variable {ds : List Edit}

/-- A position between parts is found between the same parts. -/
theorem shift_before {us vs : List Part} (h : Renders ds 0 (us ++ vs)) :
    shift ds (Utf8.encodeChars (before (us ++ vs))) (Utf8.width (before us)) =
      Utf8.width (after us) := by
  have hus := (renders_append.1 h).1.patchFrom_before
  rw [shift, before_append, Utf8.take_encodeChars, Editor.patch, hus, Utf8.length_encodeChars]

/-- Parts read as their new side. -/
theorem reading_before {us vs ws : List Part} (h : Renders ds 0 (us ++ (vs ++ ws))) :
    reading ds (Utf8.encodeChars (before (us ++ (vs ++ ws))))
        (Utf8.width (before us), Utf8.width (before us) + Utf8.width (before vs)) =
      Utf8.encodeChars (after vs) := by
  have hvs := (renders_append.1 (renders_append.1 h).2).1.patchFrom_before
  rw [Nat.zero_add] at hvs
  rw [reading, before_append, before_append, slice_encodeChars]
  exact hvs

end

theorem follows_of_alike {ds : List Edit} {ps : List Part} (h : Renders ds 0 ps)
    {f f' : Directive.Found}
    (hf : Alike 0 0 ps f f') : Follows ds (Utf8.encodeChars (before ps)) f f' := by
  obtain ⟨us, vs, ws, rfl, rfl, rfl⟩ := hf
  simp only [Nat.zero_add]
  have h' : Renders ds 0 ((us ++ vs) ++ ws) := by rwa [List.append_assoc]
  have hstop := shift_before h'
  simp only [before_append, after_append, Utf8.width_append, List.append_assoc] at hstop
  refine ⟨(shift_before h).symm, ?_, ?_⟩
  · simp only [before_append]
    exact hstop.symm
  · rw [reading_before h, Utf8.encode_eq, String.toList_ofList]

theorem width_quote {q : Char} (h : Directive.IsQuote q) : Utf8.width [q] = 1 := by
  rcases h with rfl | rfl <;> decide

/-- A string of the old text is one of the new text, in the same place. -/
theorem exists_quoted {ds : List Edit} {ps : List Part} (hps : Settled ps) (h : Renders ds 0 ps)
    {span : Nat × Nat} (hspan : Syntax.Quoted 0 (before ps) span) :
    ∃ u q v w, after ps = u ++ q :: (v ++ q :: w) ∧ Directive.IsQuote q ∧
      shift ds (Utf8.encodeChars (before ps)) span.1 = Utf8.width u + 1 ∧
      shift ds (Utf8.encodeChars (before ps)) span.2 = Utf8.width u + 1 + Utf8.width v ∧
      reading ds (Utf8.encodeChars (before ps)) span = Utf8.encodeChars v := by
  obtain ⟨u, q, v, w, hcs, hq, rfl⟩ := hspan
  obtain ⟨us, r, rfl, rfl, hr⟩ := exists_split hq hps.isPlain hcs
  have hplain : ∀ x ∈ r, x.IsPlain := fun x hx => hps.isPlain x (by simp [hx])
  obtain ⟨vs, ws, rfl, rfl, rfl⟩ := exists_split hq hplain hr
  have hone := width_quote hq
  -- The parts up to the content, and up to its end.
  have hfrom : us ++ .kept q :: (vs ++ .kept q :: ws) =
      (us ++ [.kept q]) ++ (vs ++ .kept q :: ws) := by simp
  have hto : us ++ .kept q :: (vs ++ .kept q :: ws) =
      (us ++ [.kept q] ++ vs) ++ .kept q :: ws := by simp
  have hstart := shift_before (hfrom ▸ h)
  have hstop := shift_before (hto ▸ h)
  have hread := reading_before (hfrom ▸ h)
  rw [← hfrom] at hstart hread
  rw [← hto] at hstop
  simp only [before_append, before_kept, before_nil, after_append, after_kept, after_nil,
    Utf8.width_append, hone, Nat.zero_add] at hstart hstop hread ⊢
  exact ⟨after us, q, after vs, after ws, rfl, hq, hstart, hstop, hread⟩

/-! ## The frames of what is written -/

/-- The bytes are plain characters. -/
def IsPlainText (bytes : List UInt8) : Prop := ∃ s, Utf8.decode bytes = .ok s ∧ IsPlain s.toList

instance (bytes : List UInt8) : Decidable (IsPlainText bytes) :=
  match h : Utf8.decode bytes with
  | .ok s => decidable_of_iff (IsPlain s.toList) (by simp [IsPlainText, h])
  | .error _ => isFalse (by simp [IsPlainText, h])

theorem IsPlainText.exists_chars {bytes : List UInt8} (h : IsPlainText bytes) :
    ∃ cs, bytes = Utf8.encodeChars cs ∧ IsPlain cs := by
  obtain ⟨s, hs, hplain⟩ := h
  exact ⟨s.toList, (Utf8.decode_eq_ok_iff _ s).1 hs, hplain⟩

theorem isPlain_of_isPlainText {cs : List Char} (h : IsPlainText (Utf8.encodeChars cs)) :
    IsPlain cs := by
  obtain ⟨s, hs, hplain⟩ := h
  have hcs : Utf8.encodeChars cs = Utf8.encode (.ofList cs) := by
    rw [Utf8.encode_eq, String.toList_ofList]
  have hsame := Utf8.encode_injective (hcs.symm.trans ((Utf8.decode_eq_ok_iff _ s).1 hs))
  rwa [← hsame, String.toList_ofList] at hplain

/-- The edit puts plain characters in the place of plain ones. -/
def IsPlainEdit (bytes : List UInt8) (d : Edit) : Prop :=
  IsPlainText (slice bytes (d.start, d.stop)) ∧ IsPlainText d.replacement

instance (bytes : List UInt8) (d : Edit) : Decidable (IsPlainEdit bytes d) :=
  inferInstanceAs (Decidable (IsPlainText _ ∧ IsPlainText _))

section

variable {text : String} {d : Edit} (hplain : IsPlainEdit (Utf8.encode text) d)

include hplain

theorem fills_of_frame {k : Bool} {u lead v w : List Char}
    (htext : text.toList = u ++ (lead ++ (v ++ w))) (hframe : Frame k lead w)
    (hstart : d.start = Utf8.width (u ++ lead))
    (hstop : d.stop = Utf8.width (u ++ lead) + Utf8.width v) : Fills k 0 text.toList d := by
  obtain ⟨hold, hnew⟩ := hplain
  obtain ⟨n, hn, hnplain⟩ := hnew.exists_chars
  rw [Utf8.encode_eq, htext, ← List.append_assoc, hstart, hstop, slice_encodeChars] at hold
  refine ⟨u, lead, v, w, n, htext, hframe, isPlain_of_isPlainText hold, hnplain, ?_, ?_, hn⟩
  · rw [hstart, Nat.zero_add]
  · rw [hstop, Nat.zero_add, ← List.append_assoc, Utf8.width_append _ v]

theorem fills_of_hasPragma {f : Directive.Found} (hf : HasPragma 0 text.toList f)
    (hstart : d.start = f.start) (hstop : d.stop = f.stop) : Fills true 0 text.toList d := by
  obtain ⟨u, b, v, rest, cs, htext, hp, rfl⟩ := hf
  rw [hp.eq, ← List.append_assoc pragmaWord] at htext
  simp only [Nat.zero_add] at hstart hstop
  exact fills_of_frame hplain htext (.value hp.blank_ne hp.blank hp.ends) hstart hstop

theorem fills_of_hasReference {named : Attribute} {f : Directive.Found}
    (hf : HasReference named 0 text.toList f) (hstart : d.start = f.start)
    (hstop : d.stop = f.stop) : Fills false 0 text.toList d := by
  obtain ⟨u, lead, v, b, rest, cs, htext, hr, rfl⟩ := hf
  obtain ⟨b₁, b₂, b₃, hlead⟩ := hr.lead
  obtain ⟨w, rfl, -⟩ := hlead.exists_run
  rw [hr.eq, List.append_assoc w, ← List.append_assoc u] at htext
  rw [Nat.zero_add, ← List.append_assoc] at hstart hstop
  exact fills_of_frame hplain htext (.quoted (.inl rfl) (.inl rfl)) hstart hstop

theorem fills_of_quoted {span : Nat × Nat} (h : Syntax.Quoted 0 text.toList span)
    (hstart : d.start = span.1) (hstop : d.stop = span.2) : Fills false 0 text.toList d := by
  obtain ⟨u, q, v, w, htext, hq, rfl⟩ := h
  have hone := width_quote hq
  refine fills_of_frame hplain htext (.quoted hq hq) ?_ ?_
  · rw [hstart, Utf8.width_append, hone, Nat.zero_add]
  · rw [hstop, Utf8.width_append, hone, Nat.zero_add]

end

/-! ## Reading again -/

/-- A plain content is read to its end. -/
theorem string?_of_isPlain {q : Char} {v : List Char} (hq : Directive.IsQuote q) (hv : IsPlain v)
    (w : List Char) : Syntax.string? (q :: (v ++ q :: w)) = some (v.length + 2) := by
  have hinside : ∀ c ∈ v, c ≠ q ∧ c ≠ '\\' ∧ c ≠ '\n' ∧ c ≠ '\r' := by
    intro c hc
    obtain ⟨hblank, -, -, hbackslash⟩ := hv.of_mem hc
    refine ⟨fun heq => hv.not_isQuote hc (heq ▸ hq), hbackslash, ?_, ?_⟩
    · rintro rfl
      cases hblank
    · rintro rfl
      cases hblank
  rcases hq with rfl | rfl
  · rw [Syntax.string?, Syntax.stringTail_append w (by decide) hinside, Option.map_some]
  · rw [Syntax.string?, Syntax.stringTail_append w (by decide) hinside, Option.map_some]

section

variable {m : ImportMap} {source text : String} {tree : Syntax.Tree} (a : Answers text tree)

/-- Every edit stands in a frame; the one of the pragma behind its word, the others between
quotes. -/
theorem fills_of_mem_edits
    (hquoted : ∀ span ∈ tree.specifierSpans, Syntax.Quoted 0 text.toList span) {d : Edit}
    (hd : d ∈ a.edits m source) (hplain : IsPlainEdit (Utf8.encode text) d) :
    Fills (decide (d ∈ editsOf m source a.pragma)) 0 text.toList d := by
  by_cases hpragma : d ∈ editsOf m source a.pragma
  · rw [decide_eq_true hpragma]
    obtain ⟨t, path, ht, rfl⟩ := exists_target_of_mem_editsOf hpragma
    rw [a.pragma_eq] at ht
    obtain ⟨f, hf, heq⟩ := List.mem_map.1 ht
    cases heq
    exact fills_of_hasPragma hplain (hasPragma_of_pragma? (Option.mem_toList.1 hf)) rfl rfl
  · rw [decide_eq_false hpragma]
    rw [a.edits_eq, List.mem_append, List.mem_append] at hd
    rcases hd.resolve_left hpragma with hd | hd
    · obtain ⟨t, path, ht, rfl⟩ := exists_target_of_mem_editsOf hd
      rw [a.paths_eq] at ht
      obtain ⟨f, hf, heq⟩ := List.mem_map.1 ht
      cases heq
      exact fills_of_hasReference hplain (hasReference_of_references hf) rfl rfl
    · obtain ⟨t, path, ht, rfl⟩ := exists_target_of_mem_editsOf hd
      rw [a.specifiers_map_eq] at ht
      obtain ⟨span, hspan, heq⟩ := List.mem_map.1 ht
      cases heq
      exact fills_of_quoted hplain (hquoted span hspan) rfl rfl

/-- At most one edit is of the value of the pragma. -/
theorem eq_of_mem_pragma {d d' : Edit} (hd : d ∈ editsOf m source a.pragma)
    (hd' : d' ∈ editsOf m source a.pragma) : d = d' := by
  have hlen : (editsOf m source a.pragma).length ≤ 1 := by
    have hmap := congrArg List.length a.pragma_eq
    have hfilter := List.length_filterMap_le (Asked.edit? m source) a.pragma
    rw [List.length_map, List.length_map] at hmap
    have hone : (pragma? text).toList.length ≤ 1 := by cases pragma? text <;> simp
    exact hfilter.trans (hmap ▸ hone)
  rcases hes : editsOf m source a.pragma with _ | ⟨e, _ | ⟨e', es⟩⟩
  · rw [hes] at hd
    cases hd
  · rw [hes, List.mem_singleton] at hd hd'
    rw [hd, hd']
  · rw [hes] at hlen
    simp at hlen

/-- The edits of a file that could be rewritten read back, if its specifiers stand between
quotes. -/
theorem readsBack_of_quoted
    (hquoted : ∀ span ∈ tree.specifierSpans, Syntax.Quoted 0 text.toList span)
    {ds ss : List Asked} (hds : ds.Perm a.directives) (hss : ss.Perm a.specifiers) {final : String}
    (hok : complete m source text ds ss = .ok final)
    (hplain : ∀ d ∈ a.edits m source, IsPlainEdit (Utf8.encode text) d) :
    ReadsBack (a.edits m source) text tree final := by
  have hinside := inside_of_delimited fun span hspan => delimited_of_quoted (hquoted span hspan)
  obtain ⟨hap, hpatched⟩ := patched_of_complete hinside hds hss hok
  have hco := Editor.coherent_of_pairwise hap
  obtain ⟨ps, hps, htext, hrenders⟩ := exists_parts
    (fun d => decide (d ∈ editsOf m source a.pragma)) hco
    (fun d _ d' _ hv => eq_of_mem_pragma a (of_decide_eq_true hv.1) (of_decide_eq_true hv.2))
    fun d hd => .inr (fills_of_mem_edits a hquoted hd (hplain d hd))
  -- The new text is the new side of the parts.
  have hbytes : Utf8.encode text = Utf8.encodeChars (before ps) := by
    rw [htext, Utf8.encode_eq]
  have hfinal : final = .ofList (after ps) := by
    refine Utf8.encode_injective ?_
    rw [hpatched, hbytes, Editor.patch, hrenders.patchFrom_before, Utf8.encode_eq,
      String.toList_ofList]
  have hwritten : ∀ d ∈ a.edits m source,
      reading (a.edits m source) (Utf8.encode text) (d.start, d.stop) = d.replacement :=
    fun d hd => reading_of_mem hco hd (fits_of_mem_edits hinside hd).1
  have hfollows : ∀ f f', Alike 0 0 ps f f' →
      Follows (a.edits m source) (Utf8.encode text) f f' := fun f f' hf =>
    hbytes ▸ follows_of_alike hrenders hf
  have hstrings : ∀ span ∈ tree.specifierSpans, _ := fun span hspan =>
    exists_quoted hps hrenders (htext ▸ hquoted span hspan)
  simp only [← hbytes] at hstrings
  subst hfinal
  refine ⟨?_, fun named => ?_, fun span hspan => ?_, fun d hd hspan => ?_, hwritten,
    fun span => reading_of_untouched⟩
  · have hpragma := hps.pragma 0 0
    rw [htext] at hpragma
    rw [pragma?, pragma?, String.toList_ofList]
    exact hpragma.imp hfollows
  · have hreferences := hps.references named true 0 0
    rw [htext] at hreferences
    rw [Directive.references, Directive.references, String.toList_ofList]
    exact hreferences.imp hfollows
  · obtain ⟨u, q, v, w, hafter, hq, hstart, hstop, hread⟩ := hstrings span hspan
    rw [hstart, hstop, hread, Utf8.encode_eq, String.toList_ofList, hafter]
    refine ⟨⟨u, q, v, w, rfl, hq, by rw [Nat.zero_add]⟩, ?_⟩
    have hslice := slice_encodeChars (u ++ [q]) v (q :: w)
    rwa [Utf8.width_append, width_quote hq, List.append_assoc, List.singleton_append] at hslice
  · obtain ⟨u, q, v, w, hafter, hq, hstart, hstop, hread⟩ := hstrings _ hspan
    have hv : Utf8.encodeChars v = d.replacement := hread.symm.trans (hwritten d hd)
    have hvplain : IsPlain v := isPlain_of_isPlainText (hv ▸ (hplain d hd).2)
    simp only at hstart hstop
    rw [hstart, hstop, String.toList_ofList, hafter]
    exact ⟨u, q, v, w, rfl, hq, rfl, hv, string?_of_isPlain hq hvplain w⟩

end

/-- **main theorem**: if every path that is written, and what it is written over, is plain, the new
text of a file has the directives and the specifiers of the old one. Each one that was written reads
exactly the path, and each one that is not touched reads as before. All that counts of the tree is
that its specifiers stand between quotes, as those of a parsed script do. -/
theorem readsBack_of_complete (m : ImportMap) (source text : String) :
    (∀ dialect, ∀ span ∈ (Syntax.parse dialect text).specifierSpans,
      Syntax.Quoted 0 text.toList span) ∧
    ∀ tree : Syntax.Tree, (∀ span ∈ tree.specifierSpans, Syntax.Quoted 0 text.toList span) →
      ∀ (a : Answers text tree) (ds ss : List Asked) (final : String),
        ds.Perm a.directives → ss.Perm a.specifiers →
        complete m source text ds ss = .ok final →
        (∀ d ∈ a.edits m source, IsPlainEdit (Utf8.encode text) d) →
        ReadsBack (a.edits m source) text tree final :=
  ⟨fun _ _ => Syntax.quoted_of_mem_specifierSpans,
    fun _ hquoted a _ _ _ hds hss hok hplain => readsBack_of_quoted a hquoted hds hss hok hplain⟩

/-- A text with a pragma, a reference and specifiers, one of which names a module that is gone. -/
def nearText : String :=
  "/** @jsxImportSource ./jsx */\n/// <reference path=\"./ä.ts\" />\n" ++
    "import './b.d.ts'; // ü\nimport './gone.ts';\n"

/-- The answers to what the text asks for. -/
def nearTextAnswers : Answers nearText (Syntax.parse .plain nearText) :=
  .uniform (fun _ => delimited_of_parse) isMild_allButGone

/-- The new text, with a path for each module that was loaded. -/
def nearTextWritten : String :=
  "/** @jsxImportSource /v/é.d.ts */\n/// <reference path=\"/v/é.d.ts\" />\n" ++
    "import '/v/é.js'; // ü\nimport './gone.ts';\n"

/-- The paths of the text read back. -/
theorem readsBack_of_complete_nearText :
    ReadsBack (nearTextAnswers.edits .empty "file:///p/main.ts") nearText
      (Syntax.parse .plain nearText) nearTextWritten := by
  have hap : (nearTextAnswers.edits .empty "file:///p/main.ts").Pairwise Edit.Apart := by
    decide +kernel
  have hbytes : Utf8.encode nearTextWritten = Editor.patch
      (nearTextAnswers.edits .empty "file:///p/main.ts") (Utf8.encode nearText) := by
    decide +kernel
  have hok : complete .empty "file:///p/main.ts" nearText nearTextAnswers.directives
      nearTextAnswers.specifiers = .ok nearTextWritten :=
    complete_of_pairwise (spaced_parse .plain nearText).inside (.refl _) (.refl _) hap hbytes
  have hplain : ∀ d ∈ nearTextAnswers.edits .empty "file:///p/main.ts",
      IsPlainEdit (Utf8.encode nearText) d := by
    decide +kernel
  obtain ⟨hquoted, hall⟩ := readsBack_of_complete .empty "file:///p/main.ts" nearText
  exact hall _ (hquoted .plain) nearTextAnswers _ _ _ (.refl _) (.refl _) hok hplain

/-- Every module is found under its virtual path. -/
def virtualLoads : Loads := ⟨virtualPath, fun _ => .ok ()⟩

/-- A path that holds a decoded character may end the place that it is written to: a pragma whose
path holds a space reads another path, a reference whose path holds a quote is none any more, and a
specifier whose path holds a quote reads another path. -/
theorem paths_break_out :
    (virtualPath "file:///p/my%20lib/jsx-runtime" = .ok "/p/my lib/jsx-runtime" ∧
      (run .empty virtualLoads "file:///p/main.ts" "/p/main.ts"
          "/** @jsxImportSource ./my%20lib */\n").1 =
        .ok "/** @jsxImportSource /p/my lib/jsx-runtime */\n" ∧
      (pragma? "/** @jsxImportSource /p/my lib/jsx-runtime */\n").map Directive.Found.value =
        some "/p/my") ∧
    (virtualPath "file:///p/a%22b.ts" = .ok "/p/a\"b.ts" ∧
      (run .empty virtualLoads "file:///p/main.ts" "/p/main.ts"
          "/// <reference path=\"./a%22b.ts\" />\n").1 =
        .ok "/// <reference path=\"/p/a\"b.ts\" />\n" ∧
      references .path "/// <reference path=\"/p/a\"b.ts\" />\n" = []) ∧
    (run .empty virtualLoads "file:///p/main.ts" "/p/main.ts" "import \"./a%22b.ts\";\n").1 =
        .ok "import \"/p/a\"b.ts\";\n" ∧
      (Syntax.parse (.ofFileName "/p/main.ts") "import \"/p/a\"b.ts\";\n").specifierSpans =
        [(8, 12)] ∧
      slice (Utf8.encode "import \"/p/a\"b.ts\";\n") (8, 12) = Utf8.encode "/p/a" := by
  refine ⟨⟨?_, ?_, ?_⟩, ⟨?_, ?_, ?_⟩, ?_, ?_, ?_⟩
  · decide +kernel
  · decide +kernel
  · decide +kernel
  · decide +kernel
  · decide +kernel
  · decide +kernel
  · decide +kernel
  · decide +kernel
  · decide +kernel

end ModuleGraph.Rewrite
