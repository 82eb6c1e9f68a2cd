import ModuleGraph.Proofs.Action
import ModuleGraph.Proofs.Directive
import ModuleGraph.Proofs.Editor
import ModuleGraph.Rewrite
import ModuleGraph.Library
/-!
# What a file asks for, and what is written into it

`requests` lists everything that a text asks for, `planned` the edit that a request leads to once
its module has a path. `Plan` says that all these edits can be made at once. A file that is
rewritten with loads that answer at once shows that there is a plan, whatever the order in which the
edits come; loads that run side by side then come to the same text.

Results:
* `apply_eq_ok_iff`: when a path can be written into a text;
* `isText_slice_of_requests`: every stretch that names a module is a text;
* `plan_of_run`: **main theorem**: a file that can be rewritten at once has a plan, and its text is
  the patched text.
-/

namespace ModuleGraph.Rewrite

/-- The edit that writes a path in the place of a target. -/
def edit (t : Target) (path : String) : Edit := ⟨t.start, t.stop, Utf8.encode (written t path)⟩

/-- A path is written exactly if its range is not empty, lies inside the text and shares no byte
with that of a path written before. -/
theorem apply_eq_ok_iff (e e' : Editor) (t : Target) (path : String) :
    apply e t path = .ok e' ↔ (edit t path).Fits e.original.length ∧
      (∀ d ∈ e.recorded, d.Apart (edit t path)) ∧
      e' = { e with recorded := e.recorded ++ [edit t path] } := by
  rw [apply, Action.mapError_eq_ok_iff, Editor.overwrite_eq_ok_iff]
  rfl

theorem sound_of_apply {e e' : Editor} {t : Target} {path : String} (he : e.Sound)
    (h : apply e t path = .ok e') : e'.Sound :=
  he.overwrite (Action.mapError_eq_ok_iff.1 h)

/-! ## Requests -/

/-- Everything that a text asks for: its directives, then its specifiers, if they can be read. -/
def requests (fileName text : String) : Except Utf8.Malformed (List Request) :=
  (specifiers (Utf8.encode text) (Syntax.parse (.ofFileName fileName) text)).map
    (directives text ++ ·)

theorem requests_eq_ok_iff (fileName text : String) (rs : List Request) :
    requests fileName text = .ok rs ↔
      ∃ ss, specifiers (Utf8.encode text) (Syntax.parse (.ofFileName fileName) text) = .ok ss ∧
        rs = directives text ++ ss := by
  unfold requests
  cases specifiers (Utf8.encode text) (Syntax.parse (.ofFileName fileName) text) with
  | error m => simp [Except.map]
  | ok ss => simp [Except.map, eq_comm]

theorem exists_of_mapM_eq_ok {ε α β : Type} {f : α → Except ε β} {l : List α} {rs : List β} {r : β}
    (h : l.mapM f = .ok rs) (hr : r ∈ rs) : ∃ a ∈ l, f a = .ok r := by
  induction l generalizing rs with
  | nil =>
    cases h
    cases hr
  | cons a l ih =>
    rw [List.mapM_cons] at h
    cases ha : f a with
    | error e =>
      rw [ha] at h
      cases h
    | ok b =>
      cases hl : l.mapM f with
      | error e =>
        rw [ha, hl] at h
        cases h
      | ok bs =>
        rw [ha, hl] at h
        cases h
        rcases List.mem_cons.1 hr with rfl | hr
        · exact ⟨a, List.mem_cons_self, ha⟩
        · obtain ⟨a', ha', hf⟩ := ih hl hr
          exact ⟨a', List.mem_cons_of_mem a ha', hf⟩

theorem isText_of_specifiers {bytes : List UInt8} {tree : Syntax.Tree} {rs : List Request}
    {t : Target} (h : specifiers bytes tree = .ok rs) (ht : .module t ∈ rs) :
    Utf8.IsText (slice bytes (t.start, t.stop)) := by
  obtain ⟨span, -, hspan⟩ := exists_of_mapM_eq_ok h ht
  unfold ofSpan at hspan
  cases hd : Utf8.decode (slice bytes span) with
  | error m =>
    rw [hd] at hspan
    cases hspan
  | ok value =>
    rw [hd] at hspan
    cases hspan
    exact (Utf8.isText_iff_decode _).2 ⟨value, hd⟩

/-- Every stretch that names a module is a text. -/
theorem isText_slice_of_requests {fileName text : String} {rs : List Request} {t : Target}
    (h : requests fileName text = .ok rs) (ht : .module t ∈ rs) :
    Utf8.IsText (slice (Utf8.encode text) (t.start, t.stop)) := by
  obtain ⟨ss, hss, rfl⟩ := (requests_eq_ok_iff ..).1 h
  rcases List.mem_append.1 ht with hd | hs
  · simp only [directives, List.mem_append, List.mem_map, Option.mem_toList, Request.module.injEq,
      reduceCtorEq, and_false, exists_false, or_false] at hd
    rcases hd with ⟨f, hf, rfl⟩ | ⟨f, hf, rfl⟩
    · exact Directive.isText_of_stands (Directive.stands_of_pragma? hf)
    · exact Directive.isText_of_stands (Directive.stands_of_references hf)
  · exact isText_of_specifiers hss hs

/-! ## Planned edits -/

/-- The edit that a request of the text from `source` leads to once its module has a path; none if
it resolves to no URL or the URL has no path. -/
def planned (m : ImportMap) (source : String) : Request → Option Edit
  | .library _ => none
  | .module t =>
    match m.resolve source t.specifier with
    | .error _ => none
    | .ok url =>
      match virtualPath url with
      | .error _ => none
      | .ok path => some (edit t path)

/-- The URLs that a library may be fetched from can be made. -/
def HasUrls (libraryDir bundledDir name : String) : Prop :=
  ∃ url fallback, Library.primaryUrl libraryDir name = .ok url ∧
    Library.fallbackUrl bundledDir name = .ok fallback

/-- The edits of a list of requests can all be made in a text. -/
structure Plan (m : ImportMap) (libraryDir bundledDir source text : String) (rs : List Request) :
    Prop where
  libraries : ∀ name, .library name ∈ rs → HasUrls libraryDir bundledDir name
  sound : Editor.Sound ⟨Utf8.encode text, rs.filterMap (planned m source)⟩

/-- Loads that answer at once, as they do where every module is loaded: a module is answered with
its path, and a library with nothing. -/
def atOnce (libraryDir bundledDir : String) : Loads where
  module url := (virtualPath url).mapError (.module url)
  library name :=
    match Library.primaryUrl libraryDir name, Library.fallbackUrl bundledDir name with
    | .ok _, .ok _ => .ok ()
    | .error p, _ | _, .error p => .error (.foreign (.ofUrl p))

/-- The step has met no fault and its editor is that of an earlier one with more edits. -/
structure Went (e : Editor) (more : List Edit) (s : Step) : Prop where
  clean : s.escaped = none
  editor : s.editor = { e with recorded := e.recorded ++ more }

theorem answer_went {m : ImportMap} {libraryDir bundledDir source : String} {e : Editor}
    {r : Request} (h : (answer m (atOnce libraryDir bundledDir) source e r).escaped = none)
    (he : e.Sound) :
    Went e (planned m source r).toList (answer m (atOnce libraryDir bundledDir) source e r) ∧
      (answer m (atOnce libraryDir bundledDir) source e r).editor.Sound ∧
      ∀ name, r = .library name → HasUrls libraryDir bundledDir name := by
  have hsame : ∀ (events : List Event) (calls : List Call), Went e [] ⟨e, events, calls, none⟩ :=
    fun _ _ => ⟨rfl, by simp⟩
  cases r with
  | library name =>
    simp only [answer, atOnce] at h ⊢
    cases hu : Library.primaryUrl libraryDir name with
    | error p => simp [hu] at h
    | ok url =>
      cases hf : Library.fallbackUrl bundledDir name with
      | error p => simp [hu, hf] at h
      | ok fallback =>
        refine ⟨hsame _ _, he, ?_⟩
        rintro _ ⟨⟩
        exact ⟨url, fallback, hu, hf⟩
  | module t =>
    simp only [answer, atOnce, planned] at h ⊢
    cases hu : m.resolve source t.specifier with
    | error f => exact ⟨hsame _ _, he, by simp⟩
    | ok url =>
      cases hp : virtualPath url with
      | error f =>
        simp only [hu, hp, Action.mapError_error, Fault.isOwn, if_true] at h ⊢
        exact ⟨hsame _ _, he, by simp⟩
      | ok path =>
        cases ha : apply e t path with
        | error f => simp [hu, hp, ha, Action.mapError_ok] at h
        | ok e' =>
          simp only [hu, hp, ha, Action.mapError_ok] at h ⊢
          refine ⟨⟨rfl, ?_⟩, sound_of_apply he ha, by simp⟩
          obtain ⟨-, -, rfl⟩ := (apply_eq_ok_iff ..).1 ha
          rfl

theorem orElse_eq_none_iff {α : Type} {x y : Option α} :
    (x <|> y) = none ↔ x = none ∧ y = none := by
  cases x <;> simp

theorem answerAll_cons (m : ImportMap) (loads : Loads) (source : String) (s : Step) (r : Request)
    (rs : List Request) : answerAll m loads source s (r :: rs) =
      let t := answer m loads source s.editor r
      answerAll m loads source
        ⟨t.editor, s.events ++ t.events, s.calls ++ t.calls, s.escaped <|> t.escaped⟩ rs :=
  rfl

/-- A fault that escapes is kept. -/
theorem escaped_of_answerAll {m : ImportMap} {loads : Loads} {source : String} {s : Step}
    {rs : List Request} (h : (answerAll m loads source s rs).escaped = none) :
    s.escaped = none := by
  induction rs generalizing s with
  | nil => exact h
  | cons r rs ih =>
    rw [answerAll_cons] at h
    exact (orElse_eq_none_iff.1 (ih h)).1

theorem answerAll_went {m : ImportMap} {libraryDir bundledDir source : String} {s : Step}
    {rs : List Request}
    (h : (answerAll m (atOnce libraryDir bundledDir) source s rs).escaped = none)
    (he : s.editor.Sound) :
    Went s.editor (rs.filterMap (planned m source))
        (answerAll m (atOnce libraryDir bundledDir) source s rs) ∧
      (answerAll m (atOnce libraryDir bundledDir) source s rs).editor.Sound ∧
      ∀ name, .library name ∈ rs → HasUrls libraryDir bundledDir name := by
  induction rs generalizing s with
  | nil => exact ⟨⟨h, by simp [answerAll]⟩, he, by simp⟩
  | cons r rs ih =>
    rw [answerAll_cons] at h ⊢
    obtain ⟨-, hr⟩ := orElse_eq_none_iff.1 (escaped_of_answerAll h)
    obtain ⟨hwent, hsound, hlib⟩ := answer_went hr he
    obtain ⟨hwent', hsound', hlib'⟩ := ih h hsound
    refine ⟨⟨hwent'.clean, ?_⟩, hsound', fun name hname => ?_⟩
    · refine hwent'.editor.trans ?_
      simp only [hwent.editor]
      rw [List.append_assoc]
      cases hp : planned m source r <;> simp [hp]
    · rcases List.mem_cons.1 hname with hname | hname
      · exact hlib name hname.symm
      · exact hlib' name hname

/-- **main theorem**: a file that can be rewritten with loads that answer at once has a plan, and
its text is the patched text. -/
theorem plan_of_run {m : ImportMap} {libraryDir bundledDir source fileName text final : String}
    (h : (run m (atOnce libraryDir bundledDir) source fileName text).1 = .ok final) :
    ∃ rs, requests fileName text = .ok rs ∧ Plan m libraryDir bundledDir source text rs ∧
      Utf8.encode final =
        Editor.patch (rs.filterMap (planned m source)) (Utf8.encode text) := by
  unfold run at h
  simp only at h
  generalize hs₁ : answerAll m (atOnce libraryDir bundledDir) source
    ⟨.ofBytes (Utf8.encode text), syntaxEvents fileName (Syntax.parse (.ofFileName fileName) text),
      [], none⟩ (directives text) = s₁ at h
  cases hc₁ : s₁.escaped with
  | some f => simp [hc₁] at h
  | none =>
    cases hss : specifiers (Utf8.encode text) (Syntax.parse (.ofFileName fileName) text) with
    | error p => simp [hc₁, hss] at h
    | ok ss =>
      simp only [hc₁, hss] at h
      generalize hs₂ : answerAll m (atOnce libraryDir bundledDir) source s₁ ss = s₂ at h
      cases hc₂ : s₂.escaped with
      | some f => simp [hc₂] at h
      | none =>
        simp only [hc₂, Action.mapError_eq_ok_iff, Editor.toText] at h
        obtain ⟨hwent₁, hsound₁, hlib₁⟩ :=
          answerAll_went (by rw [hs₁]; exact hc₁) (Editor.sound_ofBytes _)
        obtain ⟨hwent₂, hsound₂, hlib₂⟩ :=
          answerAll_went (by rw [hs₂]; exact hc₂) (hs₁ ▸ hsound₁)
        have heditor : s₂.editor = ⟨Utf8.encode text,
            (directives text ++ ss).filterMap (planned m source)⟩ := by
          rw [← hs₂, hwent₂.editor, ← hs₁, hwent₁.editor, List.filterMap_append]
          rfl
        rw [hs₂, heditor] at hsound₂
        refine ⟨directives text ++ ss, (requests_eq_ok_iff ..).2 ⟨ss, hss, rfl⟩, ⟨?_, hsound₂⟩, ?_⟩
        · intro name hname
          rcases List.mem_append.1 hname with hname | hname
          · exact hlib₁ name hname
          · exact hlib₂ name hname
        · rw [heditor] at h
          rw [← (Utf8.decode_eq_ok_iff _ _).1 h, hsound₂.toBytes_eq_patch]

end ModuleGraph.Rewrite
