import ModuleGraph.Proofs.Rewrite
/-!
# Answers that come in any order

Every request of a file may be answered by loads of its own, and the requests of a group are
answered in the order in which their loads complete. What counts is only which edits they lead to:
`recordAll` is what becomes of a list of edits, and answering a list of requests is recording their
edits.

Results:
* `recordAll_eq_none_iff`: edits that fit are all recorded exactly if they share no byte;
* `recordAll_eq_some`: if they are not, one of them clashes with another;
* `answerEach_eq`: **main theorem**: answering requests is recording their edits.
-/

namespace ModuleGraph

namespace Editor

/-! ## Recording edits -/

/-- Records the edits one after the other. One that is refused is left out; the problem of the
first of these counts. -/
def recordAll (e : Editor) : List Edit → Editor × Option Problem
  | [] => (e, none)
  | d :: ds =>
    match e.overwrite d.start d.stop d.replacement with
    | .ok e' => recordAll e' ds
    | .error p => ((recordAll e ds).1, some p)

theorem overwrite_of_apart {e : Editor} {d : Edit} (hf : d.Fits e.original.length)
    (ha : ∀ x ∈ e.recorded, x.Apart d) : e.overwrite d.start d.stop d.replacement =
      .ok { e with recorded := e.recorded ++ [d] } :=
  (overwrite_eq_ok_iff ..).2 ⟨hf, ha, rfl⟩

/-- An edit that fits is refused only for one that was recorded before it. -/
theorem overwrite_of_clash {e : Editor} {d : Edit} (hf : d.Fits e.original.length)
    (ha : ¬∀ x ∈ e.recorded, x.Apart d) : ∃ x ∈ e.recorded, ¬x.Apart d ∧
      e.overwrite d.start d.stop d.replacement = .error (.overlap d.start d.stop x) := by
  obtain ⟨hlt, hle⟩ := hf
  unfold overwrite
  rw [if_pos (by omega)]
  simp only [Int.toNat_natCast]
  cases hx : e.recorded.find? (clashes d.start d.stop) with
  | none =>
    refine absurd (fun x hx' => ?_) ha
    have := List.find?_eq_none.1 hx x hx'
    exact (clashes_eq_false_iff _ _ d.replacement x).1 (by simpa using this)
  | some x =>
    refine ⟨x, List.mem_of_find?_eq_some hx, fun hap => ?_, rfl⟩
    have hclash : clashes d.start d.stop x = true := List.find?_some hx
    rw [(clashes_eq_false_iff _ _ d.replacement x).2 hap] at hclash
    cases hclash

variable {e : Editor} {ds : List Edit}

theorem recordAll_cons (e : Editor) (d : Edit) (ds : List Edit) :
    recordAll e (d :: ds) = ((recordAll (recordAll e [d]).1 ds).1,
      (recordAll e [d]).2 <|> (recordAll (recordAll e [d]).1 ds).2) := by
  simp only [recordAll]
  cases e.overwrite d.start d.stop d.replacement <;> rfl

theorem recordAll_append (e : Editor) (ds es : List Edit) :
    recordAll e (ds ++ es) = ((recordAll (recordAll e ds).1 es).1,
      (recordAll e ds).2 <|> (recordAll (recordAll e ds).1 es).2) := by
  induction ds generalizing e with
  | nil => simp [recordAll]
  | cons d ds ih =>
    rw [List.cons_append, recordAll_cons, ih, recordAll_cons e d ds]
    cases (recordAll e [d]).2 <;> simp

/-- Edits that share no byte with one another and with those recorded before are all recorded. -/
theorem recordAll_of_pairwise (hf : ∀ d ∈ ds, d.Fits e.original.length)
    (ha : (e.recorded ++ ds).Pairwise Edit.Apart) :
    recordAll e ds = ({ e with recorded := e.recorded ++ ds }, none) := by
  induction ds generalizing e with
  | nil => simp [recordAll]
  | cons d ds ih =>
    have hd : ∀ x ∈ e.recorded, x.Apart d := fun x hx =>
      (List.pairwise_append.1 ha).2.2 x hx d List.mem_cons_self
    rw [recordAll, overwrite_of_apart (hf d List.mem_cons_self) hd]
    have hrest := ih (e := { e with recorded := e.recorded ++ [d] })
      (fun x hx => hf x (List.mem_cons_of_mem d hx)) (by simpa using ha)
    simpa using hrest

/-- Edits that fit are all recorded exactly if they share no byte. -/
theorem recordAll_eq_none_iff (hf : ∀ d ∈ ds, d.Fits e.original.length)
    (he : e.recorded.Pairwise Edit.Apart) :
    (recordAll e ds).2 = none ↔ (e.recorded ++ ds).Pairwise Edit.Apart := by
  refine ⟨fun h => ?_, fun ha => by rw [recordAll_of_pairwise hf ha]⟩
  induction ds generalizing e with
  | nil => simpa using he
  | cons d ds ih =>
    by_cases ha : ∀ x ∈ e.recorded, x.Apart d
    · have he' : (e.recorded ++ [d]).Pairwise Edit.Apart :=
        List.pairwise_append.2 ⟨he, List.pairwise_singleton _ _, by simpa using ha⟩
      rw [recordAll, overwrite_of_apart (hf d List.mem_cons_self) ha] at h
      have hrest := ih (e := { e with recorded := e.recorded ++ [d] })
        (fun x hx => hf x (List.mem_cons_of_mem d hx)) he' h
      simpa using hrest
    · obtain ⟨x, -, -, hrefused⟩ := overwrite_of_clash (hf d List.mem_cons_self) ha
      rw [recordAll, hrefused] at h
      cases h

/-- If edits that fit are not all recorded, one of them clashes with another. -/
theorem recordAll_eq_some {p : Problem} (hf : ∀ d ∈ ds, d.Fits e.original.length)
    (h : (recordAll e ds).2 = some p) : ∃ x ∈ e.recorded ++ ds, ∃ d ∈ ds,
      ¬x.Apart d ∧ p = .overlap d.start d.stop x := by
  induction ds generalizing e with
  | nil => cases h
  | cons d ds ih =>
    by_cases ha : ∀ x ∈ e.recorded, x.Apart d
    · rw [recordAll, overwrite_of_apart (hf d List.mem_cons_self) ha] at h
      obtain ⟨x, hx, y, hy, hxy⟩ := ih (e := { e with recorded := e.recorded ++ [d] })
        (fun x hx => hf x (List.mem_cons_of_mem d hx)) h
      rw [List.append_assoc] at hx
      exact ⟨x, hx, y, List.mem_cons_of_mem d hy, hxy⟩
    · obtain ⟨x, hx, hclash, hrefused⟩ := overwrite_of_clash (hf d List.mem_cons_self) ha
      rw [recordAll, hrefused] at h
      cases h
      exact ⟨x, List.mem_append_left _ hx, d, List.mem_cons_self, hclash, rfl⟩

end Editor

namespace Rewrite

/-! ## Answers -/

/-- A request with the loads that answer it. -/
structure Asked where
  request : Request
  loads : Loads

/-- A module is answered with a path or with a fault that is reported, and a library always. -/
structure Loads.IsMild (loads : Loads) : Prop where
  module : ∀ url fault, loads.module url = .error fault → fault.isOwn = true
  library : ∀ name, loads.library name = .ok ()

/-- The edit that an answered request of the text from `source` leads to; none if it resolves to no
URL or its module could not be loaded. -/
def Asked.edit? (m : ImportMap) (source : String) (q : Asked) : Option Edit :=
  match q.request with
  | .library _ => none
  | .module t =>
    match m.resolve source t.specifier with
    | .error _ => none
    | .ok url =>
      match q.loads.module url with
      | .error _ => none
      | .ok path => some (edit t path)

/-- The edits that answered requests lead to. -/
def editsOf (m : ImportMap) (source : String) (qs : List Asked) : List Edit :=
  qs.filterMap (Asked.edit? m source)

theorem editsOf_cons (m : ImportMap) (source : String) (q : Asked) (qs : List Asked) :
    editsOf m source (q :: qs) = (q.edit? m source).toList ++ editsOf m source qs := by
  unfold editsOf
  cases h : q.edit? m source with
  | none => rw [List.filterMap_cons_none h]; rfl
  | some d => rw [List.filterMap_cons_some h]; rfl

theorem editsOf_append (m : ImportMap) (source : String) (qs qs' : List Asked) :
    editsOf m source (qs ++ qs') = editsOf m source qs ++ editsOf m source qs' :=
  List.filterMap_append ..

/-- What has happened once one more request is answered. The first fault that escapes counts. -/
def Step.next (m : ImportMap) (source : String) (s : Step) (q : Asked) : Step :=
  let t := answer m q.loads source s.editor q.request
  ⟨t.editor, s.events ++ t.events, s.calls ++ t.calls, s.escaped <|> t.escaped⟩

/-- Requests that are answered one after the other. -/
def answerEach (m : ImportMap) (source : String) (s : Step) (qs : List Asked) : Step :=
  qs.foldl (Step.next m source) s

variable {m : ImportMap} {source : String} {q : Asked} {qs : List Asked} {e : Editor}

/-- Requests that are answered by the same loads. -/
theorem answerEach_map (m : ImportMap) (loads : Loads) (source : String) (s : Step)
    (rs : List Request) :
    answerEach m source s (rs.map (⟨·, loads⟩)) = answerAll m loads source s rs := by
  rw [answerEach, List.foldl_map]
  rfl

theorem answer_of_edit?_eq_none (hq : q.loads.IsMild) (h : q.edit? m source = none) :
    (answer m q.loads source e q.request).editor = e ∧
      (answer m q.loads source e q.request).escaped = none := by
  obtain ⟨r, loads⟩ := q
  unfold Asked.edit? at h
  unfold answer
  cases r with
  | library name =>
    have hloaded : loads.library name = .ok () := hq.library name
    simp [hloaded]
  | module t =>
    simp only at h ⊢
    cases hu : m.resolve source t.specifier with
    | error fault => exact ⟨rfl, rfl⟩
    | ok url =>
      cases hp : loads.module url with
      | error fault =>
        have hown : fault.isOwn = true := hq.module url fault hp
        simp [hp, hown]
      | ok path => simp [hu, hp] at h

/-- The fault of an edit that is refused. -/
def refused (p : Editor.Problem) : Fault := .foreign (.invalidValue p.message)

theorem answer_of_edit?_eq_some {d : Edit} (h : q.edit? m source = some d) :
    (answer m q.loads source e q.request).editor = (e.recordAll [d]).1 ∧
      (answer m q.loads source e q.request).escaped = (e.recordAll [d]).2.map refused := by
  obtain ⟨r, loads⟩ := q
  unfold Asked.edit? at h
  unfold answer
  cases r with
  | library name => cases h
  | module t =>
    simp only at h ⊢
    cases hu : m.resolve source t.specifier with
    | error fault => simp [hu] at h
    | ok url =>
      cases hp : loads.module url with
      | error fault => simp [hu, hp] at h
      | ok path =>
        simp only [hu, hp, Option.some.injEq] at h
        subst h
        simp only [hp, apply, edit, Editor.recordAll]
        cases e.overwrite t.start t.stop (Utf8.encode (written t path)) with
        | error p => exact ⟨rfl, rfl⟩
        | ok e' => exact ⟨rfl, rfl⟩

/-- **main theorem**: answering requests is recording the edits that they lead to. -/
theorem answerEach_eq (m : ImportMap) (source : String) (s : Step)
    (hq : ∀ q ∈ qs, q.loads.IsMild) :
    (answerEach m source s qs).editor =
        (s.editor.recordAll (editsOf m source qs)).1 ∧
      (answerEach m source s qs).escaped =
        (s.escaped <|> (s.editor.recordAll (editsOf m source qs)).2.map refused) := by
  induction qs generalizing s with
  | nil => simp [answerEach, editsOf, Editor.recordAll]
  | cons q qs ih =>
    obtain ⟨heditor, hescaped⟩ :=
      ih (s.next m source q) fun x hx => hq x (List.mem_cons_of_mem q hx)
    rw [answerEach, List.foldl_cons, ← answerEach, heditor, hescaped, editsOf_cons]
    simp only [Step.next]
    cases hd : q.edit? m source with
    | none =>
      obtain ⟨hsame, hclean⟩ :=
        answer_of_edit?_eq_none (e := s.editor) (hq q List.mem_cons_self) hd
      simp [hsame, hclean]
    | some d =>
      obtain ⟨hmore, hfault⟩ := answer_of_edit?_eq_some (e := s.editor) hd
      rw [Option.toList_some, List.singleton_append, Editor.recordAll_cons, hmore, hfault]
      refine ⟨rfl, ?_⟩
      cases s.escaped <;> cases (s.editor.recordAll [d]).2 <;> rfl

end Rewrite

end ModuleGraph
