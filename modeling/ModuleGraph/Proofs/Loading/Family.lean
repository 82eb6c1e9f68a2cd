import ModuleGraph.Proofs.Loading.Draft
/-!
# Drafts and the tasks that they wait for

The invariant `Family` ties the edits in a draft to the tasks that have ended, and the text that
fills a path to all of them.

Results:
* `Reached.family`: **main theorem**: the invariant holds in every state that can be reached;
* `Made`: a path is filled with the fetched text in which exactly the edits of the tasks that have
  a path are made.
-/

namespace ModuleGraph.Loading

variable {σ : Type}

namespace State

/-- Where a task comes from: it was there, or the task that advances has asked for it. -/
theorem Turn.origin {c : Setting σ} {s s' : State σ} {i : Nat} {ds : List Deed}
    (h : Turn c s i ds s') {j : Nat} {u : Task} (hu : s'.tasks[j]? = some u) :
    (∃ t, s.tasks[j]? = some t ∧ u.parent = t.parent ∧ u.demand = t.demand ∧ (t.Done → u.Done)) ∨
      s.tasks.length ≤ j ∧ u.phase = .ready ∧ u.parent = some i := by
  by_cases hj : j = i
  · subst hj
    cases ht : s.tasks[j]? with
    | none =>
      rw [h.eq_of_finished (fun t ht' => by rw [ht] at ht'; cases ht'), ht] at hu
      cases hu
    | some t =>
      obtain ⟨p, hp⟩ := h.self ht
      rw [hu, Option.some.injEq] at hp
      subst hp
      refine .inl ⟨t, rfl, rfl, rfl, fun ⟨o, ho, hne⟩ => ?_⟩
      rw [h.finished ht ho, Option.some.injEq] at hu
      exact hu ▸ ⟨o, ho, hne⟩
  · rcases h.other hj hu with ⟨v, hv, hkept⟩ | hnew
    · exact .inl ⟨v, hv, hkept.parent_eq, hkept.demand_eq, hkept.done⟩
    · exact .inr hnew

/-- The edits that any two tasks asked for by the task at `i` have led to share no byte. -/
def EditsApart (s : State σ) (i : Nat) : Prop :=
  ∀ (j j' : Nat) (t t' : Task) (e e' : Edit), j ≠ j' → s.tasks[j]? = some t →
    s.tasks[j']? = some t' → t.parent = some i → t'.parent = some i → t.edit? = some e →
    t'.edit? = some e' → e.Apart e'

theorem EditsApart.coherent {s : State σ} {i : Nat} (h : s.EditsApart i) :
    Editor.Coherent (s.edits i) := by
  intro a ha b hb
  obtain ⟨j, t, ht, hp, ha⟩ := (s.mem_edits_iff i a).1 ha
  obtain ⟨j', t', ht', hp', hb⟩ := (s.mem_edits_iff i b).1 hb
  by_cases hj : j = j'
  · subst hj
    rw [ht, Option.some.injEq] at ht'
    rw [← ht', ha, Option.some.injEq] at hb
    exact .inl hb
  · exact .inr (h j j' t t' a b hj ht ht' hp hp' ha hb)

/-- A step keeps the edits apart if the one that it leads to is apart from those before. -/
theorem Turn.editsApart {c : Setting σ} {s s' : State σ} {i q : Nat} {ds : List Deed}
    (h : Turn c s i ds s') (hs : s.EditsApart q)
    (hnew : ∀ e, s.NewEdit s' i q e → ∀ e' ∈ s.edits q, e'.Apart e) : s'.EditsApart q := by
  have hsplit : ∀ (j : Nat) (u : Task) (e : Edit), s'.tasks[j]? = some u → u.parent = some q →
      u.edit? = some e → (∃ t, s.tasks[j]? = some t ∧ t.parent = some q ∧ t.edit? = some e) ∨
        j = i ∧ s.NewEdit s' i q e := by
    intro j u e hu hp he
    obtain ⟨_, _, path, -, ho, -⟩ := (u.edit?_eq_some_iff e).1 he
    by_cases hj : j = i
    · subst hj
      rcases h.origin hu with ⟨t, ht, hpar, -⟩ | ⟨-, hready, -⟩
      · cases het : t.edit? with
        | none => exact .inr ⟨rfl, t, u, ht, het, hu, hp, he⟩
        | some e' =>
          obtain ⟨_, _, path', -, ho', -⟩ := (t.edit?_eq_some_iff e').1 het
          rw [h.finished ht ho', Option.some.injEq] at hu
          exact .inl ⟨t, ht, hu ▸ hp, hu ▸ he⟩
      · rw [hready] at ho
        cases ho
    · rcases h.other hj hu with ⟨v, hv, hkept⟩ | ⟨-, hready, -⟩
      · exact .inl ⟨v, hv, hkept.parent_eq ▸ hp, hkept.edit?_eq ▸ he⟩
      · rw [hready] at ho
        cases ho
  intro j j' u u' e e' hj hu hu' hp hp' he he'
  rcases hsplit j u e hu hp he with ⟨t, ht, htp, hte⟩ | ⟨rfl, hn⟩
  · rcases hsplit j' u' e' hu' hp' he' with ⟨t', ht', htp', hte'⟩ | ⟨rfl, hn'⟩
    · exact hs j j' t t' e e' hj ht ht' htp htp' hte hte'
    · exact hnew e' hn' e ((s.mem_edits_iff q e).2 ⟨j, t, ht, htp, hte⟩)
  · rcases hsplit j' u' e' hu' hp' he' with ⟨t', ht', htp', hte'⟩ | ⟨rfl, -⟩
    · exact (hnew e hn e' ((s.mem_edits_iff q e').2 ⟨j', t', ht', htp', hte'⟩)).symm
    · exact absurd rfl hj

/-- What holds of a draft: it has the edits of the tasks that it has asked for, it has asked for
everything that was due so far, and it waits for the tasks that are not done. -/
structure DraftOk (s : State σ) (i : Nat) (k : Claim) (d : Draft) : Prop where
  original : d.editor.original = Utf8.encode d.source.text
  sound : d.editor.Sound
  recorded : ∀ e, e ∈ d.editor.recorded ↔ e ∈ s.edits i
  apart : s.EditsApart i
  asked_first : ∀ tree, d.rest = some tree →
    tree = Syntax.parse (.ofFileName k.path) d.source.text ∧ s.asked i = firstDemands d.source
  asked_all : d.rest = none → ∃ rs, Rewrite.requests k.path d.source.text = .ok rs ∧
    s.asked i = rs.map (demandOf d.source.url)
  pending : ∀ j ∈ d.pending, ∃ t : Task, s.tasks[j]? = some t ∧ t.parent = some i
  waits : ∀ (j : Nat) (t : Task), s.tasks[j]? = some t → t.parent = some i → j ∈ d.pending ∨ t.Done

/-- The text is the one fetched from `source` with the edits of the tasks that were asked for
everything it names. -/
structure Made (s : State σ) (i : Nat) (path : String) (source : Fetch.Source) (text : String) :
    Prop where
  asked : ∃ rs, Rewrite.requests path source.text = .ok rs ∧
    s.asked i = rs.map (demandOf source.url)
  done : ∀ (j : Nat) (t : Task), s.tasks[j]? = some t → t.parent = some i → t.Done
  fits : ∀ e ∈ s.edits i, e.Fits (Utf8.encode source.text).length
  apart : s.EditsApart i
  text_eq : Utf8.encode text = Editor.patch (s.edits i) (Utf8.encode source.text)

/-- What ties drafts and filled paths to the tasks that they asked for. -/
structure Family (s : State σ) (log : List Deed) : Prop where
  /-- Whoever asks comes first and is past fetching. -/
  elder : ∀ (j p : Nat) (t : Task), s.tasks[j]? = some t → t.parent = some p →
    p < j ∧ ∃ u, s.tasks[p]? = some u ∧ u.phase.IsPastFetching
  drafts : ∀ i k d, s.phase? i = some (.rewriting k d) → s.DraftOk i k d
  made : ∀ i path text, .filled i path text ∈ log →
    ∃ source, .drafted i path source ∈ log ∧ s.Made i path source text

/-- A task stays where it is. -/
theorem Turn.persists {c : Setting σ} {s s' : State σ} {i j : Nat} {ds : List Deed}
    (h : Turn c s i ds s') {t : Task} (ht : s.tasks[j]? = some t) :
    ∃ u, s'.tasks[j]? = some u ∧ u.parent = t.parent ∧ u.demand = t.demand := by
  have hlt : j < s.tasks.length := (List.getElem?_eq_some_iff.1 ht).1
  have hu := List.getElem?_eq_getElem (Nat.lt_of_lt_of_le hlt h.length_le)
  rcases h.origin hu with ⟨v, hv, hp, hd, -⟩ | ⟨hle, -⟩
  · rw [ht, Option.some.injEq] at hv
    exact ⟨_, hu, hv ▸ hp, hv ▸ hd⟩
  · omega

/-- The tasks that a draft has asked for are done once the draft goes on. -/
theorem DraftOk.done {s : State σ} {i : Nat} {k : Claim} {d : Draft} (h : s.DraftOk i k d)
    (ha : s.Answered d) {j : Nat} {t : Task} (ht : s.tasks[j]? = some t)
    (hp : t.parent = some i) : t.Done := by
  rcases h.waits j t ht hp with hj | hdone
  · have hfin := List.all_eq_true.1 ha.finished j hj
    have hsafe := List.findSome?_eq_none_iff.1 ha.unharmed j hj
    rw [outcome?, ht, Option.bind_some, Task.outcome?] at hfin hsafe
    split at hfin
    · next o ho =>
      rw [ho] at hsafe
      refine ⟨o, ho, ?_⟩
      rintro e rfl
      cases hsafe
    · cases hfin
  · exact hdone

/-- A step of another task keeps a draft in order. -/
theorem DraftOk.step {c : Setting σ} {s s' : State σ} {i q : Nat} {ds : List Deed} {k : Claim}
    {d₀ d : Draft} (h : s.DraftOk q k d₀) (hturn : Turn c s i ds s') (hq : q ≠ i)
    (hd : DraftStep (s.NewEdit s' i q) d₀ d) : s'.DraftOk q k d := by
  have hasked := hturn.asked hq
  have hsource : d.source = d₀.source := by rw [hd.same]
  have hrest : d.rest = d₀.rest := by rw [hd.same]
  have hpending : d.pending = d₀.pending := by rw [hd.same]
  constructor
  · rw [hd.original, hsource]
    exact h.original
  · exact hd.sound h.sound
  · intro e
    rw [hd.recorded, hturn.mem_edits_iff, h.recorded]
  · exact hturn.editsApart h.apart fun e he e' he' => hd.fresh e he e' ((h.recorded e').2 he')
  · rw [hrest, hsource, hasked]
    exact h.asked_first
  · rw [hrest, hsource, hasked]
    exact h.asked_all
  · intro j hj
    obtain ⟨t, ht, hp⟩ := h.pending j (hpending ▸ hj)
    obtain ⟨u, hu, hup, -⟩ := hturn.persists ht
    exact ⟨u, hu, hup.trans hp⟩
  · intro j u hu hp
    rcases hturn.origin hu with ⟨t, ht, hup, -, hdone⟩ | ⟨-, -, hup⟩
    · rw [hpending]
      exact (h.waits j t ht (hup ▸ hp)).imp_right hdone
    · rw [hup, Option.some.injEq] at hp
      exact absurd hp.symm hq

/-! ## Tasks that somebody outside has asked for -/

/-- The tasks of `s'` are those of `s`, and then tasks that none of these has asked for. -/
def Receives (s s' : State σ) : Prop :=
  ∃ os : List Task, (∀ t ∈ os, t.parent = none ∧ t.phase = .ready) ∧ s'.tasks = s.tasks ++ os

namespace Receives

variable {s s' : State σ} {i j : Nat}

theorem of_tasks (h : s'.tasks = s.tasks) : s.Receives s' :=
  ⟨[], (by simp), by rw [h, List.append_nil]⟩

/-- What is gathered from the tasks that the task at `i` has asked for stays the same. -/
theorem filterMap_eq {α : Type} (h : s.Receives s') (f : Task → Option α) (i : Nat) :
    (s'.tasks.filterMap fun t => if t.parent = some i then f t else none) =
      s.tasks.filterMap fun t => if t.parent = some i then f t else none := by
  obtain ⟨os, hos, hs'⟩ := h
  have hnil : (os.filterMap fun t => if t.parent = some i then f t else none) = [] := by
    apply List.filterMap_eq_nil_iff.2
    intro t ht
    rw [(hos t ht).1, if_neg (by simp)]
  rw [hs', List.filterMap_append, hnil, List.append_nil]

theorem asked (h : s.Receives s') (i : Nat) : s'.asked i = s.asked i :=
  h.filterMap_eq (fun t => some t.demand) i

theorem edits (h : s.Receives s') (i : Nat) : s'.edits i = s.edits i := h.filterMap_eq _ i

theorem old (h : s.Receives s') {u : Task} (hu : s.tasks[j]? = some u) :
    s'.tasks[j]? = some u := by
  obtain ⟨os, -, hs'⟩ := h
  rw [hs', List.getElem?_append_left (List.getElem?_eq_some_iff.1 hu).1, hu]

theorem origin (h : s.Receives s') {u : Task} (hu : s'.tasks[j]? = some u) :
    s.tasks[j]? = some u ∨ u.parent = none ∧ u.phase = .ready := by
  obtain ⟨os, hos, hs'⟩ := h
  by_cases hlt : j < s.tasks.length
  · rw [hs', List.getElem?_append_left hlt] at hu
    exact .inl hu
  · rw [hs', List.getElem?_append_right (Nat.le_of_not_lt hlt)] at hu
    exact .inr (hos u (List.mem_of_getElem? hu))

/-- A task that another one has asked for was there. -/
theorem child (h : s.Receives s') {u : Task} (hu : s'.tasks[j]? = some u)
    (hp : u.parent = some i) : s.tasks[j]? = some u := by
  apply (h.origin hu).resolve_right
  intro hnew
  rw [hnew.1] at hp
  cases hp

theorem phase?_of_rewriting (h : s.Receives s') {k : Claim} {d : Draft}
    (hd : s'.phase? i = some (.rewriting k d)) : s.phase? i = some (.rewriting k d) := by
  obtain ⟨t, ht, hphase⟩ := tasks_of_phase? hd
  rcases h.origin ht with ht | ⟨-, hready⟩
  · rw [phase?_of_tasks ht, hphase]
  · rw [hready] at hphase
    cases hphase

theorem editsApart (h : s.Receives s') (hi : s.EditsApart i) : s'.EditsApart i :=
  fun j j' u u' e e' hj hu hu' hp hp' =>
    hi j j' u u' e e' hj (h.child hu hp) (h.child hu' hp') hp hp'

theorem draftOk (h : s.Receives s') {k : Claim} {d : Draft} (hd : s.DraftOk i k d) :
    s'.DraftOk i k d where
  original := hd.original
  sound := hd.sound
  recorded e := by
    rw [h.edits]
    exact hd.recorded e
  apart := h.editsApart hd.apart
  asked_first := by
    rw [h.asked]
    exact hd.asked_first
  asked_all := by
    rw [h.asked]
    exact hd.asked_all
  pending j hj := by
    obtain ⟨u, hu, hp⟩ := hd.pending j hj
    exact ⟨u, h.old hu, hp⟩
  waits j u hu hp := hd.waits j u (h.child hu hp) hp

theorem made (h : s.Receives s') {path text : String} {source : Fetch.Source}
    (hm : s.Made i path source text) : s'.Made i path source text where
  asked := by
    rw [h.asked]
    exact hm.asked
  done j u hu hp := hm.done j u (h.child hu hp) hp
  fits := by
    rw [h.edits]
    exact hm.fits
  apart := h.editsApart hm.apart
  text_eq := by
    rw [h.edits]
    exact hm.text_eq

end Receives

namespace Family

variable {c : Setting σ} {world : σ} {s s' : State σ} {log : List Deed} {i : Nat} {ds : List Deed}

/-- A task that is not past fetching has asked for nothing. -/
theorem childless (h : Family s log) {t : Task} (ht : s.tasks[i]? = some t)
    (hp : ¬ t.phase.IsPastFetching) {j : Nat} {u : Task} (hu : s.tasks[j]? = some u) :
    u.parent ≠ some i := by
  intro hup
  obtain ⟨-, t', ht', hpast⟩ := h.elder j i u hu hup
  rw [ht, Option.some.injEq] at ht'
  exact hp (ht' ▸ hpast)

theorem asked_eq_nil (h : Family s log) {t : Task} (ht : s.tasks[i]? = some t)
    (hp : ¬ t.phase.IsPastFetching) : s.asked i = [] := by
  apply List.filterMap_eq_nil_iff.2
  intro u hu
  obtain ⟨j, hj⟩ := List.mem_iff_getElem?.1 hu
  rw [if_neg (h.childless ht hp hj)]

/-- The tasks that a step asks for. -/
theorem mem_range_iff_new (hturn : Turn c s i ds s') {n : Nat}
    (hlen : s'.tasks.length = s.tasks.length + n) {j : Nat} :
    j ∈ List.range' s.tasks.length n ↔ s.tasks.length ≤ j ∧
      ∃ u, s'.tasks[j]? = some u ∧ u.parent = some i := by
  rw [List.mem_range'_1]
  refine and_congr_right fun hle => ⟨fun hlt => ?_, fun ⟨u, hu, _⟩ => ?_⟩
  · have hu := List.getElem?_eq_getElem (hlen ▸ hlt)
    rcases hturn.origin hu with ⟨t, ht, -⟩ | ⟨-, -, hp⟩
    · have := (List.getElem?_eq_some_iff.1 ht).1
      omega
    · exact ⟨_, hu, hp⟩
  · exact hlen ▸ (List.getElem?_eq_some_iff.1 hu).1

/-- The draft that a task begins is in order. -/
theorem draftOk_first (h : Family s log) {t : Task} {k : Claim} {source : Fetch.Source}
    (hturn : Turn c s i ds s') (ht : s.tasks[i]? = some t) (hp : ¬ t.phase.IsPastFetching)
    (hself : s'.tasks[i]? = some { t with phase := .rewriting k (firstDraft k source
      (List.range' s.tasks.length (firstDemands source).length)) })
    (hlen : s'.tasks.length = s.tasks.length + (firstDemands source).length)
    (hasked : s'.asked i = s.asked i ++ firstDemands source) :
    s'.DraftOk i k (firstDraft k source
      (List.range' s.tasks.length (firstDemands source).length)) := by
  constructor
  · rfl
  · exact Editor.sound_ofBytes _
  · intro e
    have hnil : e ∉ s.edits i := by
      rw [State.mem_edits_iff]
      rintro ⟨j, u, hu, hup, -⟩
      exact h.childless ht hp hu hup
    rw [hturn.mem_edits_iff]
    refine iff_of_false List.not_mem_nil ?_
    rintro (he | hnew)
    · exact hnil he
    · exact not_newEdit hself (by simp) hnew
  · refine hturn.editsApart (fun j j' t t' e e' _ hj _ hpj => ?_) fun e he => ?_
    · exact absurd hpj (h.childless ht hp hj)
    · exact absurd he (not_newEdit hself (by simp))
  · intro tree htree
    cases htree
    refine ⟨rfl, ?_⟩
    rw [hasked, h.asked_eq_nil ht hp, List.nil_append]
    rfl
  · intro hrest
    cases hrest
  · intro j hj
    exact ((mem_range_iff_new hturn hlen).1 hj).2
  · intro j u hu hup
    rcases hturn.origin hu with ⟨v, hv, hpar, -⟩ | ⟨hle, -⟩
    · exact absurd (hpar ▸ hup) (h.childless ht hp hv)
    · exact .inl ((mem_range_iff_new hturn hlen).2 ⟨hle, u, hu, hup⟩)

/-- The draft that has asked for what its specifiers name is in order. -/
theorem draftOk_all {t : Task} {k : Claim} {d : Draft} {tree : Syntax.Tree}
    {rs : List Request} (hturn : Turn c s i ds s') (hdraft : s.DraftOk i k d) (ha : s.Answered d)
    (hrest : d.rest = some tree) (hr : Rewrite.specifiers d.editor.original tree = .ok rs)
    (hself : s'.tasks[i]? = some { t with phase := .rewriting k { d with
      rest := none
      pending := List.range' s.tasks.length (rs.map (demandOf d.source.url)).length } })
    (hlen : s'.tasks.length = s.tasks.length + (rs.map (demandOf d.source.url)).length)
    (hasked : s'.asked i = s.asked i ++ rs.map (demandOf d.source.url)) :
    s'.DraftOk i k { d with
      rest := none
      pending := List.range' s.tasks.length (rs.map (demandOf d.source.url)).length } := by
  constructor
  · exact hdraft.original
  · exact hdraft.sound
  · intro e
    rw [hturn.mem_edits_iff, hdraft.recorded, or_iff_left (not_newEdit hself (by simp))]
  · exact hturn.editsApart hdraft.apart fun e he => absurd he (not_newEdit hself (by simp))
  · intro tree' htree
    cases htree
  · intro _
    obtain ⟨htree, hfirst⟩ := hdraft.asked_first tree hrest
    refine ⟨Rewrite.directives d.source.text ++ rs, (Rewrite.requests_eq_ok_iff ..).2 ⟨rs, ?_, rfl⟩,
      ?_⟩
    · rw [← hdraft.original, ← htree]
      exact hr
    · rw [hasked, hfirst, List.map_append]
      rfl
  · intro j hj
    exact ((mem_range_iff_new hturn hlen).1 hj).2
  · intro j u hu hup
    rcases hturn.origin hu with ⟨v, hv, hpar, -, hdone⟩ | ⟨hle, -⟩
    · exact .inr (hdone (hdraft.done ha hv (hpar ▸ hup)))
    · exact .inl ((mem_range_iff_new hturn hlen).2 ⟨hle, u, hu, hup⟩)

/-- The drafts are in order after a step. -/
theorem drafts_turn (h : Family s log) (hturn : Turn c s i ds s') {q : Nat} {k : Claim} {d : Draft}
    (hd : s'.phase? q = some (.rewriting k d)) : s'.DraftOk q k d := by
  by_cases hq : q = i
  · subst hq
    have hturn' := hturn
    have hended : ∀ {s₀ : State σ} {t : Task} {r : Except Fault String},
        Concluded s₀ q t r s' → s₀.tasks[q]? = some t → s'.DraftOk q k d := by
      intro s₀ t r hc ht
      obtain ⟨o, ho⟩ := hc.phase? ht
      rw [hd] at ho
      cases ho
    cases hturn with
    | rest _ => exact h.drafts q k d hd
    | broken ht _ hc => exact hended hc ht
    | answered ht hp ha hs hc => exact hended hc ht
    | claimed ht hp ha hs =>
      cases eq_of_phase?_enter hd ht
    | retried ht hp hr hurls =>
      cases eq_of_phase?_enter hd ht
    | lost ht hp hr htold hc => exact hended hc ht
    | @drafted t _ _ _ _ source ht hp hr =>
      have ht' := getElem?_offspring ht q (firstDemands source)
      cases eq_of_phase?_enter hd ht'
      refine h.draftOk_first hturn' ht (by rw [hp]; exact id) (enter_self ht' _) ?_ ?_
      · rw [enter_length, List.length_append, offspring, List.length_map]
      · rw [asked_enter, asked_offspring, if_pos rfl]
        rfl
    | @proceeded t k' d' tree rs ht hp hd' hrest hr =>
      have ht' := getElem?_offspring ht q (rs.map (demandOf d'.source.url))
      cases eq_of_phase?_enter hd ht'
      have hdraft := h.drafts q k d' (by rw [phase?_of_tasks ht, hp])
      refine draftOk_all hturn' hdraft hd' hrest hr (enter_self ht' _) ?_ ?_
      · rw [enter_length, List.length_append, offspring, List.length_map]
      · rw [asked_enter, asked_offspring, if_pos rfl]
    | settled ht hp hd' hrest htext hs hc => exact hended hc ht
  · obtain ⟨d₀, hd₀, hstep⟩ := hturn.draft hq hd
    exact (h.drafts q k d₀ hd₀).step hturn hq hstep

/-- A task that is past fetching stays so. -/
theorem pastFetching_turn (hturn : Turn c s i ds s') {p : Nat} {v : Task}
    (hv : s.tasks[p]? = some v) (hpast : v.phase.IsPastFetching) :
    ∃ u, s'.tasks[p]? = some u ∧ u.phase.IsPastFetching := by
  by_cases hp : p = i
  · subst hp
    rcases hturn.leads with ⟨-, hs⟩ | ⟨t, p', ht, hlead, hu⟩
    · exact ⟨v, hs ▸ hv, hpast⟩
    · rw [hv, Option.some.injEq] at ht
      subst ht
      exact ⟨_, hu, hlead.isPastFetching hpast⟩
  · obtain ⟨u, hu, -⟩ := hturn.persists hv
    refine ⟨u, hu, ?_⟩
    rcases hturn.other hp hu with ⟨w, hw, hkept⟩ | ⟨hle, -⟩
    · rw [hv, Option.some.injEq] at hw
      subst hw
      cases hkept with
      | same => exact hpast
      | edited => exact trivial
    · have := (List.getElem?_eq_some_iff.1 hv).1
      omega

/-- A task that asks for others has a draft then. -/
theorem rewriting_of_asking (hturn : Turn c s i ds s')
    (hlen : s.tasks.length < s'.tasks.length) :
    ∃ u k d, s'.tasks[i]? = some u ∧ u.phase = .rewriting k d := by
  cases hturn with
  | rest _ => exact absurd hlen (Nat.lt_irrefl _)
  | broken _ _ hc => exact absurd (hc.length ▸ hlen) (Nat.lt_irrefl _)
  | answered _ _ _ _ hc => exact absurd (hc.length ▸ hlen) (Nat.lt_irrefl _)
  | claimed _ _ _ _ => simp at hlen
  | retried _ _ _ _ => simp at hlen
  | lost _ _ _ _ hc => exact absurd (hc.length ▸ hlen) (Nat.lt_irrefl _)
  | drafted ht _ _ => exact ⟨_, _, _, enter_self (getElem?_offspring ht _ _) _, rfl⟩
  | proceeded ht _ _ _ _ => exact ⟨_, _, _, enter_self (getElem?_offspring ht _ _) _, rfl⟩
  | settled _ _ _ _ _ _ hc => exact absurd (hc.length ▸ hlen) (Nat.lt_irrefl _)

/-- Whoever asks comes first after a step, too. -/
theorem elder_turn (h : Family s log) (hturn : Turn c s i ds s') {j p : Nat} {u : Task}
    (hu : s'.tasks[j]? = some u) (hp : u.parent = some p) :
    p < j ∧ ∃ v, s'.tasks[p]? = some v ∧ v.phase.IsPastFetching := by
  rcases hturn.origin hu with ⟨t, ht, hpar, -⟩ | ⟨hle, -, hpar⟩
  · obtain ⟨hlt, v, hv, hpast⟩ := h.elder j p t ht (hpar ▸ hp)
    exact ⟨hlt, pastFetching_turn hturn hv hpast⟩
  · rw [hpar, Option.some.injEq] at hp
    subst hp
    have hlen := (List.getElem?_eq_some_iff.1 hu).1
    have hi : i < s.tasks.length := by
      apply Decidable.byContradiction
      intro hge
      have hnone : s.tasks[i]? = none := List.getElem?_eq_none (Nat.le_of_not_lt hge)
      rw [hturn.eq_of_finished fun t ht => by rw [hnone] at ht; cases ht] at hlen
      omega
    obtain ⟨v, k, d, hv, hphase⟩ := rewriting_of_asking hturn (by omega)
    refine ⟨Nat.lt_of_lt_of_le hi hle, v, hv, ?_⟩
    rw [hphase]
    exact trivial

/-- A step of another task leaves alone what a path was filled with. -/
theorem made_step (hturn : Turn c s i ds s') {j : Nat} (hj : j ≠ i) {path text : String}
    {source : Fetch.Source} (h : s.Made j path source text) : s'.Made j path source text := by
  have hold : ∀ e, ¬ s.NewEdit s' i j e := by
    rintro e ⟨t, u, ht, hnone, hu, hup, he⟩
    obtain ⟨u', hu', hpar, -⟩ := hturn.persists ht
    rw [hu, Option.some.injEq] at hu'
    obtain ⟨o, ho, -⟩ := h.done i t ht (by rw [← hpar, ← hu', hup])
    rw [hturn.finished ht ho, Option.some.injEq] at hu
    rw [← hu, hnone] at he
    cases he
  have hmem : ∀ e, e ∈ s'.edits j ↔ e ∈ s.edits j := fun e => by
    rw [hturn.mem_edits_iff, or_iff_left (hold e)]
  refine ⟨?_, fun m u hu hup => ?_, fun e he => h.fits e ((hmem e).1 he),
    hturn.editsApart h.apart fun e he => absurd he (hold e), ?_⟩
  · rw [hturn.asked hj]
    exact h.asked
  · rcases hturn.origin hu with ⟨t, ht, hpar, -, hdone⟩ | ⟨-, -, hpar⟩
    · exact hdone (h.done m t ht (hpar ▸ hup))
    · rw [hpar, Option.some.injEq] at hup
      exact absurd hup.symm hj
  · rw [h.text_eq]
    exact Editor.patch_congr (fun e => (hmem e).symm) h.apart.coherent _

/-- A path is filled with the text of a draft that has waited for everything it asked for. -/
theorem made_settled (h : Family s log) (hturn : Turn c s i ds s') {t : Task} {k : Claim}
    {d : Draft} {text : String} {p : Phase} (ht : s.tasks[i]? = some t)
    (hp : t.phase = .rewriting k d) (hd : s.Answered d) (hrest : d.rest = none)
    (htext : d.editor.toText = .ok text) (hself : s'.tasks[i]? = some { t with phase := p })
    (hasked : s'.asked i = s.asked i) (hlen : s'.tasks.length = s.tasks.length) :
    s'.Made i k.path d.source text := by
  have hdraft := h.drafts i k d (by rw [phase?_of_tasks ht, hp])
  have hold : ∀ e, ¬ s.NewEdit s' i i e := by
    rintro e ⟨_, u, -, -, hu, hup, -⟩
    rw [hself, Option.some.injEq] at hu
    have hpar : t.parent = some i := by rw [← hup, ← hu]
    exact Nat.lt_irrefl _ (h.elder i i t ht hpar).1
  have hmem : ∀ e, e ∈ s'.edits i ↔ e ∈ d.editor.recorded := fun e => by
    rw [hturn.mem_edits_iff, hdraft.recorded, or_iff_left (hold e)]
  refine ⟨?_, fun j u hu hup => ?_, fun e he => ?_,
    hturn.editsApart hdraft.apart fun e he => absurd he (hold e), ?_⟩
  · rw [hasked]
    exact hdraft.asked_all hrest
  · rcases hturn.origin hu with ⟨v, hv, hpar, -, hdone⟩ | ⟨hle, -⟩
    · exact hdone (hdraft.done hd hv (hpar ▸ hup))
    · have := (List.getElem?_eq_some_iff.1 ht).1
      have := (List.getElem?_eq_some_iff.1 hu).1
      omega
  · rw [← hdraft.original]
    exact hdraft.sound.fits e ((hmem e).1 he)
  · have hcoherent := Editor.coherent_of_pairwise hdraft.sound.apart
    rw [← (Utf8.decode_eq_ok_iff _ _).1 htext, hdraft.sound.toBytes_eq_patch, hdraft.original]
    exact Editor.patch_congr (fun e => (hmem e).symm) hcoherent _

/-- Every step keeps the invariant. -/
theorem step (h : Family s log) (hc : Chronicle c world s log) (i : Nat) :
    Family (s.step c i) (log ++ s.deeds c i) := by
  have hturn := s.step_turn c i
  refine ⟨fun j p u hu hp => h.elder_turn hturn hu hp, fun q k d hd => h.drafts_turn hturn hd,
    fun j path text hf => ?_⟩
  rcases List.mem_append.1 hf with hold | hnew
  · obtain ⟨source, hdrafted, hmade⟩ := h.made j path text hold
    refine ⟨source, List.mem_append_left _ hdrafted, ?_⟩
    by_cases hj : j = i
    · subst hj
      obtain ⟨t, o, ht, ho, -⟩ := hc.finished_of_filled hold
      rw [hturn.eq_of_finished fun t' ht' => ⟨o, (Option.some.inj (ht.symm.trans ht')) ▸ ho⟩]
      exact hmade
    · exact made_step hturn hj hmade
  · generalize s.deeds c i = ds at hturn hnew ⊢
    generalize s.step c i = s' at hturn ⊢
    have hturn' := hturn
    cases hturn with
    | rest _ => cases hnew
    | broken _ _ _ => cases hnew
    | answered _ _ _ _ _ => cases hnew
    | claimed _ _ _ _ => simp at hnew
    | retried _ _ _ _ => simp at hnew
    | lost _ _ _ _ _ => simp at hnew
    | drafted _ _ _ => simp at hnew
    | proceeded _ _ _ _ _ => cases hnew
    | @settled t k d text' _ ht hp hd hrest htext hs hcon =>
      simp only [List.mem_singleton, Deed.filled.injEq] at hnew
      obtain ⟨rfl, rfl, rfl⟩ := hnew
      refine ⟨d.source, List.mem_append_left _ (hc.drafted_of_rewriting ht hp), ?_⟩
      obtain ⟨o, -, hself⟩ := hcon.self ht
      exact h.made_settled hturn' ht hp hd hrest htext hself (hcon.asked _) hcon.length

/-- Tasks that somebody outside has asked for leave the families of the others alone. -/
theorem outside (h : Family s log) {s' : State σ} {log' : List Deed} (hs : s.Receives s')
    (hfilled : ∀ i path text, .filled i path text ∈ log' → .filled i path text ∈ log)
    (hlog : ∀ x ∈ log, x ∈ log') : Family s' log' where
  elder j p u hu hp := by
    obtain ⟨hlt, v, hv, hpast⟩ := h.elder j p u (hs.child hu hp) hp
    exact ⟨hlt, v, hs.old hv, hpast⟩
  drafts i k d hd := hs.draftOk (h.drafts i k d (hs.phase?_of_rewriting hd))
  made i path text hf := by
    obtain ⟨source, hdrafted, hmade⟩ := h.made i path text (hfilled i path text hf)
    exact ⟨source, hlog _ hdrafted, hs.made hmade⟩

/-- Every move keeps the invariant. -/
theorem move (h : Family s log) (hc : Chronicle c world s log) (m : Move) :
    Family (s.move c m) (log ++ s.moveDeeds c m) := by
  cases m with
  | step i => exact h.step hc i
  | ask d =>
    have hnil : log ++ s.moveDeeds c (.ask d) = log := List.append_nil log
    rw [hnil]
    refine h.outside ⟨[⟨none, d, .ready⟩], fun t ht => ?_, rfl⟩ (fun _ _ _ hf => hf)
      fun _ hx => hx
    rw [List.mem_singleton.1 ht]
    exact ⟨rfl, rfl⟩
  | add path text =>
    refine h.outside (.of_tasks (s.tasks_add ..)) (fun i p t hf => ?_)
      fun x hx => List.mem_append_left _ hx
    apply (List.mem_append.1 hf).resolve_right
    intro hf
    rw [State.moveDeeds] at hf
    split_ifs at hf
    · cases hf
    · cases List.mem_singleton.1 hf

end Family

end State

/-- The invariant holds in every state that can be reached. -/
theorem Reached.family {c : Setting σ} {world : σ} {allowed : Move → Prop} {s : State σ}
    {log : List Deed} (h : Reached c world allowed s log) : s.Family log := by
  induction h with
  | start =>
    refine ⟨?_, ?_, ?_⟩
    · intro j p t ht
      simp [State.start] at ht
    · intro i k d hd
      simp [State.start, State.phase?] at hd
    · intro i path text hf
      cases hf
  | move h hm ih => exact ih.move h.chronicle _

end ModuleGraph.Loading
