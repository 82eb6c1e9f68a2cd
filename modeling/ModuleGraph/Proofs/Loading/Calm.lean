import ModuleGraph.Proofs.Loading.Closure
/-!
# Runs in which no importer fails

Where every file has a plan, whatever keeps a module from being fetched stays with the request that
asked for it: no task that another one waits for fails, and no file is given up while it is
rewritten. The invariant `Calm` says so of every state of a run.

Results:
* `Run.apply_of_awaits`: the path of a module can be written into the draft that asked for it;
* `Run.untroubled`: a draft meets no fault;
* `Run.calm`: **main theorem**: the invariant holds in every state of a run over files with plans.
-/

namespace ModuleGraph

/-- A specifier that is not resolved is reported to the importer alone. -/
theorem ImportMap.isOwn_of_resolve {m : ImportMap} {source specifier : String} {e : Fault}
    (h : m.resolve source specifier = .error e) : e.isOwn = true := by
  unfold resolve at h
  split at h
  · cases h
  · simp only at h
    split at h
    · cases h
      rfl
    · cases h
      rfl
    · cases h

namespace Loading

variable {σ : Type}

theorem isOwn_of_aimAt {url asUrl : String} {fallbacks : List String} {e : Fault}
    (h : aimAt url asUrl fallbacks = .error e) : e.isOwn = true := by
  obtain ⟨cause, -, rfl⟩ := (aimAt_eq_error_iff ..).1 h
  rfl

/-- Whoever asks from a text survives the faults of the module graph. -/
theorem verdict_of_isOwn {source : String} {r : Request} {e : Fault} (h : e.isOwn = true) :
    (State.demandOf source r).verdict e = .reported := by
  cases r with
  | module t => exact if_pos h
  | library name => exact if_pos h

/-- What keeps a request from having a path to claim is a fault of the module graph, if the
libraries among the requests have URLs. -/
theorem isOwn_of_aim {c : Setting σ} {source : String} {r : Request} {e : Fault}
    (hlib : ∀ name, r = .library name → Rewrite.HasUrls c.libraryDir c.bundledDir name)
    (h : (State.demandOf source r).aim c = .error e) : e.isOwn = true := by
  cases r with
  | module t =>
    unfold State.demandOf Demand.aim at h
    dsimp only at h
    split at h
    · next hr =>
      cases h
      exact ImportMap.isOwn_of_resolve hr
    · exact isOwn_of_aimAt h
  | library name =>
    obtain ⟨url, fallback, hurl, hfallback⟩ := hlib name rfl
    unfold State.demandOf Demand.aim at h
    dsimp only at h
    rw [hurl, hfallback] at h
    exact isOwn_of_aimAt h

theorem planned_of_led {c : Setting σ} {s : State σ} {log : List Deed} {source : String}
    {r : Request} {j : Nat} {e : Edit} (h : s.led c log source (r, j) = some e) :
    Rewrite.planned c.importMap source r = some e := by
  cases r with
  | library name => cases h
  | module t =>
    simp only [State.led] at h
    split at h
    · cases h
    · next k urls ha =>
      split_ifs at h
      cases h
      exact (planned_eq_some_iff c source t _).2 ⟨k, urls, ha, rfl⟩

/-- A task that has taken a text into a draft and has not ended has that draft. -/
theorem Chronicle.rewriting_of_drafted {c : Setting σ} {world : σ} {s : State σ} {log : List Deed}
    (h : Chronicle c world s log) {i : Nat} {t : Task} {path : String} {source : Fetch.Source}
    (hd : .drafted i path source ∈ log) (ht : s.tasks[i]? = some t)
    (hun : ∀ o, t.phase ≠ .finished o) : ∃ k d, t.phase = .rewriting k d ∧ k.path = path := by
  have hstory := h.stories i t ht
  have hown := mem_own.2 ⟨hd, rfl⟩
  generalize own i log = l at hstory hown
  generalize t.phase = p at hstory hun
  cases hstory with
  | ready => cases hown
  | fetching ha hurls hs => simp [opening] at hown
  | rewriting ha hs => exact ⟨_, _, rfl, (drafted_mem_drafting_iff.1 hown).1.symm⟩
  | refused ha => exact absurd rfl (hun _)
  | answered ha hs hy => exact absurd rfl (hun _)
  | lost ha htried hs => exact absurd rfl (hun _)
  | dropped ha hs => exact absurd rfl (hun _)
  | settled ha hs hy => exact absurd rfl (hun _)

/-- A task that has ended had ended before the step, or is the one that advances. -/
theorem State.Turn.ended {c : Setting σ} {s s' : State σ} {i j : Nat} {ds : List Deed} {u : Task}
    {o : Outcome} (h : State.Turn c s i ds s') (hu : s'.tasks[j]? = some u)
    (ho : u.phase = .finished o) : s.tasks[j]? = some u ∨ j = i ∧
      ∃ t, s.tasks[i]? = some t ∧ (∀ o, t.phase ≠ .finished o) ∧ u.parent = t.parent := by
  by_cases hj : j = i
  · subst hj
    rcases h.origin hu with ⟨t, ht, hpar, -, -⟩ | ⟨-, hready, -⟩
    · by_cases hfin : ∃ o', t.phase = .finished o'
      · obtain ⟨o', ho'⟩ := hfin
        rw [h.finished ht ho', Option.some.injEq] at hu
        exact .inl (hu ▸ ht)
      · exact .inr ⟨rfl, t, ht, fun o' ho' => hfin ⟨o', ho'⟩, hpar⟩
    · rw [hready] at ho
      cases ho
  · rcases h.other hj hu with ⟨v, hv, hkept⟩ | ⟨-, hready, -⟩
    · cases hkept with
      | same => exact .inl hv
      | edited _ _ => cases ho
    · rw [hready] at ho
      cases ho

/-- No task that another one waits for has failed, and no file was given up while it was
rewritten. -/
structure Calm (s : State σ) (log : List Deed) : Prop where
  unharmed : ∀ (j p : Nat) (t : Task) (e : Fault), s.tasks[j]? = some t → t.parent = some p →
    t.phase ≠ .finished (.failed e)
  unraised : s.Unraised log

namespace Run

variable {c : Setting σ} {fetch : String → Except Fault Fetch.Source} {entries : List String}
  {world : σ} {s : State σ} {log : List Deed}

/-! ## Drafts with a plan -/

/-- The plan of a draft covers what the draft has asked for so far. -/
theorem plan_of_rewriting (h : Run c fetch entries world s log) (hplans : c.Plans fetch entries)
    {i : Nat} {k : Claim} {d : Draft} (hd : s.phase? i = some (.rewriting k d)) :
    ∃ rs asked, Rewrite.requests k.path d.source.text = .ok rs ∧
      Rewrite.Plan c.importMap c.libraryDir c.bundledDir d.source.url d.source.text rs ∧
      s.asked i = asked.map (State.demandOf d.source.url) ∧ asked <+: rs := by
  obtain ⟨t, ht, hp⟩ := State.tasks_of_phase? hd
  obtain ⟨-, urls, hk⟩ := h.chronicle.claimed_of_claim? ht (by rw [hp]; rfl)
  obtain ⟨hreach, hpath⟩ := h.reach_of_claimed hk
  obtain ⟨-, hf⟩ := h.fetch_of_drafted hk (h.chronicle.drafted_of_rewriting ht hp)
  obtain ⟨rs, hrs, hplan⟩ := hplans k.url k.path d.source hreach hpath hf
  have hdraft := h.reached.family.drafts i k d hd
  cases hrest : d.rest with
  | some tree =>
    obtain ⟨ss, -, rfl⟩ := (Rewrite.requests_eq_ok_iff ..).1 hrs
    exact ⟨_, _, hrs, hplan, (hdraft.asked_first tree hrest).2, List.prefix_append _ _⟩
  | none =>
    obtain ⟨rs', hrs', hasked⟩ := hdraft.asked_all hrest
    rw [hrs, Except.ok.injEq] at hrs'
    exact ⟨rs, rs', hrs, hplan, hasked, hrs' ▸ List.prefix_refl _⟩

/-- The path of a module can be written into the draft that asked for it. -/
theorem apply_of_awaits (h : Run c fetch entries world s log) (hplans : c.Plans fetch entries)
    {i p : Nat} {t : Task} {target : Target} {k k' : Claim} {d : Draft} {urls : List String}
    (ht : s.tasks[i]? = some t) (hun : ∀ o, t.phase ≠ .finished o)
    (hawaits : s.Awaits t p target k d) (ha : t.demand.aim c = .ok (k', urls)) (f : Fault) :
    Rewrite.apply d.editor target k'.path ≠ .error f := by
  obtain ⟨rs, asked, hrs, hplan, hasked, hpre⟩ := h.plan_of_rewriting hplans hawaits.rewriting
  have hdraft := h.reached.family.drafts p k d hawaits.rewriting
  obtain ⟨hzip, -, hright⟩ := State.zip_places hasked
  obtain ⟨source, hdemand⟩ := hawaits.demand
  -- The request that the task was asked for, and the edit that it leads to.
  obtain ⟨r, hx⟩ := hright i ((s.mem_places_iff p i).2 ⟨t, ht, hawaits.parent⟩)
  obtain ⟨t', ht', -, hr⟩ := hzip (r, i) hx
  rw [ht, Option.some.injEq] at ht'
  subst ht'
  have hplanned : Rewrite.planned c.importMap d.source.url r =
      some (Rewrite.edit target k'.path) := by
    cases r with
    | library name =>
      rw [hdemand] at hr
      cases hr
    | module target' =>
      rw [hdemand, State.demandOf, Demand.target.injEq] at hr
      obtain ⟨rfl, rfl⟩ := hr
      exact (planned_eq_some_iff ..).2 ⟨k', urls, hdemand ▸ ha, rfl⟩
  have hpair := (State.pairwise_apart_iff hasked _).1
    (hplan.sound.apart.sublist (hpre.sublist.filterMap _))
  have hfits : (Rewrite.edit target k'.path).Fits d.editor.original.length := by
    rw [hdraft.original]
    have hmem := hpre.subset (List.of_mem_zip hx).1
    exact hplan.sound.fits _ (List.mem_filterMap.2 ⟨r, hmem, hplanned⟩)
  have hapart : ∀ e ∈ d.editor.recorded, e.Apart (Rewrite.edit target k'.path) := by
    intro e he
    obtain ⟨j, u, hu, hup, hue⟩ := (s.mem_edits_iff p e).1 ((hdraft.recorded e).1 he)
    obtain ⟨_, _, path, -, ho, -⟩ := (u.edit?_eq_some_iff e).1 hue
    obtain ⟨r', hx'⟩ := hright j ((s.mem_places_iff p j).2 ⟨u, hu, hup⟩)
    obtain ⟨u', hu', -, hr'⟩ := hzip (r', j) hx'
    rw [hu, Option.some.injEq] at hu'
    subst hu'
    have hne : j ≠ i := by
      rintro rfl
      rw [ht, Option.some.injEq] at hu
      exact hun _ (hu ▸ ho)
    have hled := h.chronicle.edit?_eq_led hu ⟨_, ho, by simp⟩ hr'
    exact hpair _ hx' _ hx hne _ _ (planned_of_led (hled.symm.trans hue)) hplanned
  have hok := (Rewrite.apply_eq_ok_iff d.editor _ target k'.path).2 ⟨hfits, hapart, rfl⟩
  rw [hok]
  simp

/-- The edited text of a draft is a text. -/
theorem toText_of_rewriting (h : Run c fetch entries world s log) (hplans : c.Plans fetch entries)
    {i : Nat} {k : Claim} {d : Draft} (hd : s.phase? i = some (.rewriting k d))
    (m : Utf8.Malformed) : d.editor.toText ≠ .error m := by
  obtain ⟨rs, asked, hrs, hplan, hasked, hpre⟩ := h.plan_of_rewriting hplans hd
  have hdraft := h.reached.family.drafts i k d hd
  obtain ⟨hzip, -, hright⟩ := State.zip_places hasked
  have hputs : ∀ e ∈ d.editor.recorded, Editor.PutsText d.editor.original e := by
    intro e he
    obtain ⟨j, t, ht, hp, he⟩ := (s.mem_edits_iff i e).1 ((hdraft.recorded e).1 he)
    obtain ⟨_, target, path, hdemand, -, rfl⟩ := (t.edit?_eq_some_iff e).1 he
    obtain ⟨r, hx⟩ := hright j ((s.mem_places_iff i j).2 ⟨t, ht, hp⟩)
    obtain ⟨t', ht', -, hr⟩ := hzip (r, j) hx
    rw [ht, Option.some.injEq] at ht'
    subst ht'
    have hmem := hpre.subset (List.of_mem_zip hx).1
    cases r with
    | library name =>
      rw [hdemand] at hr
      cases hr
    | module target' =>
      rw [hdemand, State.demandOf, Demand.target.injEq] at hr
      obtain ⟨-, rfl⟩ := hr
      refine ⟨?_, Utf8.isText_encode _⟩
      rw [hdraft.original]
      exact Rewrite.isText_slice_of_requests hrs hmem
  have htext := hdraft.sound.isText_toBytes
    (by rw [hdraft.original]; exact Utf8.isText_encode _) hputs
  obtain ⟨text, hok⟩ := (Utf8.isText_iff_decode _).1 htext
  rw [Editor.toText, hok]
  simp

/-- A draft meets no fault. -/
theorem untroubled (h : Run c fetch entries world s log) (hplans : c.Plans fetch entries)
    (hcalm : Calm s log) {i : Nat} {t : Task} {k : Claim} {d : Draft} {e : Fault}
    (ht : s.tasks[i]? = some t) (hp : t.phase = .rewriting k d) :
    ¬ State.Trouble c s t.demand (.rewriting k d) e := by
  have hd : s.phase? i = some (.rewriting k d) := by rw [State.phase?_of_tasks ht, hp]
  have hdraft := h.reached.family.drafts i k d hd
  intro htrouble
  cases htrouble with
  | inherited hf =>
    obtain ⟨j, hj, hf⟩ := List.exists_of_findSome?_eq_some hf
    obtain ⟨u, hu, hup⟩ := hdraft.pending j hj
    rw [State.outcome?, hu, Option.bind_some, Task.outcome?] at hf
    split at hf
    · next e' ho =>
      split at ho
      · next o ho' =>
        rw [Option.some.injEq] at ho
        exact hcalm.unharmed j i u e' hu hup (ho ▸ ho')
      · cases ho
    · cases hf
  | unread hrest hm =>
    obtain ⟨rs, _, hrs, -⟩ := h.plan_of_rewriting hplans hd
    obtain ⟨ss, hss, -⟩ := (Rewrite.requests_eq_ok_iff ..).1 hrs
    rw [hdraft.original, (hdraft.asked_first _ hrest).1, hss] at hm
    cases hm
  | garbled hrest hm => exact h.toText_of_rewriting hplans hd _ hm
  | unfilled hfill =>
    obtain ⟨hreserved, -⟩ := h.chronicle.claimed_of_claim? ht (by rw [hp]; rfl)
    rw [ModuleStore.fill_of_reserved hreserved] at hfill
    cases hfill

/-! ## How tasks end -/

/-- A task that another one has asked for was asked for a request, and libraries have URLs. -/
theorem request_of_parent (h : Run c fetch entries world s log) (hplans : c.Plans fetch entries)
    {j p : Nat} {t : Task} (ht : s.tasks[j]? = some t) (hp : t.parent = some p) :
    ∃ source r, t.demand = State.demandOf source r ∧
      ∀ name, r = .library name → Rewrite.HasUrls c.libraryDir c.bundledDir name := by
  obtain ⟨path, source, r, hdrafted, hr, hd⟩ := h.reached.traced.askers j p t ht hp
  refine ⟨source.url, r, hd, ?_⟩
  rintro name rfl
  obtain ⟨_, k, urls, _, _, hk, _⟩ := h.chronicle.claim hdrafted rfl
  obtain ⟨hreach, hpath⟩ := h.reach_of_claimed hk
  obtain ⟨rfl, hf⟩ := h.fetch_of_drafted hk hdrafted
  obtain ⟨rs, hrs, hplan⟩ := hplans k.url k.path source hreach hpath hf
  exact hplan.libraries name ((Rewrite.asks_iff_of_requests hrs _).1 hr)

/-- A load that yields a path ends with it. -/
theorem loaded_of_concluded (h : Run c fetch entries world s log) (hplans : c.Plans fetch entries)
    {s₀ s' : State σ} {i : Nat} {t u : Task} {o : Outcome} {k : Claim} {urls : List String}
    (ht : s.tasks[i]? = some t) (hun : ∀ o, t.phase ≠ .finished o)
    (ha : t.demand.aim c = .ok (k, urls)) (hc : State.Concluded s₀ i t (.ok k.path) s')
    (hs₀ : s₀.tasks = s.tasks) (hu : s'.tasks[i]? = some u) (ho : u.phase = .finished o) :
    o = .loaded k.path := by
  have ht₀ : s₀.tasks[i]? = some t := by rw [hs₀, ht]
  cases hc with
  | plain _ =>
    rw [State.eq_of_enter hu ht₀] at ho
    exact (Phase.finished.inj ho).symm
  | @written path p target k' d e hawaits he =>
    have hself : ∃ v, (s₀.enter p (.rewriting k' { d with editor := e })).tasks[i]? = some v := by
      by_cases hp : p = i
      · subst hp
        exact ⟨_, State.enter_self ht₀ _⟩
      · rw [State.enter_ne s₀ hp]
        exact ⟨t, ht₀⟩
    obtain ⟨v, hv⟩ := hself
    rw [State.eq_of_enter hu hv] at ho
    exact (Phase.finished.inj ho).symm
  | @clashed path p target k' d f hawaits he =>
    have hrewriting : s.phase? p = some (.rewriting k' d) := by
      rw [← hawaits.rewriting, State.phase?, State.phase?, hs₀]
    exact absurd he
      (h.apply_of_awaits hplans ht hun ⟨hawaits.parent, hawaits.demand, hrewriting⟩ ha f)

/-- A step that ends a task ends it well: the task has not failed if another one has asked for it,
and if it has a draft, it fills its path. -/
theorem ends_well (h : Run c fetch entries world s log) (hplans : c.Plans fetch entries)
    (hcalm : Calm s log) {s' : State σ} {i : Nat} {ds : List Deed}
    (hturn : State.Turn c s i ds s') {t u : Task} {o : Outcome} (ht : s.tasks[i]? = some t)
    (hun : ∀ o, t.phase ≠ .finished o) (hu : s'.tasks[i]? = some u) (ho : u.phase = .finished o) :
    (∀ p, t.parent = some p → ∀ e, o ≠ .failed e) ∧
      ∀ path source, .drafted i path source ∈ log → ∃ text, .filled i path text ∈ ds := by
  have hsame : ∀ {t'}, s.tasks[i]? = some t' → t' = t := fun ht' =>
    Option.some.inj (ht'.symm.trans ht)
  -- Only a task with a draft has taken a text into it.
  have hdraftless : (∀ k d, t.phase ≠ .rewriting k d) → ∀ path source,
      .drafted i path source ∈ log → ∃ text, .filled i path text ∈ ds := by
    intro hne path source hd
    obtain ⟨k, d, hphase, -⟩ := h.chronicle.rewriting_of_drafted hd ht hun
    exact absurd hphase (hne k d)
  have hreported : ∀ e, o = t.demand.verdict e → (∀ p, t.parent = some p → e.isOwn = true) →
      ∀ p, t.parent = some p → ∀ e', o ≠ .failed e' := by
    rintro e rfl hown p hp e'
    obtain ⟨source, r, hd, -⟩ := h.request_of_parent hplans ht hp
    rw [hd, verdict_of_isOwn (hown p hp)]
    simp
  have hverdict : ∀ {s₀ : State σ} {e : Fault}, State.Concluded s₀ i t (.error e) s' →
      s₀.tasks = s.tasks → o = t.demand.verdict e := by
    intro s₀ e hc hs₀
    obtain ⟨o', ho', hu'⟩ := hc.self (by rw [hs₀, ht])
    rw [hu, Option.some.injEq] at hu'
    rw [hu'] at ho
    exact (Phase.finished.inj ho).symm.trans ho'
  have hphase : ∀ {p : Phase}, u = { t with phase := p } → p = .finished o := by
    rintro p rfl
    exact ho
  cases hturn with
  | rest _ =>
    rw [ht, Option.some.injEq] at hu
    exact absurd (hu ▸ ho) (hun o)
  | @broken t' e _ ht' htrouble hc =>
    cases hsame ht'
    have ho' := hverdict hc rfl
    cases hp : t.phase with
    | ready =>
      refine ⟨hreported e ho' fun p hpar => ?_, hdraftless (by simp [hp])⟩
      obtain ⟨source, r, hd, hlib⟩ := h.request_of_parent hplans ht hpar
      rw [hp] at htrouble
      cases htrouble with
      | refused ha => exact isOwn_of_aim hlib (hd ▸ ha)
    | fetching k urls errors =>
      refine ⟨hreported e ho' fun p hpar => ?_, hdraftless (by simp [hp])⟩
      rw [hp] at htrouble
      cases htrouble with
      | spent => rfl
    | rewriting k d =>
      rw [hp] at htrouble
      exact absurd htrouble (h.untroubled hplans hcalm ht hp)
    | finished o' => exact absurd hp (hun o')
  | answered ht' hp ha hs hc =>
    cases hsame ht'
    rw [h.loaded_of_concluded hplans ht hun ha hc rfl hu ho]
    exact ⟨fun _ _ _ => by simp, hdraftless (by simp [hp])⟩
  | claimed ht' hp ha hs => cases hphase (State.eq_of_enter hu ht)
  | retried ht' hp hr hurls => cases hphase (State.eq_of_enter hu ht)
  | lost ht' hp hr htold hc =>
    cases hsame ht'
    exact ⟨hreported _ (hverdict hc rfl) fun _ _ => rfl, hdraftless (by simp [hp])⟩
  | drafted ht' hp hr =>
    cases hphase (State.eq_of_enter hu (State.getElem?_offspring ht _ _))
  | proceeded ht' hp hd hrest hr =>
    cases hphase (State.eq_of_enter hu (State.getElem?_offspring ht _ _))
  | @settled t' k d text _ ht' hp hd hrest htext hs hc =>
    cases hsame ht'
    obtain ⟨-, urls, hk⟩ := h.chronicle.claimed_of_claim? ht (by rw [hp]; rfl)
    obtain ⟨t', k', urls', ht'', ha, hk', hpath⟩ := h.chronicle.claim hk rfl
    cases hsame ht''
    obtain ⟨-, rfl, -⟩ := h.chronicle.claim_unique hk hk' hpath
    rw [h.loaded_of_concluded hplans ht hun ha hc rfl hu ho]
    refine ⟨fun _ _ _ => by simp, fun path source hdrafted => ⟨text, ?_⟩⟩
    obtain ⟨rfl, -⟩ := h.fetch_of_drafted hk hdrafted
    exact List.mem_singleton_self _

/-- Every step keeps the invariant. -/
theorem calm_step (h : Run c fetch entries world s log) (hplans : c.Plans fetch entries)
    (hcalm : Calm s log) (i : Nat) : Calm (s.step c i) (log ++ s.deeds c i) := by
  have hturn := s.step_turn c i
  constructor
  · intro j p u e hu hp ho
    rcases hturn.ended hu ho with hold | ⟨rfl, t, ht, hun, hpar⟩
    · exact hcalm.unharmed j p u e hold hp ho
    · exact (h.ends_well hplans hcalm hturn ht hun hu ho).1 p (hpar ▸ hp) e rfl
  · intro j u o path source hmem hu ho
    rcases List.mem_append.1 hmem with hbefore | hd
    · rcases hturn.ended hu ho with hold | ⟨rfl, t, ht, hun, -⟩
      · obtain ⟨text, htext⟩ := hcalm.unraised j u o path source hbefore hold ho
        exact ⟨text, List.mem_append_left _ htext⟩
      · have hwell := h.ends_well hplans hcalm hturn ht hun hu ho
        obtain ⟨text, htext⟩ := hwell.2 path source hbefore
        exact ⟨text, List.mem_append_right _ htext⟩
    · -- A task that has just taken a text into a draft has not ended.
      obtain rfl : i = j := Option.some.inj ((hturn.place _ hd).symm)
      generalize s.deeds c i = ds at hturn hd
      generalize s.step c i = s' at hturn hu
      cases hturn with
      | rest _ => cases hd
      | broken _ _ _ => cases hd
      | answered _ _ _ _ _ => cases hd
      | claimed _ _ _ _ => simp at hd
      | retried _ _ _ _ => simp at hd
      | lost _ _ _ _ _ => simp at hd
      | proceeded _ _ _ _ _ => cases hd
      | settled _ _ _ _ _ _ _ => simp at hd
      | drafted ht hp hr =>
        rw [State.eq_of_enter hu (State.getElem?_offspring ht _ _)] at ho
        cases ho

/-- **main theorem**: in a run over files with plans, no task that another one waits for fails, and
no file is given up while it is rewritten. -/
theorem calm (h : Run c fetch entries world s log) (hplans : c.Plans fetch entries) :
    Calm s log := by
  obtain ⟨hreached, hanswers, hlib⟩ := h
  induction hreached with
  | start =>
    refine ⟨fun j p t e ht => ?_, fun i t o path source hd => by cases hd⟩
    simp [State.start] at ht
  | @move s log m hreached hm ih =>
    cases m with
    | step i => exact Run.calm_step ⟨hreached, hanswers, hlib⟩ hplans ih i
    | add path text =>
      have hmove := s.tasks_add c path text
      have hdeeds : ∀ {x : Deed}, x ∈ log ++ s.moveDeeds c (.add path text) →
          x ∈ log ∨ x = .added path text := by
        intro x hx
        refine (List.mem_append.1 hx).imp_right fun hx => ?_
        rw [State.moveDeeds] at hx
        split at hx
        · cases hx
        · exact List.mem_singleton.1 hx
      constructor
      · intro j p t e ht
        rw [hmove] at ht
        exact ih.unharmed j p t e ht
      · intro i t o path' source hd ht ho
        rw [hmove] at ht
        rcases hdeeds hd with hd | hd
        · obtain ⟨text', hfilled⟩ := ih.unraised i t o path' source hd ht ho
          exact ⟨text', List.mem_append_left _ hfilled⟩
        · cases hd
    | ask d =>
      have hlog : log ++ s.moveDeeds c (.ask d) = log := List.append_nil log
      have hold : ∀ (j : Nat) (t : Task) (o : Outcome),
          (s.move c (.ask d)).tasks[j]? = some t → t.phase = .finished o →
          s.tasks[j]? = some t := by
        intro j t o ht ho
        rcases State.tasks_of_ask ht with hold | ⟨-, rfl⟩
        · exact hold
        · cases ho
      rw [hlog]
      constructor
      · intro j p t e ht hp ho
        exact ih.unharmed j p t e (hold j t _ ht ho) hp ho
      · intro i t o path source hd ht ho
        exact ih.unraised i t o path source hd (hold i t o ht ho) ho

end Run

end Loading

end ModuleGraph
