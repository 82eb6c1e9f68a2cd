import ModuleGraph.Proofs.Loading.Chronicle
/-!
# Loading once

Tasks advance in any order, and loads are asked for at any time. By the chronicle of such a run each
path is taken by one load, and whoever asks for it later has nothing left to do.

Results:
* `Chronicle.fetchesFor_eq`, `Chronicle.fetchesFor_isPrefix`: what is fetched for a path;
* `State.step_of_taken`: a load for a path that is taken;
* `exactly_once`: **main theorem**: a path is claimed by one load, which fetches, drafts and fills
  it at most once; whoever asks later is answered with the path and causes no fetch.
-/

namespace ModuleGraph.Loading

variable {σ : Type}

/-- The URLs that are fetched for a path, in their order. -/
def fetchesFor (path : String) (log : List Deed) : List String :=
  (log.filter (·.path = path)).filterMap Deed.url?

theorem filterMap_url?_opening (i : Nat) (k : Claim) (urls : List String)
    (tried : List (String × Fault)) :
    (opening i k urls tried).filterMap Deed.url? = tried.map Prod.fst := by
  have hfst : (Deed.url? ∘ fun u : String × Fault => .fetched i k.path u.1 (.error u.2)) =
      some ∘ Prod.fst := rfl
  rw [opening, List.filterMap_cons_none rfl, List.filterMap_map, hfst, List.filterMap_eq_map]

theorem filterMap_url?_drafting (i : Nat) (k : Claim) (urls : List String)
    (tried : List (String × Fault)) (url : String) (source : Fetch.Source) :
    (drafting i k urls tried url source).filterMap Deed.url? = tried.map Prod.fst ++ [url] := by
  rw [drafting, List.filterMap_append, filterMap_url?_opening]
  rfl

/-- A task fetches the URLs that it has claimed its path for in their order, each once. -/
theorem Story.fetches {c : Setting σ} {store : ModuleStore} {i : Nat} {d : Demand} {p : Phase}
    {ds : List Deed} (h : Story c store i d p ds) :
    ds = [] ∨ ∃ k urls, .claimed i k urls ∈ ds ∧ d.aim c = .ok (k, urls) ∧
      ds.filterMap Deed.url? <+: urls := by
  have hcons : ∀ (a r : List String) (u : String), a ++ [u] <+: a ++ u :: r := fun a r u =>
    ⟨r, by simp⟩
  cases h with
  | ready => exact .inl rfl
  | refused ha => exact .inl rfl
  | answered ha hs ho => exact .inl rfl
  | fetching ha hurls hs =>
    refine .inr ⟨_, _, List.mem_cons_self, ha, ?_⟩
    rw [filterMap_url?_opening]
    exact List.prefix_append _ _
  | lost ha htried hs =>
    refine .inr ⟨_, _, List.mem_cons_self, ha, ?_⟩
    rw [filterMap_url?_opening]
    exact List.prefix_append _ _
  | rewriting ha hs =>
    refine .inr ⟨_, _, List.mem_cons_self, ha, ?_⟩
    rw [filterMap_url?_drafting]
    exact hcons _ _ _
  | dropped ha hs =>
    refine .inr ⟨_, _, List.mem_cons_self, ha, ?_⟩
    rw [filterMap_url?_drafting]
    exact hcons _ _ _
  | @settled k source text tried url urls o ha hs ho =>
    have hnil : [Deed.filled i k.path text].filterMap Deed.url? = [] := rfl
    refine .inr ⟨_, _, List.mem_cons_self, ha, ?_⟩
    rw [List.filterMap_append, filterMap_url?_drafting, hnil, List.append_nil]
    exact hcons _ _ _

/-- What is fetched for a path is fetched by the task that has claimed it. -/
theorem Chronicle.fetchesFor_eq {c : Setting σ} {world : σ} {s : State σ} {log : List Deed}
    (h : Chronicle c world s log) {i : Nat} {k : Claim} {urls : List String}
    (hk : .claimed i k urls ∈ log) : fetchesFor k.path log = (own i log).filterMap Deed.url? := by
  rw [fetchesFor, own, List.filterMap_filter, List.filterMap_filter]
  apply List.filterMap_congr
  intro x hx
  cases x with
  | claimed j k' urls' => simp [Deed.url?]
  | drafted j path source => simp [Deed.url?]
  | filled j path text => simp [Deed.url?]
  | added path text => simp [Deed.url?]
  | fetched j path url r =>
    have hiff : path = k.path ↔ j = i := by
      refine ⟨fun hpath => h.place_unique hx hk rfl rfl hpath, fun hji => ?_⟩
      subst hji
      obtain ⟨t, k', urls', ht, ha, -, hp⟩ := h.claim hx rfl
      obtain ⟨t', k'', urls'', ht', ha', -, hp'⟩ := h.claim hk rfl
      rw [ht, Option.some.injEq] at ht'
      subst ht'
      rw [ha, Except.ok.injEq, Prod.mk.injEq] at ha'
      rw [ha'.1] at hp
      exact hp.trans hp'.symm
    simp [Deed.path, Deed.place?, hiff]

/-- What is fetched for a path is the beginning of the URLs of the load that has claimed it. -/
theorem Chronicle.fetchesFor_isPrefix {c : Setting σ} {world : σ} {s : State σ} {log : List Deed}
    (h : Chronicle c world s log) (path : String) : fetchesFor path log = [] ∨
      ∃ i t k fallbacks, s.tasks[i]? = some t ∧ t.demand.aim c = .ok (k, k.url :: fallbacks) ∧
        .claimed i k (k.url :: fallbacks) ∈ log ∧ k.path = path ∧
        fetchesFor path log <+: k.url :: fallbacks := by
  by_cases hnil : fetchesFor path log = []
  · exact .inl hnil
  obtain ⟨url, hurl⟩ := List.exists_mem_of_ne_nil _ hnil
  obtain ⟨x, hx, hxu⟩ := List.mem_filterMap.1 hurl
  obtain ⟨hxl, hxp⟩ := List.mem_filter.1 hx
  have hpath : x.path = path := by simpa using hxp
  cases x with
  | claimed i k urls => cases hxu
  | drafted i p source => cases hxu
  | filled i p text => cases hxu
  | added p text => cases hxu
  | fetched i p url' r =>
    obtain ⟨t, k, urls, ht, ha, hk, hp⟩ := h.claim hxl rfl
    obtain ⟨fallbacks, rfl, -⟩ := Demand.aim_urls ha
    have hkp : k.path = path := hp.symm.trans hpath
    refine .inr ⟨i, t, k, fallbacks, ht, ha, hk, hkp, ?_⟩
    rw [← hkp, h.fetchesFor_eq hk]
    rcases (h.stories i t ht).fetches with hown | ⟨k', urls', -, ha', hpre⟩
    · rw [hown]
      exact List.nil_prefix
    · rw [ha, Except.ok.injEq, Prod.mk.injEq] at ha'
      rw [ha'.2]
      exact hpre

/-- A path with a text was added with it, or claimed first and filled later. -/
theorem Chronicle.claimed_before_filled {c : Setting σ} {world : σ} {s : State σ} {log : List Deed}
    (h : Chronicle c world s log) {path text : String}
    (htext : s.store.text? path = some (some text)) : .added path text ∈ log ∨
      ∃ (m n i : Nat) (k : Claim) (urls : List String), m < n ∧ k.path = path ∧
        log[m]? = some (.claimed i k urls) ∧ log[n]? = some (.filled i path text) := by
  rcases (h.texts path text).1 htext with hadded | ⟨i, hfilled⟩
  · exact .inl hadded
  · obtain ⟨n, hn⟩ := List.mem_iff_getElem?.1 hfilled
    obtain ⟨m, hm, k, urls, hk, hp⟩ := h.order n i path text hn
    exact .inr ⟨m, n, i, k, urls, hm, hp, hk, hn⟩

/-- The store accepts the text of a draft. -/
theorem Chronicle.fill_of_rewriting {c : Setting σ} {world : σ} {s : State σ} {log : List Deed}
    (h : Chronicle c world s log) {i : Nat} {k : Claim} {d : Draft}
    (hp : s.phase? i = some (.rewriting k d)) (text : String) :
    s.store.fill k.path text = .ok (s.store.filled k.path text) := by
  obtain ⟨t, ht, hphase⟩ := State.tasks_of_phase? hp
  obtain ⟨hreserved, -⟩ := h.claimed_of_claim? ht (by rw [hphase]; rfl)
  exact ModuleStore.fill_of_reserved hreserved text

/-- A load for a path that is taken is answered with it at once. -/
theorem State.step_of_taken {c : Setting σ} {s : State σ} {i : Nat} {t : Task} {k : Claim}
    {urls : List String} (ht : s.tasks[i]? = some t) (hp : t.phase = .ready)
    (ha : t.demand.aim c = .ok (k, urls)) (hs : s.store.contains k.path = true) :
    s.step c i = s.conclude i (.ok k.path) ∧ (s.step c i).world = s.world ∧
      (s.step c i).store = s.store ∧
      ∃ o, t.demand.Yields k.path o ∧ (s.step c i).outcome? i = some o := by
  have hstep : s.step c i = s.conclude i (.ok k.path) := by
    simp [State.step, ht, hp, State.begin_eq, ha, hs]
  have hc := State.conclude_concluded ht (.ok k.path)
  obtain ⟨o, ho, hu⟩ := hc.self ht
  refine ⟨hstep, hstep ▸ hc.world, hstep ▸ hc.store, o, ho, ?_⟩
  rw [hstep, State.outcome?, hu]
  rfl

/-- That each path is loaded once, as the log has it. -/
structure OnceOnly (c : Setting σ) (world : σ) (s : State σ) (log : List Deed) : Prop where
  /-- No two loads claim one path. -/
  claims : ∀ i j k k' urls urls', .claimed i k urls ∈ log → .claimed j k' urls' ∈ log →
    k.path = k'.path → i = j ∧ k = k' ∧ urls = urls'
  /-- The paths of the store are those that were claimed or added, each of them once. -/
  paths : s.store.paths = log.filterMap Deed.taken? ∧ (log.filterMap Deed.taken?).Nodup
  /-- What is fetched for a path is the beginning of one sequence of URLs, that of the load which
  has claimed the path: the URL of the module, then its fallbacks. -/
  fetches : ∀ path, fetchesFor path log = [] ∨ ∃ i t k fallbacks,
    s.tasks[i]? = some t ∧ t.demand.aim c = .ok (k, k.url :: fallbacks) ∧
      .claimed i k (k.url :: fallbacks) ∈ log ∧ k.path = path ∧
      fetchesFor path log <+: k.url :: fallbacks
  /-- The world has seen no other fetch. -/
  world_eq : s.world = (log.filterMap Deed.url?).foldl (fun w url => (c.fetch url w).2) world
  /-- The text of a path is taken into a draft once at most. -/
  drafts : (log.filterMap Deed.drafted?).Nodup
  /-- A path is told to be loaded once at most, namely when it is filled. -/
  told : s.told.Nodup ∧ s.told = log.filterMap Deed.filled?
  /-- A load for a path that is taken is answered with it at once: it fetches nothing, and the
  store stays as it is. -/
  answers : ∀ i t k urls, s.tasks[i]? = some t → t.phase = .ready →
    t.demand.aim c = .ok (k, urls) → s.store.contains k.path = true →
    s.step c i = s.conclude i (.ok k.path) ∧ (s.step c i).world = s.world ∧
      (s.step c i).store = s.store ∧
      ∃ o, t.demand.Yields k.path o ∧ (s.step c i).outcome? i = some o
  /-- A path with a text was added with it, or claimed first and filled later. -/
  settled : ∀ path text, s.store.text? path = some (some text) → .added path text ∈ log ∨
    ∃ (m n i : Nat) (k : Claim) (urls : List String), m < n ∧ k.path = path ∧
      log[m]? = some (.claimed i k urls) ∧ log[n]? = some (.filled i path text)
  /-- The store accepts whatever text a draft ends in. -/
  fills : ∀ i k d text, s.phase? i = some (.rewriting k d) →
    s.store.fill k.path text = .ok (s.store.filled k.path text)

/-- **main theorem**: whatever is asked for, and in whatever order the tasks advance, each path is
loaded once. -/
theorem exactly_once (c : Setting σ) (world : σ) (moves : List Move) :
    OnceOnly c world ((State.start world).play c moves) ((State.start world).log c moves) := by
  have hreached : Reached c world (fun _ => True) ((State.start world).play c moves)
      ((State.start world).log c moves) := reached_play c world fun _ _ => trivial
  have h := hreached.chronicle
  generalize (State.start world).play c moves = s at h ⊢
  generalize (State.start world).log c moves = log at h ⊢
  constructor
  case claims =>
    intro i j k k' urls urls' hi hj hp
    exact h.claim_unique hi hj hp
  case paths =>
    refine ⟨h.taken.symm, ?_⟩
    rw [h.taken]
    exact s.store.paths_nodup
  case fetches => exact h.fetchesFor_isPrefix
  case world_eq => exact h.fetches
  case drafts => exact h.drafts
  case told =>
    refine ⟨?_, h.loaded⟩
    rw [State.told, h.loaded]
    exact h.fills
  case answers =>
    intro i t k urls ht hp ha hs
    exact State.step_of_taken ht hp ha hs
  case settled =>
    intro path text htext
    exact h.claimed_before_filled htext
  case fills =>
    intro i k d text hp
    exact h.fill_of_rewriting hp text

end ModuleGraph.Loading
