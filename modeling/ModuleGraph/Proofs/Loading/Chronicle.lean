import ModuleGraph.Proofs.Loading.Story
/-!
# The chronicle of a run

`Chronicle` is the invariant that ties the log of a run to its state: the deeds of each task follow
the course of one load, and nothing else takes a path, gives it a text, or is told to be loaded.

Results:
* `Chronicle.claim_unique`: a path is claimed once;
* `Chronicle.place_unique`: a path belongs to the task that does something about it;
* `Reached.chronicle`: **main theorem**: the invariant holds in every state that can be reached.
-/

namespace ModuleGraph.Loading

variable {σ : Type}

/-- What ties the log to the state. -/
structure Chronicle (c : Setting σ) (world : σ) (s : State σ) (log : List Deed) : Prop where
  /-- The deeds of each task follow the course of one load. -/
  stories : ∀ i t, s.tasks[i]? = some t → Story c s.store i t.demand t.phase (own i log)
  actors : ∀ d ∈ log, ∀ i, d.place? = some i → i < s.tasks.length
  /-- Nothing else takes a path. -/
  taken : log.filterMap Deed.taken? = s.store.paths
  /-- Nothing else gives a path its text. -/
  texts : ∀ path text, s.store.text? path = some (some text) ↔
    .added path text ∈ log ∨ ∃ i, .filled i path text ∈ log
  /-- Nothing else is told to be loaded. -/
  loaded : s.notices.filterMap Notice.loaded? = log.filterMap Deed.filled?
  /-- Nothing else is fetched. -/
  fetches : s.world = (log.filterMap Deed.url?).foldl (fun w url => (c.fetch url w).2) world
  replies : ∀ i path url r, .fetched i path url r ∈ log → ∃ w, (c.fetch url w).1 = r
  drafts : (log.filterMap Deed.drafted?).Nodup
  fills : (log.filterMap Deed.filled?).Nodup
  /-- A path is claimed before it is filled. -/
  order : ∀ (n i : Nat) (path text : String), log[n]? = some (Deed.filled i path text) →
    ∃ m < n, ∃ k urls, log[m]? = some (Deed.claimed i k urls) ∧ k.path = path

theorem eq_of_nodup_filterMap {α β : Type} {f : α → Option β} {l : List α} {a b : α} {x : β}
    (h : (l.filterMap f).Nodup) (ha : a ∈ l) (hb : b ∈ l) (hfa : f a = some x)
    (hfb : f b = some x) : a = b := by
  induction l with
  | nil => cases ha
  | cons y r ih =>
    have hr : (r.filterMap f).Nodup := h.sublist ((List.sublist_cons_self y r).filterMap f)
    have hy : ∀ b ∈ r, f b = some x → f y ≠ some x := by
      intro b hb hfb hfy
      rw [List.filterMap_cons_some hfy] at h
      exact (List.nodup_cons.1 h).1 (List.mem_filterMap.2 ⟨b, hb, hfb⟩)
    rcases List.mem_cons.1 ha with rfl | har
    · rcases List.mem_cons.1 hb with rfl | hbr
      · rfl
      · exact absurd hfa (hy b hbr hfb)
    · rcases List.mem_cons.1 hb with rfl | hbr
      · exact absurd hfb (hy a har hfa)
      · exact ih hr har hbr

namespace Chronicle

variable {c : Setting σ} {world : σ} {s : State σ} {log : List Deed}

/-- Whoever does something about a path has claimed it. -/
theorem claim (h : Chronicle c world s log) {x : Deed} {i : Nat} (hx : x ∈ log)
    (hi : x.place? = some i) : ∃ t k urls, s.tasks[i]? = some t ∧ t.demand.aim c = .ok (k, urls) ∧
      .claimed i k urls ∈ log ∧ x.path = k.path := by
  obtain ⟨t, ht⟩ : ∃ t, s.tasks[i]? = some t :=
    ⟨_, List.getElem?_eq_getElem (h.actors x hx i hi)⟩
  obtain ⟨k, urls, hk, ha, hpath⟩ := (h.stories i t ht).claim (mem_own.2 ⟨hx, hi⟩)
  exact ⟨t, k, urls, ht, ha, (mem_own.1 hk).1, hpath⟩

/-- A path is claimed once. -/
theorem claim_unique (h : Chronicle c world s log) {i j : Nat} {k k' : Claim}
    {urls urls' : List String} (hi : .claimed i k urls ∈ log) (hj : .claimed j k' urls' ∈ log)
    (hpath : k.path = k'.path) : i = j ∧ k = k' ∧ urls = urls' := by
  have hnodup : (log.filterMap Deed.taken?).Nodup := by
    rw [h.taken]
    exact s.store.paths_nodup
  have heq := eq_of_nodup_filterMap hnodup hi hj (x := k.path) rfl (by rw [hpath]; rfl)
  cases heq
  exact ⟨rfl, rfl, rfl⟩

/-- A path belongs to the task that does something about it. -/
theorem place_unique (h : Chronicle c world s log) {x y : Deed} {i j : Nat} (hx : x ∈ log)
    (hy : y ∈ log) (hi : x.place? = some i) (hj : y.place? = some j) (hpath : x.path = y.path) :
    i = j := by
  obtain ⟨t, k, urls, -, -, hk, hp⟩ := h.claim hx hi
  obtain ⟨t', k', urls', -, -, hk', hp'⟩ := h.claim hy hj
  exact (h.claim_unique hk hk' (by rw [← hp, hpath, hp'])).1

theorem taken_of_mem (h : Chronicle c world s log) {x : Deed} (hx : x ∈ log) :
    s.store.contains x.path = true := by
  have hmem : ∀ y : Deed, y ∈ log → y.taken? = some x.path → s.store.contains x.path = true := by
    intro y hy hp
    rw [ModuleStore.contains_iff_mem, ← h.taken]
    exact List.mem_filterMap.2 ⟨y, hy, hp⟩
  cases hi : x.place? with
  | none =>
    cases x with
    | added path text => exact hmem _ hx rfl
    | claimed i k urls => cases hi
    | fetched i path url r => cases hi
    | drafted i path source => cases hi
    | filled i path text => cases hi
  | some i =>
    obtain ⟨t, k, urls, -, -, hk, hp⟩ := h.claim hx hi
    exact hmem _ hk (by rw [hp]; rfl)

/-- The story of the task that advances goes on with the deeds of the step. -/
theorem story_self (h : Chronicle c world s log) {s' : State σ} {i : Nat} {ds : List Deed}
    (hturn : State.Turn c s i ds s') {u : Task} (hu : s'.tasks[i]? = some u) :
    Story c s'.store i u.demand u.phase (own i log ++ ds) := by
  have hstory : ∀ {t}, s.tasks[i]? = some t → Story c s.store i t.demand t.phase (own i log) :=
    fun ht => h.stories i _ ht
  generalize own i log = l at hstory ⊢
  cases hturn with
  | rest h =>
    rw [List.append_nil]
    exact hstory hu
  | @broken t e _ ht htr hc =>
    obtain ⟨o, rfl, ho⟩ := hc.self ht
    rw [hu, Option.some.injEq] at ho
    rw [ho, hc.store, List.append_nil]
    exact (hstory ht).broken htr
  | @answered t k urls _ ht hp ha hs hc =>
    obtain ⟨o, hy, ho⟩ := hc.self ht
    rw [hu, Option.some.injEq] at ho
    have hst := hstory ht
    rw [hp] at hst
    cases hst
    rw [ho, hc.store]
    exact .answered ha hs hy
  | @claimed t k urls ht hp ha hs =>
    have hst := hstory ht
    rw [hp] at hst
    cases hst
    rw [State.eq_of_enter hu ht]
    obtain ⟨fallbacks, hurls, -⟩ := Demand.aim_urls ha
    have hall : t.demand.aim c = .ok (k, ([] : List (String × Fault)).map Prod.fst ++ urls) := ha
    exact .fetching hall (by simp [hurls]) (by simp)
  | @retried t k url urls errors errors' e ht hp hr hurls =>
    have hst := hstory ht
    rw [hp] at hst
    rw [State.eq_of_enter hu ht]
    exact hst.retried hurls e errors'
  | @lost t k url urls errors e cause told _ ht hp hr htold hc =>
    obtain ⟨o, rfl, ho⟩ := hc.self ht
    rw [hu, Option.some.injEq] at ho
    have hst := hstory ht
    rw [hp] at hst
    rw [ho, hc.store]
    exact hst.given_up e cause
  | @drafted t k url urls errors source ht hp hr =>
    have hst := hstory ht
    rw [hp] at hst
    rw [State.eq_of_enter hu (State.getElem?_offspring ht i _)]
    cases hst with
    | fetching ha _ hs => exact .rewriting ha hs
  | @proceeded t k d tree requests ht hp hd hrest hr =>
    have hst := hstory ht
    rw [hp] at hst
    rw [State.eq_of_enter hu (State.getElem?_offspring ht i _), List.append_nil]
    cases hst with
    | rewriting ha hs => exact .rewriting ha hs
  | @settled t k d text _ ht hp hd hrest htext hs hc =>
    obtain ⟨o, hy, ho⟩ := hc.self ht
    rw [hu, Option.some.injEq] at ho
    have hst := hstory ht
    rw [hp] at hst
    rw [ho, hc.store]
    cases hst with
    | rewriting ha _ => exact .settled ha (by simp) hy

/-- A task with a phase that holds a claim has made that claim. -/
theorem claimed_of_claim? (h : Chronicle c world s log) {i : Nat} {t : Task} {k : Claim}
    (ht : s.tasks[i]? = some t) (hk : t.phase.claim? = some k) :
    s.store.text? k.path = some none ∧ ∃ urls, .claimed i k urls ∈ log := by
  have hst := h.stories i t ht
  have hmem : ∀ {x}, x ∈ own i log → x ∈ log := fun hx => (mem_own.1 hx).1
  generalize own i log = l at hst hmem
  generalize t.demand = d at hst
  generalize t.phase = p at hst hk
  cases hst with
  | ready => cases hk
  | refused ha => cases hk
  | answered ha hs ho => cases hk
  | lost ha htried hs => cases hk
  | dropped ha hs => cases hk
  | settled ha hs ho => cases hk
  | fetching ha hurls hs =>
    cases hk
    exact ⟨hs, _, hmem List.mem_cons_self⟩
  | rewriting ha hs =>
    cases hk
    exact ⟨hs, _, hmem List.mem_cons_self⟩

/-- A draft is made of the text that was fetched for it. -/
theorem drafted_of_rewriting (h : Chronicle c world s log) {i : Nat} {t : Task} {k : Claim}
    {d : Draft} (ht : s.tasks[i]? = some t) (hp : t.phase = .rewriting k d) :
    .drafted i k.path d.source ∈ log := by
  have hst := h.stories i t ht
  rw [hp] at hst
  have hmem : ∀ {x}, x ∈ own i log → x ∈ log := fun hx => (mem_own.1 hx).1
  generalize own i log = l at hst hmem
  cases hst with
  | rewriting ha hs => exact hmem (by simp [drafting])

/-- A task that has filled its path has ended. -/
theorem finished_of_filled (h : Chronicle c world s log) {i : Nat} {path text : String}
    (hd : .filled i path text ∈ log) :
    ∃ t o, s.tasks[i]? = some t ∧ t.phase = .finished o ∧ t.demand.Yields path o := by
  obtain ⟨t, k, urls, ht, ha, hk, hpath⟩ := h.claim hd rfl
  have hst := h.stories i t ht
  have hown := mem_own.2 ⟨hd, rfl⟩
  generalize own i log = l at hst hown
  generalize hphase : t.phase = p at hst
  cases hst with
  | ready => cases hown
  | refused ha => cases hown
  | answered ha hs ho => cases hown
  | fetching ha hurls hs => simp [opening] at hown
  | lost ha htried hs => simp [opening] at hown
  | rewriting ha hs => simp [drafting, opening] at hown
  | dropped ha hs => simp [drafting, opening] at hown
  | settled ha hs ho =>
    simp [drafting, opening] at hown
    exact ⟨t, _, ht, hphase, hown.1 ▸ ho⟩

/-- A path is filled by the task that has claimed it. -/
theorem claimed_of_filled (h : Chronicle c world s log) {s' : State σ} {i j : Nat}
    {ds : List Deed} (hturn : State.Turn c s i ds s') {path text : String}
    (hd : .filled j path text ∈ ds) :
    j = i ∧ ∃ k urls, .claimed i k urls ∈ log ∧ k.path = path := by
  cases hturn with
  | rest h => cases hd
  | broken ht h hc => cases hd
  | answered ht hp ha hs hc => cases hd
  | claimed ht hp ha hs => simp at hd
  | retried ht hp hr hurls => simp at hd
  | lost ht hp hr htold hc => simp at hd
  | drafted ht hp hr => simp at hd
  | proceeded ht hp hd' hrest hr => cases hd
  | @settled t k d text' _ ht hp hd' hrest htext hs hc =>
    simp only [List.mem_singleton, Deed.filled.injEq] at hd
    obtain ⟨-, urls, hk⟩ := h.claimed_of_claim? ht (by rw [hp]; rfl)
    exact ⟨hd.1, k, urls, hk, hd.2.1.symm⟩

/-- The stories of the other tasks are left alone. -/
theorem story_other (h : Chronicle c world s log) {s' : State σ} {i j : Nat} {ds : List Deed}
    (hturn : State.Turn c s i ds s') (hj : j ≠ i) {u : Task} (hu : s'.tasks[j]? = some u) :
    Story c s'.store j u.demand u.phase (own j (log ++ ds)) := by
  obtain ⟨new, heff, -⟩ := hturn.effect
  have hown : own j (log ++ ds) = own j log := by
    refine own_append_of_ne fun d hd hp => hj ?_
    have := hturn.place d hd
    rw [hp] at this
    exact Option.some.inj this
  rw [hown]
  rcases hturn.other hj hu with ⟨v, hv, hkept⟩ | ⟨hlen, hready, -⟩
  · refine ((h.stories j v hv).frame (fun k urls hk => ?_) fun path => heff.contains).kept hkept
    have hmem := (mem_own.1 hk).1
    refine heff.text?_eq (h.taken_of_mem hmem) fun i' text hd => hj ?_
    obtain ⟨-, k', urls', hk', hpath⟩ := h.claimed_of_filled hturn hd
    exact (h.claim_unique hmem hk' hpath.symm).1
  · have hnil : own j log = [] := by
      apply List.filter_eq_nil_iff.2
      intro d hd hp
      exact Nat.lt_irrefl _ (Nat.lt_of_lt_of_le (h.actors d hd j (by simpa using hp)) hlen)
    rw [hnil, hready]
    exact .ready

/-- A text is not taken into a draft again. -/
theorem drafts_turn (h : Chronicle c world s log) {s' : State σ} {i : Nat} {ds : List Deed}
    (hturn : State.Turn c s i ds s') : ((log ++ ds).filterMap Deed.drafted?).Nodup := by
  have hsame : ds.filterMap Deed.drafted? = [] → ((log ++ ds).filterMap Deed.drafted?).Nodup := by
    intro hnil
    rw [List.filterMap_append, hnil, List.append_nil]
    exact h.drafts
  cases hturn with
  | rest _ => exact hsame rfl
  | broken _ _ _ => exact hsame rfl
  | answered _ _ _ _ _ => exact hsame rfl
  | claimed _ _ _ _ => exact hsame rfl
  | retried _ _ _ _ => exact hsame rfl
  | lost _ _ _ _ _ => exact hsame rfl
  | proceeded _ _ _ _ _ => exact hsame rfl
  | settled _ _ _ _ _ _ _ => exact hsame rfl
  | @drafted t k url urls errors source ht hp hr =>
    rw [List.filterMap_append]
    refine List.nodup_append.2 ⟨h.drafts, List.nodup_singleton _, ?_⟩
    rintro path hpath _ hk rfl
    obtain ⟨x, hx, hxp⟩ := List.mem_filterMap.1 hpath
    have hk' : path = k.path := List.mem_singleton.1 hk
    cases x with
    | claimed j k' urls' => cases hxp
    | fetched j p url' r => cases hxp
    | filled j p text => cases hxp
    | added p text => cases hxp
    | drafted j p source' =>
      -- The draft was made by the task that has the claim, which is still fetching.
      cases hxp
      obtain ⟨-, urls', hclaim⟩ := h.claimed_of_claim? ht (by rw [hp]; rfl)
      have hij : j = i := h.place_unique hx hclaim rfl rfl hk'
      subst hij
      have hst := h.stories j t ht
      rw [hp] at hst
      have hown := mem_own.2 ⟨hx, rfl⟩
      generalize own j log = l at hst hown
      cases hst
      simp [opening] at hown

/-- A path is claimed before it is filled. -/
theorem order_turn (h : Chronicle c world s log) {s' : State σ} {i : Nat} {ds : List Deed}
    (hturn : State.Turn c s i ds s') {n j : Nat} {path text : String}
    (hn : (log ++ ds)[n]? = some (.filled j path text)) :
    ∃ m < n, ∃ k urls, (log ++ ds)[m]? = some (.claimed j k urls) ∧ k.path = path := by
  by_cases hlt : n < log.length
  · rw [List.getElem?_append_left hlt] at hn
    obtain ⟨m, hm, k, urls, hk, hp⟩ := h.order n j path text hn
    exact ⟨m, hm, k, urls, by rw [List.getElem?_append_left (Nat.lt_trans hm hlt), hk], hp⟩
  · rw [List.getElem?_append_right (Nat.le_of_not_lt hlt)] at hn
    obtain ⟨rfl, k, urls, hk, hp⟩ := h.claimed_of_filled hturn (List.mem_of_getElem? hn)
    obtain ⟨m, hm⟩ := List.mem_iff_getElem?.1 hk
    have hm' : m < log.length := (List.getElem?_eq_some_iff.1 hm).1
    exact ⟨m, Nat.lt_of_lt_of_le hm' (Nat.le_of_not_lt hlt), k, urls,
      by rw [List.getElem?_append_left hm', hm], hp⟩

/-- A path is not filled again. -/
theorem fills_effect (h : Chronicle c world s log) {ds : List Deed} {world' : σ}
    {store : ModuleStore} {new : List String} (heff : Effect c s ds world' store new) :
    ((log ++ ds).filterMap Deed.filled?).Nodup := by
  have hsame : ds.filterMap Deed.filled? = [] → ((log ++ ds).filterMap Deed.filled?).Nodup := by
    intro hnil
    rw [List.filterMap_append, hnil, List.append_nil]
    exact h.fills
  cases heff with
  | nothing => exact hsame rfl
  | claimed _ => exact hsame rfl
  | missed _ => exact hsame rfl
  | drafted _ => exact hsame rfl
  | added _ => exact hsame rfl
  | @filled i path text hs =>
    rw [List.filterMap_append]
    refine List.nodup_append.2 ⟨h.fills, List.nodup_singleton _, ?_⟩
    rintro p hp _ hp' rfl
    obtain ⟨x, hx, hxp⟩ := List.mem_filterMap.1 hp
    have hpath : p = path := List.mem_singleton.1 hp'
    subst hpath
    cases x with
    | claimed j k urls => cases hxp
    | fetched j q url r => cases hxp
    | drafted j q source => cases hxp
    | added q text => cases hxp
    | filled j q text' =>
      cases hxp
      rw [(h.texts p text').2 (.inr ⟨j, hx⟩)] at hs
      cases hs

/-- The invariant is kept by what a move does to the world and the store, once the parts that look
at the tasks are known to be kept. -/
theorem extend (h : Chronicle c world s log) {s' : State σ} {ds : List Deed} {new : List String}
    (heff : Effect c s ds s'.world s'.store new) (htold : s'.told = s.told ++ new)
    (hstories : ∀ i t, s'.tasks[i]? = some t →
      Story c s'.store i t.demand t.phase (own i (log ++ ds)))
    (hactors : ∀ d ∈ log ++ ds, ∀ i, d.place? = some i → i < s'.tasks.length)
    (hdrafts : ((log ++ ds).filterMap Deed.drafted?).Nodup)
    (horder : ∀ (n i : Nat) (path text : String),
      (log ++ ds)[n]? = some (Deed.filled i path text) →
      ∃ m < n, ∃ k urls, (log ++ ds)[m]? = some (Deed.claimed i k urls) ∧ k.path = path) :
    Chronicle c world s' (log ++ ds) where
  stories := hstories
  actors := hactors
  taken := by rw [List.filterMap_append, heff.paths, h.taken]
  texts := by
    intro path text
    rw [heff.text?_iff, h.texts]
    simp only [List.mem_append, exists_or]
    exact or_or_or_comm
  loaded := by
    rw [List.filterMap_append, ← heff.filled?, ← h.loaded]
    exact htold
  fetches := by rw [List.filterMap_append, List.foldl_append, ← h.fetches, heff.fetches]
  replies := by
    intro i path url r hd
    rcases List.mem_append.1 hd with hd | hd
    · exact h.replies i path url r hd
    · exact ⟨s.world, heff.reply hd⟩
  drafts := hdrafts
  fills := h.fills_effect heff
  order := horder

/-- The story of a task that is there, or has just been asked for, goes on after deeds of which
none is a task's. -/
theorem extend_outside (h : Chronicle c world s log) {s' : State σ} {ds : List Deed}
    {new : List String} (heff : Effect c s ds s'.world s'.store new)
    (htold : s'.told = s.told ++ new) (hds : ∀ d ∈ ds, ∃ path text, d = .added path text)
    (hlen : s.tasks.length ≤ s'.tasks.length)
    (htasks : ∀ i u, s'.tasks[i]? = some u →
      s.tasks[i]? = some u ∨ s.tasks.length ≤ i ∧ u.phase = .ready) :
    Chronicle c world s' (log ++ ds) := by
  have hplace : ∀ d ∈ ds, ∀ i, d.place? ≠ some i := by
    intro d hd i hi
    obtain ⟨path, text, rfl⟩ := hds d hd
    cases hi
  have hfilled : ∀ i path text, .filled i path text ∉ ds := by
    intro i path text hd
    obtain ⟨_, _, hadded⟩ := hds _ hd
    cases hadded
  have hown : ∀ i, own i (log ++ ds) = own i log := fun i =>
    own_append_of_ne fun d hd => hplace d hd i
  refine h.extend heff htold (fun i u hu => ?_) (fun d hd i hi => ?_) ?_ ?_
  · rw [hown]
    rcases htasks i u hu with hu' | ⟨hlen', hready⟩
    · exact (h.stories i u hu').frame
        (fun k urls hk => heff.text?_eq (h.taken_of_mem (mem_own.1 hk).1) (hfilled · k.path))
        fun path => heff.contains
    · have hnil : own i log = [] := by
        apply List.filter_eq_nil_iff.2
        intro d hd hp
        exact Nat.lt_irrefl _ (Nat.lt_of_lt_of_le (h.actors d hd i (by simpa using hp)) hlen')
      rw [hnil, hready]
      exact .ready
  · rcases List.mem_append.1 hd with hd | hd
    · exact Nat.lt_of_lt_of_le (h.actors d hd i hi) hlen
    · exact absurd hi (hplace d hd i)
  · have hnil : ds.filterMap Deed.drafted? = [] := by
      apply List.filterMap_eq_nil_iff.2
      intro d hd
      obtain ⟨path, text, rfl⟩ := hds d hd
      rfl
    rw [List.filterMap_append, hnil, List.append_nil]
    exact h.drafts
  · intro n i path text hn
    by_cases hlt : n < log.length
    · rw [List.getElem?_append_left hlt] at hn
      obtain ⟨m, hm, k, urls, hk, hp⟩ := h.order n i path text hn
      exact ⟨m, hm, k, urls, by rw [List.getElem?_append_left (Nat.lt_trans hm hlt), hk], hp⟩
    · rw [List.getElem?_append_right (Nat.le_of_not_lt hlt)] at hn
      exact absurd (List.mem_of_getElem? hn) (hfilled i path text)

/-- Every move keeps the invariant. -/
theorem move (h : Chronicle c world s log) (m : Move) :
    Chronicle c world (s.move c m) (log ++ s.moveDeeds c m) := by
  obtain ⟨new, heff, htold⟩ := s.move_effect c m
  cases m with
  | step i =>
    have hturn := s.step_turn c i
    refine h.extend heff htold (fun j u hu => ?_) (fun d hd j hj => ?_) (h.drafts_turn hturn)
      fun n j path text => h.order_turn hturn
    · by_cases hj : j = i
      · subst hj
        rw [State.moveDeeds, own_append_of_place hturn.place]
        exact h.story_self hturn hu
      · exact h.story_other hturn hj hu
    · rcases List.mem_append.1 hd with hd | hd
      · exact Nat.lt_of_lt_of_le (h.actors d hd j hj) hturn.length_le
      · have hij : i = j := Option.some.inj ((hturn.place d hd).symm.trans hj)
        exact hij ▸ Nat.lt_of_lt_of_le (hturn.lt_of_mem hd) hturn.length_le
  | ask d =>
    refine h.extend_outside heff htold (fun x hx => by cases hx) (by simp [State.move, State.ask])
      fun i u hu => ?_
    rcases State.tasks_of_ask hu with hold | ⟨hle, rfl⟩
    · exact .inl hold
    · exact .inr ⟨hle, rfl⟩
  | add path text =>
    have htasks := s.tasks_add c path text
    refine h.extend_outside heff htold (fun x hx => ?_) (Nat.le_of_eq (by rw [htasks]))
      fun i u hu => .inl (htasks ▸ hu)
    rw [State.moveDeeds] at hx
    split_ifs at hx
    · cases hx
    · exact ⟨path, text, List.mem_singleton.1 hx⟩

end Chronicle

theorem chronicle_start (c : Setting σ) (world : σ) : Chronicle c world (.start world) [] where
  stories := by
    intro i t ht
    simp [State.start] at ht
  actors := by
    intro d hd
    cases hd
  taken := rfl
  texts := by simp [State.start]
  loaded := rfl
  fetches := rfl
  replies := by
    intro i path url r hd
    cases hd
  drafts := List.nodup_nil
  fills := List.nodup_nil
  order := by simp

/-- The invariant holds in every state that can be reached. -/
theorem Reached.chronicle {c : Setting σ} {world : σ} {allowed : Move → Prop} {s : State σ}
    {log : List Deed} (h : Reached c world allowed s log) : Chronicle c world s log := by
  induction h with
  | start => exact chronicle_start c world
  | move h hm ih => exact ih.move _

end ModuleGraph.Loading
