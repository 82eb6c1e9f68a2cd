import ModuleGraph.Proofs.Loading.Move
/-!
# The course of one load

The deeds of one task, in their order: it claims a path, fetches one URL after the other until one
of them has a text, makes a draft of the text, and fills the path. `Story` has one constructor for
each phase that the task may have come to.

Results:
* `Story.frame`, `Story.kept`: deeds of others change nothing in it;
* `Story.claim`: whoever has done something has claimed a path first.
-/

namespace ModuleGraph.Loading

variable {σ : Type}

/-- The deeds of a task that has claimed a path and has tried some of the URLs in vain. -/
def opening (i : Nat) (k : Claim) (urls : List String) (tried : List (String × Fault)) :
    List Deed :=
  .claimed i k urls :: tried.map fun u => .fetched i k.path u.1 (.error u.2)

/-- The deeds of a task up to its draft: the text came from `url`. -/
def drafting (i : Nat) (k : Claim) (urls : List String) (tried : List (String × Fault))
    (url : String) (source : Fetch.Source) : List Deed :=
  opening i k urls tried ++ [.fetched i k.path url (.ok source), .drafted i k.path source]

theorem drafted_mem_drafting_iff {i : Nat} {k : Claim} {urls : List String}
    {tried : List (String × Fault)} {url path : String} {source source' : Fetch.Source} :
    .drafted i path source' ∈ drafting i k urls tried url source ↔
      path = k.path ∧ source' = source := by
  simp [drafting, opening]

/-- The deeds of the task at `i`, which was asked for `d`, when it has come to a phase. A path
that the task has claimed stays reserved until the task fills it. -/
inductive Story (c : Setting σ) (store : ModuleStore) (i : Nat) (d : Demand) :
    Phase → List Deed → Prop
  | ready : Story c store i d .ready []
  | refused {e : Fault} (ha : d.aim c = .error e) : Story c store i d (.finished (d.verdict e)) []
  | answered {k : Claim} {urls : List String} {o : Outcome} (ha : d.aim c = .ok (k, urls))
      (hs : store.contains k.path = true) (ho : d.Yields k.path o) :
      Story c store i d (.finished o) []
  | fetching {k : Claim} {tried : List (String × Fault)} {urls errors : List String}
      (ha : d.aim c = .ok (k, tried.map Prod.fst ++ urls)) (hurls : urls ≠ [])
      (hs : store.text? k.path = some none) :
      Story c store i d (.fetching k urls errors) (opening i k (tried.map Prod.fst ++ urls) tried)
  | lost {k : Claim} {tried : List (String × Fault)} {urls : List String} {cause : Fault}
      (ha : d.aim c = .ok (k, tried.map Prod.fst ++ urls)) (htried : tried ≠ [])
      (hs : store.text? k.path = some none) :
      Story c store i d (.finished (d.verdict (.module k.url cause)))
        (opening i k (tried.map Prod.fst ++ urls) tried)
  | rewriting {k : Claim} {w : Draft} {tried : List (String × Fault)} {url : String}
      {urls : List String} (ha : d.aim c = .ok (k, tried.map Prod.fst ++ url :: urls))
      (hs : store.text? k.path = some none) : Story c store i d (.rewriting k w)
        (drafting i k (tried.map Prod.fst ++ url :: urls) tried url w.source)
  | dropped {k : Claim} {source : Fetch.Source} {tried : List (String × Fault)} {url : String}
      {urls : List String} {cause : Fault}
      (ha : d.aim c = .ok (k, tried.map Prod.fst ++ url :: urls))
      (hs : store.text? k.path = some none) :
      Story c store i d (.finished (d.verdict (.module k.url cause)))
        (drafting i k (tried.map Prod.fst ++ url :: urls) tried url source)
  | settled {k : Claim} {source : Fetch.Source} {text : String} {tried : List (String × Fault)}
      {url : String} {urls : List String} {o : Outcome}
      (ha : d.aim c = .ok (k, tried.map Prod.fst ++ url :: urls))
      (hs : store.text? k.path = some (some text)) (ho : d.Yields k.path o) :
      Story c store i d (.finished o)
        (drafting i k (tried.map Prod.fst ++ url :: urls) tried url source ++
          [.filled i k.path text])

namespace Story

variable {c : Setting σ} {store store' : ModuleStore} {i : Nat} {d : Demand} {p : Phase}
  {ds : List Deed}

/-- A story goes on in another store if the paths in it are left alone and no path is given up. -/
theorem frame (h : Story c store i d p ds)
    (hk : ∀ k urls, .claimed i k urls ∈ ds → store'.text? k.path = store.text? k.path)
    (hc : ∀ path, store.contains path = true → store'.contains path = true) :
    Story c store' i d p ds := by
  have hopen : ∀ k urls tried rest, ds = opening i k urls tried ++ rest →
      store'.text? k.path = store.text? k.path := by
    intro k urls tried rest hds
    refine hk k urls ?_
    simp [hds, opening]
  cases h with
  | ready => exact .ready
  | refused ha => exact .refused ha
  | answered ha hs ho => exact .answered ha (hc _ hs) ho
  | fetching ha hurls hs =>
    exact .fetching ha hurls ((hopen _ _ _ [] (List.append_nil _).symm).trans hs)
  | lost ha htried hs => exact .lost ha htried ((hopen _ _ _ [] (List.append_nil _).symm).trans hs)
  | rewriting ha hs => exact .rewriting ha ((hopen _ _ _ _ rfl).trans hs)
  | dropped ha hs => exact .dropped ha ((hopen _ _ _ _ rfl).trans hs)
  | settled ha hs ho =>
    exact .settled ha ((hopen _ _ _ _ (List.append_assoc ..)).trans hs) ho

theorem kept {t u : Task} (hk : t.Kept u) (h : Story c store i t.demand t.phase ds) :
    Story c store i u.demand u.phase ds := by
  cases hk with
  | same => exact h
  | edited hp e =>
    rw [hp] at h
    cases h with
    | rewriting ha hs => exact .rewriting ha hs

/-- All deeds of a task are about the path that it claims. -/
theorem claim (h : Story c store i d p ds) {x : Deed} (hx : x ∈ ds) :
    ∃ k urls, .claimed i k urls ∈ ds ∧ d.aim c = .ok (k, urls) ∧ x.path = k.path := by
  have hopening : ∀ {k urls tried}, x ∈ opening i k urls tried → x.path = k.path := by
    intro k urls tried hx
    rcases List.mem_cons.1 hx with rfl | hx
    · rfl
    · obtain ⟨u, -, rfl⟩ := List.mem_map.1 hx
      rfl
  have hdrafting : ∀ {k urls tried url source}, x ∈ drafting i k urls tried url source →
      x.path = k.path := by
    intro k urls tried url source hx
    rcases List.mem_append.1 hx with hx | hx
    · exact hopening hx
    · rcases List.mem_cons.1 hx with rfl | hx
      · rfl
      · rw [List.mem_singleton.1 hx]
        rfl
  cases h with
  | ready => cases hx
  | refused ha => cases hx
  | answered ha hs ho => cases hx
  | fetching ha hurls hs => exact ⟨_, _, List.mem_cons_self, ha, hopening hx⟩
  | lost ha htried hs => exact ⟨_, _, List.mem_cons_self, ha, hopening hx⟩
  | rewriting ha hs => exact ⟨_, _, List.mem_cons_self, ha, hdrafting hx⟩
  | dropped ha hs => exact ⟨_, _, List.mem_cons_self, ha, hdrafting hx⟩
  | settled ha hs ho =>
    refine ⟨_, _, List.mem_cons_self, ha, ?_⟩
    rcases List.mem_append.1 hx with hx | hx
    · exact hdrafting hx
    · rw [List.mem_singleton.1 hx]
      rfl

theorem opening_append (i : Nat) (k : Claim) (urls : List String) (tried : List (String × Fault))
    (url : String) (e : Fault) : opening i k urls tried ++ [.fetched i k.path url (.error e)] =
      opening i k urls (tried ++ [(url, e)]) := by
  simp [opening]

/-- The story goes on with a URL that has no text, when another one is left. -/
theorem retried {k : Claim} {url : String} {urls errors : List String}
    (h : Story c store i d (.fetching k (url :: urls) errors) ds) (hurls : urls ≠ []) (e : Fault)
    (errors' : List String) : Story c store i d (.fetching k urls errors')
      (ds ++ [.fetched i k.path url (.error e)]) := by
  cases h with
  | @fetching _ tried _ _ ha _ hs =>
    have hall : tried.map Prod.fst ++ url :: urls = (tried ++ [(url, e)]).map Prod.fst ++ urls := by
      simp
    rw [opening_append, hall]
    exact .fetching (hall ▸ ha) hurls hs

/-- The story ends with a URL that has no text, when the load is given up. -/
theorem given_up {k : Claim} {url : String} {urls errors : List String}
    (h : Story c store i d (.fetching k (url :: urls) errors) ds) (e cause : Fault) :
    Story c store i d (.finished (d.verdict (.module k.url cause)))
      (ds ++ [.fetched i k.path url (.error e)]) := by
  cases h with
  | @fetching _ tried _ _ ha _ hs =>
    have hall : tried.map Prod.fst ++ url :: urls = (tried ++ [(url, e)]).map Prod.fst ++ urls := by
      simp
    rw [opening_append, hall]
    exact .lost (hall ▸ ha) (by simp) hs

/-- The story ends with a fault, and with no other deed. -/
theorem broken {s : State σ} {e : Fault} (h : Story c s.store i d p ds)
    (htr : State.Trouble c s d p e) : Story c s.store i d (.finished (d.verdict e)) ds := by
  cases htr with
  | refused ha =>
    cases h
    exact .refused ha
  | spent =>
    cases h with
    | fetching ha hurls hs => exact absurd rfl hurls
  | inherited hf =>
    cases h with
    | rewriting ha hs => exact .dropped ha hs
  | unread hrest hm =>
    cases h with
    | rewriting ha hs => exact .dropped ha hs
  | garbled hrest hm =>
    cases h with
    | rewriting ha hs => exact .dropped ha hs
  | unfilled hfill =>
    cases h with
    | rewriting ha hs =>
      rw [ModuleStore.fill_of_reserved hs] at hfill
      cases hfill

end Story

end ModuleGraph.Loading
