import ModuleGraph.Proofs.Loading.Family
/-!
# Searches for a text

A load fetches the URLs that may have its text one after another. It goes on to the next URL as long
as those before had faults of the module graph. The first text is taken into a draft, and an error
from outside ends the load, wherever in the list it comes up.

Results:
* `State.phase?_of_free`, `phase?_of_text`, `phase?_of_outside`, `phase?_of_spent`,
  `phase?_of_missed`: what one step of a search does;
* `Search.step`: the search goes on with the step of its task;
* `Reached.search`: **main theorem**: every load that has claimed its path is such a search.
-/

namespace ModuleGraph.Loading

variable {σ : Type}

/-- The URL that is fetched, with what came of it. -/
def Deed.reply? : Deed → Option (String × Except Fault Fetch.Source)
  | fetched _ _ url r => some (url, r)
  | _ => none

/-- What came of the fetches of one task, in their order. -/
def repliesTo (i : Nat) (log : List Deed) : List (String × Except Fault Fetch.Source) :=
  (own i log).filterMap Deed.reply?

/-- URLs that were fetched in vain. -/
def misses (tried : List (String × Fault)) : List (String × Except Fault Fetch.Source) :=
  tried.map fun u => (u.1, .error u.2)

/-- The task has taken the text of the source into a draft, which it may have done with. -/
inductive Phase.Took (source : Fetch.Source) : Phase → Prop
  | rewriting {k : Claim} {w : Draft} (h : w.source = source) : Took source (.rewriting k w)
  | finished (o : Outcome) : Took source (.finished o)

theorem Phase.Leads.took {p p' : Phase} (h : p.Leads p') {source : Fetch.Source}
    (hp : p.Took source) : p'.Took source := by
  cases h with
  | ended _ o => exact .finished o
  | claimed _ _ => cases hp
  | retried _ _ _ _ _ => cases hp
  | drafted _ _ _ _ _ => cases hp
  | proceeded _ _ _ =>
    cases hp with
    | rewriting hsource => exact .rewriting hsource

/-- How far the search for the text of a module has come, with the replies so far. The URLs before
the last one that was fetched had faults of the module graph. -/
inductive Search (d : Demand) (k : Claim) (urls : List String) :
    Phase → List (String × Except Fault Fetch.Source) → Prop
  /-- There are URLs left. -/
  | searching {tried : List (String × Fault)} {rest : List String}
      (hurls : urls = tried.map Prod.fst ++ rest) (hrest : rest ≠ [])
      (hown : ∀ u ∈ tried, u.2.isOwn = true) :
      Search d k urls (.fetching k rest (tried.map fun u => u.2.describe false)) (misses tried)
  /-- None of the URLs has the text. -/
  | nowhere {tried : List (String × Fault)} (hurls : urls = tried.map Prod.fst)
      (hown : ∀ u ∈ tried, u.2.isOwn = true) :
      Search d k urls
        (.finished (d.verdict (nowhereFault k (tried.map fun u => u.2.describe false))))
        (misses tried)
  /-- A URL has come to an error from outside, and no other one is tried. -/
  | struck {tried : List (String × Fault)} {url : String} {rest : List String} {e : Fault}
      (hurls : urls = tried.map Prod.fst ++ url :: rest) (hown : ∀ u ∈ tried, u.2.isOwn = true)
      (he : e.isOwn = false) :
      Search d k urls (.finished (d.verdict (.module k.url e))) (misses tried ++ [(url, .error e)])
  /-- A URL has the text, and no other one is tried. -/
  | found {tried : List (String × Fault)} {url : String} {rest : List String}
      {source : Fetch.Source} {p : Phase} (hurls : urls = tried.map Prod.fst ++ url :: rest)
      (hown : ∀ u ∈ tried, u.2.isOwn = true) (hp : p.Took source) :
      Search d k urls p (misses tried ++ [(url, .ok source)])

namespace State

/-! ## One fetch -/

section

variable {c : Setting σ} {s : State σ} {i : Nat} {t : Task} {k : Claim} {url : String}
  {rest errors : List String}

theorem reply_of_fetching (ht : s.tasks[i]? = some t)
    (hp : t.phase = .fetching k (url :: rest) errors) :
    (s.deeds c i).filterMap Deed.reply? = [(url, (c.fetch url s.world).1)] := by
  rw [deeds, phase?_of_tasks ht, hp]
  dsimp only
  split <;> rfl

theorem outcome?_of_phase? {o : Outcome} (h : s.phase? i = some (.finished o)) :
    s.outcome? i = some o := by
  obtain ⟨t, ht, hp⟩ := tasks_of_phase? h
  rw [outcome?, ht, Option.bind_some, Task.outcome?, hp]

theorem phase?_of_ended {r : State σ} (ht : r.tasks[i]? = some t) {e : Fault}
    (hs : s.step c i = r.conclude i (.error e)) :
    (s.step c i).phase? i = some (.finished (t.demand.verdict e)) := by
  obtain ⟨o, rfl, hself⟩ := (conclude_concluded ht (.error e)).self ht
  rw [hs]
  exact phase?_of_tasks hself

/-- A path that is free is claimed, and all its URLs are left. -/
theorem phase?_of_free {urls : List String} (ht : s.tasks[i]? = some t) (hp : t.phase = .ready)
    (ha : t.demand.aim c = .ok (k, urls)) (hs : s.store.contains k.path = false) :
    (s.step c i).phase? i = some (.fetching k urls []) := by
  have hstep : s.step c i =
      enter { s with store := s.store.claimed k.path } i (.fetching k urls []) := by
    simp [step, ht, hp, begin_eq, ha, hs]
  rw [hstep]
  exact phase?_enter (t := t) ht _

/-- The URL has a text. -/
theorem phase?_of_text (ht : s.tasks[i]? = some t)
    (hp : t.phase = .fetching k (url :: rest) errors) {source : Fetch.Source}
    (hr : (c.fetch url s.world).1 = .ok source) :
    (s.step c i).phase? i = some (.rewriting k (firstDraft k source
      (List.range' s.tasks.length (firstDemands source).length))) := by
  have hs : s.step c i = s.fetchNext c i k (url :: rest) errors := by simp [step, ht, hp]
  rw [hs, fetchNext]
  simp only [hr, draft_eq]
  exact phase?_enter (t := t) (getElem?_offspring ht i _) _

/-- The URL has come to an error from outside. -/
theorem phase?_of_outside (ht : s.tasks[i]? = some t)
    (hp : t.phase = .fetching k (url :: rest) errors) {e : Fault}
    (hr : (c.fetch url s.world).1 = .error e) (he : e.isOwn = false) :
    (s.step c i).phase? i = some (.finished (t.demand.verdict (.module k.url e))) := by
  refine phase?_of_ended (r := { s with world := (c.fetch url s.world).2 }) ht ?_
  simp [step, ht, hp, fetchNext, hr, he]

/-- The last URL has a fault of the module graph. -/
theorem phase?_of_spent (ht : s.tasks[i]? = some t) (hp : t.phase = .fetching k [url] errors)
    {e : Fault} (hr : (c.fetch url s.world).1 = .error e) (he : e.isOwn = true) :
    (s.step c i).phase? i =
      some (.finished (t.demand.verdict (nowhereFault k (errors ++ [e.describe false])))) := by
  refine phase?_of_ended
    (r := State.tell { s with world := (c.fetch url s.world).2 } (fetchNotice url e)) ht ?_
  simp [step, ht, hp, fetchNext, hr, he]

/-- The URL has a fault of the module graph, and another one is left. -/
theorem phase?_of_missed (ht : s.tasks[i]? = some t)
    (hp : t.phase = .fetching k (url :: rest) errors) (hrest : rest ≠ []) {e : Fault}
    (hr : (c.fetch url s.world).1 = .error e) (he : e.isOwn = true) :
    (s.step c i).phase? i = some (.fetching k rest (errors ++ [e.describe false])) := by
  have hs : s.step c i = (State.tell { s with world := (c.fetch url s.world).2 }
      (fetchNotice url e)).enter i (.fetching k rest (errors ++ [e.describe false])) := by
    simp [step, ht, hp, fetchNext, hr, he, hrest]
  rw [hs]
  exact phase?_enter (t := t) ht _

end

/-- The store stays as it is while a text is sought. -/
theorem Turn.store_of_fetching {c : Setting σ} {s s' : State σ} {i : Nat} {ds : List Deed}
    (hturn : Turn c s i ds s') {t : Task} (ht : s.tasks[i]? = some t) {k : Claim}
    {urls errors : List String} (hp : t.phase = .fetching k urls errors) : s'.store = s.store := by
  have hphase : ∀ {t' : Task} {p : Phase}, s.tasks[i]? = some t' → t'.phase = p →
      p = .fetching k urls errors := by
    rintro t' p ht' rfl
    rw [Option.some.inj (ht'.symm.trans ht), hp]
  cases hturn with
  | rest _ | retried _ _ _ _ | drafted _ _ _ | proceeded _ _ _ _ _ => rfl
  | broken _ _ hc => exact hc.store
  | answered _ _ _ _ hc => exact hc.store
  | lost _ _ _ _ hc => exact hc.store
  | claimed ht' hp' _ _ => cases hphase ht' hp'
  | settled ht' hp' _ _ _ _ _ => cases hphase ht' hp'

/-- A task that has the text of a source keeps to it, and fetches nothing. -/
theorem Turn.took {c : Setting σ} {s s' : State σ} {i : Nat} {ds : List Deed}
    (hturn : Turn c s i ds s') {t u : Task} (ht : s.tasks[i]? = some t)
    (hu : s'.tasks[i]? = some u) {source : Fetch.Source} (h : t.phase.Took source) :
    u.phase.Took source ∧ ds.filterMap Deed.reply? = [] := by
  have hphase : ∀ {t' : Task} {p : Phase}, s.tasks[i]? = some t' → t'.phase = p →
      p.Took source := by
    rintro t' p ht' rfl
    rwa [← Option.some.inj (ht.symm.trans ht')]
  constructor
  · rcases hturn.leads with ⟨-, hs⟩ | ⟨t', p, ht', hlead, hu'⟩
    · rw [hs, ht, Option.some.injEq] at hu
      exact hu ▸ h
    · rw [hu, Option.some.injEq] at hu'
      rw [hu']
      exact hlead.took (hphase ht' rfl)
  · cases hturn with
    | rest _ | broken _ _ _ | answered _ _ _ _ _ | claimed _ _ _ _ | proceeded _ _ _ _ _
    | settled _ _ _ _ _ _ _ => rfl
    | retried ht' hp _ _ => cases hphase ht' hp
    | lost ht' hp _ _ _ => cases hphase ht' hp
    | drafted ht' hp _ => cases hphase ht' hp

end State

/-! ## Whole searches -/

theorem misses_append (tried : List (String × Fault)) (url : String) (e : Fault) :
    misses tried ++ [(url, .error e)] = misses (tried ++ [(url, e)]) := by
  simp [misses]

namespace Search

variable {d : Demand} {k : Claim} {urls : List String} {p : Phase}
  {rs : List (String × Except Fault Fetch.Source)}

theorem kept {t u : Task} (hk : t.Kept u) (h : Search t.demand k urls t.phase rs) :
    Search u.demand k urls u.phase rs := by
  cases hk with
  | same => exact h
  | @edited k' w hp e =>
    rw [hp] at h
    cases h with
    | found hurls hown htook =>
      cases htook with
      | rewriting hsource => exact .found hurls hown (.rewriting hsource)

/-- The search goes on with the step of its task. -/
theorem step {c : Setting σ} {s : State σ} {i : Nat} {t u : Task} (ht : s.tasks[i]? = some t)
    (h : Search t.demand k urls t.phase rs) (hu : (s.step c i).tasks[i]? = some u) :
    Search u.demand k urls u.phase (rs ++ (s.deeds c i).filterMap Deed.reply?) := by
  have hdemand : u.demand = t.demand := by
    obtain ⟨p, hp⟩ := (s.step_turn c i).self ht
    rw [hu, Option.some.injEq] at hp
    rw [hp]
  have hphase : (s.step c i).phase? i = some u.phase := State.phase?_of_tasks hu
  have htook : ∀ source, t.phase.Took source →
      u.phase.Took source ∧ (s.deeds c i).filterMap Deed.reply? = [] :=
    fun _ htook => (s.step_turn c i).took ht hu htook
  rw [hdemand]
  generalize hp : t.phase = p at h htook
  cases h with
  | @searching tried rest hurls hrest hown =>
    obtain ⟨url, rest, rfl⟩ := List.exists_cons_of_ne_nil hrest
    rw [State.reply_of_fetching ht hp]
    cases hr : (c.fetch url s.world).1 with
    | ok source =>
      rw [State.phase?_of_text ht hp hr, Option.some.injEq] at hphase
      rw [← hphase]
      exact .found hurls hown (.rewriting rfl)
    | error e =>
      cases he : e.isOwn with
      | false =>
        rw [State.phase?_of_outside ht hp hr he, Option.some.injEq] at hphase
        rw [← hphase]
        exact .struck hurls hown he
      | true =>
        have hmap : ((tried ++ [(url, e)]).map fun u => u.2.describe false) =
            (tried.map fun u => u.2.describe false) ++ [e.describe false] := by simp
        have hown' : ∀ u ∈ tried ++ [(url, e)], u.2.isOwn = true := by
          intro u hu
          rcases List.mem_append.1 hu with hu | hu
          · exact hown u hu
          · rw [List.mem_singleton.1 hu]
            exact he
        rw [misses_append]
        by_cases hlast : rest = []
        · subst hlast
          rw [State.phase?_of_spent ht hp hr he, Option.some.injEq, ← hmap] at hphase
          rw [← hphase]
          exact .nowhere (by simpa using hurls) hown'
        · rw [State.phase?_of_missed ht hp hlast hr he, Option.some.injEq, ← hmap] at hphase
          rw [← hphase]
          exact .searching (by simpa using hurls) hlast hown'
  | nowhere hurls hown =>
    have hsame := (s.step_turn c i).finished ht hp
    rw [hu, Option.some.injEq] at hsame
    rw [(htook default (.finished _)).2, List.append_nil, hsame, hp]
    exact .nowhere hurls hown
  | struck hurls hown he =>
    have hsame := (s.step_turn c i).finished ht hp
    rw [hu, Option.some.injEq] at hsame
    rw [(htook default (.finished _)).2, List.append_nil, hsame, hp]
    exact .struck hurls hown he
  | found hurls hown hsource =>
    obtain ⟨hnext, hnil⟩ := htook _ hsource
    rw [hnil, List.append_nil]
    exact .found hurls hown hnext

end Search

theorem repliesTo_append_of_place {i : Nat} {log ds : List Deed}
    (h : ∀ d ∈ ds, d.place? = some i) :
    repliesTo i (log ++ ds) = repliesTo i log ++ ds.filterMap Deed.reply? := by
  rw [repliesTo, own_append_of_place h, List.filterMap_append, repliesTo]

theorem repliesTo_append_of_ne {i : Nat} {log ds : List Deed} (h : ∀ d ∈ ds, d.place? ≠ some i) :
    repliesTo i (log ++ ds) = repliesTo i log := by
  rw [repliesTo, own_append_of_ne h, repliesTo]

/-- A task that claims its path has fetched nothing. -/
theorem Chronicle.search_of_claimed {c : Setting σ} {world : σ} {s s' : State σ} {log : List Deed}
    (h : Chronicle c world s log) {i : Nat} {ds : List Deed} (hturn : State.Turn c s i ds s')
    {k : Claim} {urls : List String} (hk : .claimed i k urls ∈ ds) {u : Task}
    (hu : s'.tasks[i]? = some u) : Search u.demand k urls u.phase (repliesTo i (log ++ ds)) := by
  have hplace := hturn.place
  cases hturn with
  | rest _ => cases hk
  | broken _ _ _ => cases hk
  | answered _ _ _ _ _ => cases hk
  | retried _ _ _ _ => simp at hk
  | lost _ _ _ _ _ => simp at hk
  | drafted _ _ _ => simp at hk
  | proceeded _ _ _ _ _ => cases hk
  | settled _ _ _ _ _ _ _ => simp at hk
  | @claimed t k' urls' ht hp ha hs =>
    have hstory := h.stories i t ht
    rw [hp] at hstory
    have hnil : own i log = [] := by
      generalize own i log = l at hstory
      cases hstory
      rfl
    obtain ⟨-, rfl, rfl⟩ := Deed.claimed.inj (List.mem_singleton.1 hk)
    obtain ⟨fallbacks, rfl, -⟩ := Demand.aim_urls ha
    rw [State.eq_of_enter hu ht, repliesTo_append_of_place hplace, repliesTo, hnil]
    have hnone : ∀ u ∈ ([] : List (String × Fault)), u.2.isOwn = true := fun u hu => by cases hu
    exact .searching rfl (List.cons_ne_nil _ _) hnone

/-- **main theorem**: a load that has claimed its path searches the URLs that it was claimed for, in
every state, whatever is fetched and in whatever order tasks advance. -/
theorem Reached.search {c : Setting σ} {world : σ} {allowed : Move → Prop} {s : State σ}
    {log : List Deed} (h : Reached c world allowed s log) {i : Nat} {t : Task} {k : Claim}
    {urls : List String} (ht : s.tasks[i]? = some t) (hk : .claimed i k urls ∈ log) :
    Search t.demand k urls t.phase (repliesTo i log) := by
  induction h generalizing t with
  | start => cases hk
  | @move s log m h hm ih =>
    have hchron := h.chronicle
    -- The deeds of others leave the search of a task as it is.
    have hother : ∀ {ds : List Deed}, .claimed i k urls ∈ log ++ ds →
        (∀ d ∈ ds, d.place? ≠ some i) →
        ((∃ v, s.tasks[i]? = some v ∧ v.Kept t) ∨ s.tasks.length ≤ i) →
        Search t.demand k urls t.phase (repliesTo i (log ++ ds)) := by
      intro ds hk hplace htask
      have hold : .claimed i k urls ∈ log :=
        (List.mem_append.1 hk).resolve_right fun hk => hplace _ hk rfl
      rw [repliesTo_append_of_ne hplace]
      rcases htask with ⟨v, hv, hkept⟩ | hle
      · exact (ih hv hold).kept hkept
      · exact absurd (hchron.actors _ hold i rfl) (Nat.not_lt.2 hle)
    cases m with
    | step j =>
      have hturn := s.step_turn c j
      by_cases hj : i = j
      · subst hj
        rcases List.mem_append.1 hk with hold | hnew
        · have hlt := hchron.actors _ hold i rfl
          rw [State.moveDeeds, repliesTo_append_of_place hturn.place]
          exact (ih (List.getElem?_eq_getElem hlt) hold).step (List.getElem?_eq_getElem hlt) ht
        · exact hchron.search_of_claimed hturn hnew ht
      · refine hother hk (fun d hd hp => hj ?_) ?_
        · exact Option.some.inj (hp.symm.trans (hturn.place d hd))
        · exact (hturn.other hj ht).imp_right And.left
    | ask d =>
      refine hother hk (fun d hd => by cases hd) ?_
      exact (State.tasks_of_ask ht).imp (fun hold => ⟨t, hold, .same t⟩) And.left
    | add path text =>
      refine hother hk (fun d hd hp => ?_) (.inl ⟨t, ?_, .same t⟩)
      · rw [State.moveDeeds] at hd
        split_ifs at hd
        · cases hd
        · rw [List.mem_singleton.1 hd] at hp
          cases hp
      · rwa [State.tasks_add] at ht

end ModuleGraph.Loading
