import ModuleGraph.Proofs.Loading.Conclude
/-!
# What one step of a load task does

`State.step` dispatches on the phase of a task and runs through several helpers. `Turn` says once
what can come of it: one constructor for each way in which a step ends, with the state after it and
with the deeds that the step leaves behind. Every property of runs is derived from it.

Results:
* `step_turn`: every step is a turn;
* `Turn.leads`, `Turn.other`: how the phase of the task that advances goes on, and what the step
  does to the other tasks.
-/

namespace ModuleGraph.Loading

variable {σ : Type}

/-- What a step leaves behind: a path claimed, a URL fetched, a text taken into a draft, a path
filled. Each names the task that did it, or nobody for a file that is added from outside. -/
inductive Deed where
  | claimed (place : Nat) (k : Claim) (urls : List String)
  | fetched (place : Nat) (path url : String) (r : Except Fault Fetch.Source)
  | drafted (place : Nat) (path : String) (source : Fetch.Source)
  | filled (place : Nat) (path text : String)
  | added (path text : String)

namespace State

/-! ## Turns -/

/-- Why a task ends with a fault without fetching anything. -/
inductive Trouble (c : Setting σ) (s : State σ) : Demand → Phase → Fault → Prop
  /-- There is no path to claim. -/
  | refused {d : Demand} {e : Fault} (h : d.aim c = .error e) : Trouble c s d .ready e
  /-- No URL is left. -/
  | spent {d : Demand} {k : Claim} {errors : List String} :
      Trouble c s d (.fetching k [] errors) (nowhereFault k errors)
  /-- A task that the draft waits for has failed. -/
  | inherited {d : Demand} {k : Claim} {w : Draft} {e : Fault} (h : s.failure? w.pending = some e) :
      Trouble c s d (.rewriting k w) (.module k.url e)
  /-- A specifier is cut out of the text at no character. -/
  | unread {d : Demand} {k : Claim} {w : Draft} {tree : Syntax.Tree} {m : Utf8.Malformed}
      (hrest : w.rest = some tree) (h : Rewrite.specifiers w.editor.original tree = .error m) :
      Trouble c s d (.rewriting k w) (.module k.url (.foreign (.ofMalformed m)))
  /-- The edited bytes are no text. -/
  | garbled {d : Demand} {k : Claim} {w : Draft} {m : Utf8.Malformed}
      (hrest : w.rest = none) (h : w.editor.toText = .error m) :
      Trouble c s d (.rewriting k w) (.module k.url (.foreign (.ofMalformed m)))
  /-- The store does not accept the text. -/
  | unfilled {d : Demand} {k : Claim} {w : Draft} {text : String} {p : ModuleStore.Problem}
      (h : s.store.fill k.path text = .error p) :
      Trouble c s d (.rewriting k w) (.foreign p.toForeign)

theorem Trouble.unfinished {c : Setting σ} {s : State σ} {d : Demand} {p : Phase} {e : Fault}
    (h : Trouble c s d p e) (o : Outcome) : p ≠ .finished o := by
  rintro rfl
  cases h

/-- The tasks that a draft waits for have all ended, none of them with a fault. -/
structure Answered (s : State σ) (d : Draft) : Prop where
  unharmed : s.failure? d.pending = none
  finished : s.allFinished d.pending = true

/-- What can come of the step of the task at `i`, with the deeds that the step leaves behind. -/
inductive Turn (c : Setting σ) (s : State σ) (i : Nat) : List Deed → State σ → Prop
  /-- The task has ended, or waits, or is not there. -/
  | rest (h : s.isAwake i = false) : Turn c s i [] s
  /-- The task ends with a fault. -/
  | broken {t : Task} {e : Fault} {s' : State σ} (ht : s.tasks[i]? = some t)
      (h : Trouble c s t.demand t.phase e) (hc : Concluded s i t (.error e) s') : Turn c s i [] s'
  /-- The path is taken: the task is answered with it. -/
  | answered {t : Task} {k : Claim} {urls : List String} {s' : State σ}
      (ht : s.tasks[i]? = some t) (hp : t.phase = .ready) (ha : t.demand.aim c = .ok (k, urls))
      (hs : s.store.contains k.path = true) (hc : Concluded s i t (.ok k.path) s') :
      Turn c s i [] s'
  /-- The path was free: the task claims it. -/
  | claimed {t : Task} {k : Claim} {urls : List String} (ht : s.tasks[i]? = some t)
      (hp : t.phase = .ready) (ha : t.demand.aim c = .ok (k, urls))
      (hs : s.store.contains k.path = false) : Turn c s i [.claimed i k urls]
      ({ s with store := s.store.claimed k.path }.enter i (.fetching k urls []))
  /-- A URL has no text, and another one is left. -/
  | retried {t : Task} {k : Claim} {url : String} {urls errors errors' : List String} {e : Fault}
      (ht : s.tasks[i]? = some t) (hp : t.phase = .fetching k (url :: urls) errors)
      (hr : (c.fetch url s.world).1 = .error e) (hurls : urls ≠ []) :
      Turn c s i [.fetched i k.path url (.error e)]
      ({ s with
        world := (c.fetch url s.world).2
        notices := s.notices ++ [fetchNotice url e] }.enter i (.fetching k urls errors'))
  /-- A URL has no text, and the load is given up. -/
  | lost {t : Task} {k : Claim} {url : String} {urls errors : List String} {e cause : Fault}
      {told : List Notice} {s' : State σ} (ht : s.tasks[i]? = some t)
      (hp : t.phase = .fetching k (url :: urls) errors)
      (hr : (c.fetch url s.world).1 = .error e) (htold : ∀ n ∈ told, n = fetchNotice url e)
      (hc : Concluded
        { s with world := (c.fetch url s.world).2, notices := s.notices ++ told } i t
        (.error (.module k.url cause)) s') :
      Turn c s i [.fetched i k.path url (.error e)] s'
  /-- A URL has the text, which is taken into a draft. -/
  | drafted {t : Task} {k : Claim} {url : String} {urls errors : List String}
      {source : Fetch.Source} (ht : s.tasks[i]? = some t)
      (hp : t.phase = .fetching k (url :: urls) errors)
      (hr : (c.fetch url s.world).1 = .ok source) :
      Turn c s i [.fetched i k.path url (.ok source), .drafted i k.path source]
      ({ s with
        world := (c.fetch url s.world).2
        notices := s.notices ++ (Rewrite.syntaxEvents k.path
          (Syntax.parse (.ofFileName k.path) source.text)).map Notice.event
        tasks := s.tasks ++ offspring i (firstDemands source) }.enter i
        (.rewriting k (firstDraft k source
          (List.range' s.tasks.length (firstDemands source).length))))
  /-- The directives are dealt with, and the specifiers are asked for. -/
  | proceeded {t : Task} {k : Claim} {d : Draft} {tree : Syntax.Tree} {requests : List Request}
      (ht : s.tasks[i]? = some t) (hp : t.phase = .rewriting k d) (hd : s.Answered d)
      (hrest : d.rest = some tree)
      (hr : Rewrite.specifiers d.editor.original tree = .ok requests) : Turn c s i []
      ({ s with
        tasks := s.tasks ++ offspring i (requests.map (demandOf d.source.url)) }.enter i
        (.rewriting k { d with
          rest := none
          pending := List.range' s.tasks.length (requests.map (demandOf d.source.url)).length }))
  /-- The text is final and fills the claimed path. -/
  | settled {t : Task} {k : Claim} {d : Draft} {text : String} {s' : State σ}
      (ht : s.tasks[i]? = some t) (hp : t.phase = .rewriting k d) (hd : s.Answered d)
      (hrest : d.rest = none) (htext : d.editor.toText = .ok text)
      (hs : s.store.text? k.path = some none)
      (hc : Concluded
        { s with
          store := s.store.filled k.path text
          notices := s.notices ++ [Notice.event (.fileLoaded d.source.url k.path text.length
            (Text.startsWith k.path c.libraryLocation))] } i t (.ok k.path) s') :
      Turn c s i [.filled i k.path text] s'

/-- The deeds of the step of the task at a place, as they show in the states before and after
it. -/
def deeds (c : Setting σ) (s : State σ) (i : Nat) : List Deed :=
  let s' := s.step c i
  match s.phase? i with
  | some .ready =>
    match s'.phase? i with
    | some (.fetching k urls _) => [.claimed i k urls]
    | _ => []
  | some (.fetching k (url :: _) _) =>
    .fetched i k.path url (c.fetch url s.world).1 ::
      match s'.phase? i with
      | some (.rewriting _ d) => [.drafted i k.path d.source]
      | _ => []
  | some (.rewriting k _) =>
    match s.store.text? k.path, s'.store.text? k.path with
    | some none, some (some text) => [.filled i k.path text]
    | _, _ => []
  | _ => []

theorem deeds_of_ready {c : Setting σ} {s s' : State σ} {i : Nat} {t : Task}
    {r : Except Fault String} (ht : s.tasks[i]? = some t) (hp : t.phase = .ready)
    (hs : s.step c i = s') (hc : Concluded s i t r s') : s.deeds c i = [] := by
  obtain ⟨o, ho⟩ := hc.phase? ht
  simp [deeds, hs, ho, phase?_of_tasks ht, hp]

theorem deeds_of_rewriting {c : Setting σ} {s : State σ} {i : Nat} {t : Task} {k : Claim}
    {d : Draft} (ht : s.tasks[i]? = some t) (hp : t.phase = .rewriting k d)
    (hs : (s.step c i).store = s.store) : s.deeds c i = [] := by
  simp only [deeds, phase?_of_tasks ht, hp, hs]
  rcases s.store.text? k.path with _ | _ | text <;> rfl

theorem turn_of_ready (c : Setting σ) {s : State σ} {i : Nat} {t : Task}
    (ht : s.tasks[i]? = some t) (hp : t.phase = .ready) :
    Turn c s i (s.deeds c i) (s.step c i) := by
  have hs : s.step c i = s.begin c i t.demand := by simp [step, ht, hp]
  rw [begin_eq] at hs
  cases ha : t.demand.aim c with
  | error e =>
    rw [ha] at hs
    have hc : Concluded s i t (.error e) (s.step c i) := hs ▸ conclude_concluded ht _
    rw [deeds_of_ready ht hp rfl hc]
    exact .broken ht (hp ▸ .refused ha) hc
  | ok a =>
    obtain ⟨k, urls⟩ := a
    simp only [ha] at hs
    cases hk : s.store.contains k.path with
    | true =>
      rw [if_pos hk] at hs
      have hc : Concluded s i t (.ok k.path) (s.step c i) := hs ▸ conclude_concluded ht _
      rw [deeds_of_ready ht hp rfl hc]
      exact .answered ht hp ha hk hc
    | false =>
      rw [if_neg (by simp [hk])] at hs
      have hphase : (s.step c i).phase? i = some (.fetching k urls []) := by
        rw [hs]
        exact phase?_enter (t := t) ht _
      have hd : s.deeds c i = [.claimed i k urls] := by
        simp [deeds, phase?_of_tasks ht, hp, hphase]
      rw [hd, hs]
      exact .claimed ht hp ha hk

theorem turn_of_fetching (c : Setting σ) {s : State σ} {i : Nat} {t : Task} {k : Claim}
    {urls errors : List String} (ht : s.tasks[i]? = some t)
    (hp : t.phase = .fetching k urls errors) : Turn c s i (s.deeds c i) (s.step c i) := by
  have hphase := phase?_of_tasks ht
  have hs : s.step c i = s.fetchNext c i k urls errors := by simp [step, ht, hp]
  cases urls with
  | nil =>
    have hc : Concluded s i t (.error (nowhereFault k errors)) (s.step c i) :=
      hs ▸ conclude_concluded ht _
    have hd : s.deeds c i = [] := by simp [deeds, hphase, hp]
    rw [hd]
    exact .broken ht (hp ▸ .spent) hc
  | cons url urls =>
    -- A step that fetches and ends the load.
    have hlost : ∀ (e cause : Fault) (told : List Notice),
        (c.fetch url s.world).1 = .error e → (∀ n ∈ told, n = fetchNotice url e) →
        s.step c i = { s with
          world := (c.fetch url s.world).2
          notices := s.notices ++ told }.conclude i (.error (.module k.url cause)) →
        Turn c s i (s.deeds c i) (s.step c i) := by
      intro e cause told hr htold hs
      have hc := hs ▸ conclude_concluded (s := { s with
          world := (c.fetch url s.world).2
          notices := s.notices ++ told }) ht (.error (.module k.url cause))
      obtain ⟨o, ho⟩ := hc.phase? ht
      have hd : s.deeds c i = [.fetched i k.path url (.error e)] := by
        simp [deeds, hphase, hp, ho, hr]
      rw [hd]
      exact .lost ht hp hr htold hc
    cases hr : (c.fetch url s.world).1 with
    | error e =>
      simp only [fetchNext, hr] at hs
      by_cases he : e.isOwn = true
      · rw [if_pos he] at hs
        by_cases hu : urls = []
        · rw [if_pos (by simp [hu])] at hs
          exact hlost e _ [fetchNotice url e] hr (fun n hn => List.mem_singleton.1 hn) hs
        · rw [if_neg (by simp [hu])] at hs
          have hafter : (s.step c i).phase? i =
              some (.fetching k urls (errors ++ [e.describe false])) := by
            rw [hs]
            exact phase?_enter (t := t) ht _
          have hd : s.deeds c i = [.fetched i k.path url (.error e)] := by
            simp [deeds, hphase, hp, hafter, hr]
          rw [hd, hs]
          exact .retried ht hp hr hu
      · rw [if_neg he] at hs
        refine hlost e e [] hr (by simp) ?_
        simpa using hs
    | ok source =>
      simp only [fetchNext, hr, draft_eq] at hs
      have hafter : (s.step c i).phase? i = some (.rewriting k (firstDraft k source
          (List.range' s.tasks.length (firstDemands source).length))) := by
        rw [hs]
        exact phase?_enter (t := t) (getElem?_offspring ht i _) _
      have hd : s.deeds c i =
          [.fetched i k.path url (.ok source), .drafted i k.path source] := by
        simp [deeds, hphase, hp, hafter, hr, firstDraft]
      rw [hd, hs]
      exact .drafted ht hp hr

theorem turn_of_rewriting (c : Setting σ) {s : State σ} {i : Nat} {t : Task} {k : Claim}
    {d : Draft} (ht : s.tasks[i]? = some t) (hp : t.phase = .rewriting k d) :
    Turn c s i (s.deeds c i) (s.step c i) := by
  have hs : s.step c i = s.resume c i k d := by simp [step, ht, hp]
  have hbroken : ∀ e, Trouble c s t.demand (.rewriting k d) e →
      s.step c i = s.conclude i (.error e) → Turn c s i (s.deeds c i) (s.step c i) := by
    intro e he hs
    have hc : Concluded s i t (.error e) (s.step c i) := hs ▸ conclude_concluded ht _
    rw [deeds_of_rewriting ht hp hc.store]
    exact .broken ht (hp ▸ he) hc
  unfold resume at hs
  cases hf : s.failure? d.pending with
  | some e =>
    rw [hf] at hs
    exact hbroken _ (.inherited hf) hs
  | none =>
    cases ha : s.allFinished d.pending with
    | false =>
      simp only [hf, ha, Bool.false_eq_true, if_false] at hs
      rw [deeds_of_rewriting ht hp (by rw [hs]), hs]
      exact .rest (by simp [isAwake, ht, hp, hf, ha])
    | true =>
      simp only [hf, ha, if_true, advance] at hs
      have hd : s.Answered d := ⟨hf, ha⟩
      cases hrest : d.rest with
      | some tree =>
        simp only [hrest] at hs
        cases hr : Rewrite.specifiers d.editor.original tree with
        | error m =>
          simp only [hr] at hs
          exact hbroken _ (.unread hrest hr) hs
        | ok requests =>
          simp only [hr] at hs
          rw [deeds_of_rewriting ht hp (by rw [hs]; rfl), hs]
          exact .proceeded ht hp hd hrest hr
      | none =>
        simp only [hrest] at hs
        cases htext : d.editor.toText with
        | error m =>
          simp only [htext] at hs
          exact hbroken _ (.garbled hrest htext) hs
        | ok text =>
          simp only [htext, settle] at hs
          cases hfill : s.store.fill k.path text with
          | error p =>
            simp only [hfill] at hs
            exact hbroken _ (.unfilled hfill) hs
          | ok store =>
            obtain ⟨hnone, rfl⟩ := (ModuleStore.fill_eq_ok_iff ..).1 hfill
            simp only [hfill, tell] at hs
            have hc := hs ▸ conclude_concluded (s := { s with
                store := s.store.filled k.path text
                notices := s.notices ++ [Notice.event (.fileLoaded d.source.url k.path text.length
                  (Text.startsWith k.path c.libraryLocation))] }) ht (.ok k.path)
            have hdeeds : s.deeds c i = [.filled i k.path text] := by
              simp [deeds, phase?_of_tasks ht, hp, hnone, hc.store]
            rw [hdeeds]
            exact .settled ht hp hd hrest htext hnone hc

/-- Every step is a turn. -/
theorem step_turn (c : Setting σ) (s : State σ) (i : Nat) :
    Turn c s i (s.deeds c i) (s.step c i) := by
  rcases ht : s.tasks[i]? with _ | t
  · have hs : s.step c i = s := by rw [step, ht]
    have hd : s.deeds c i = [] := by simp [deeds, phase?, ht]
    rw [hs, hd]
    exact .rest (by simp [isAwake, ht])
  · cases hp : t.phase with
    | ready => exact turn_of_ready c ht hp
    | fetching k urls errors => exact turn_of_fetching c ht hp
    | rewriting k d => exact turn_of_rewriting c ht hp
    | finished o =>
      have hs : s.step c i = s := by simp [step, ht, hp]
      have hd : s.deeds c i = [] := by simp [deeds, phase?_of_tasks ht, hp]
      rw [hs, hd]
      exact .rest (by simp [isAwake, ht, hp])

/-- Only a task that is there leaves deeds behind. -/
theorem Turn.lt_of_mem {c : Setting σ} {s s' : State σ} {i : Nat} {ds : List Deed}
    (h : Turn c s i ds s') {d : Deed} (hd : d ∈ ds) : i < s.tasks.length := by
  cases h with
  | rest h => cases hd
  | broken ht h hc => cases hd
  | answered ht hp ha hs hc => cases hd
  | proceeded ht hp hd' hrest hr => cases hd
  | claimed ht hp ha hs => exact (List.getElem?_eq_some_iff.1 ht).1
  | retried ht hp hr hurls => exact (List.getElem?_eq_some_iff.1 ht).1
  | lost ht hp hr htold hc => exact (List.getElem?_eq_some_iff.1 ht).1
  | drafted ht hp hr => exact (List.getElem?_eq_some_iff.1 ht).1
  | settled ht hp hd' hrest htext hs hc => exact (List.getElem?_eq_some_iff.1 ht).1

theorem Turn.length_le {c : Setting σ} {s s' : State σ} {i : Nat} {ds : List Deed}
    (h : Turn c s i ds s') : s.tasks.length ≤ s'.tasks.length := by
  cases h with
  | rest h => exact Nat.le_refl _
  | broken ht h hc => exact Nat.le_of_eq hc.length.symm
  | answered ht hp ha hs hc => exact Nat.le_of_eq hc.length.symm
  | claimed ht hp ha hs => simp
  | retried ht hp hr hurls => simp
  | lost ht hp hr htold hc => exact Nat.le_of_eq hc.length.symm
  | drafted ht hp hr => simp
  | proceeded ht hp hd hrest hr => simp
  | settled ht hp hd hrest htext hs hc => exact Nat.le_of_eq hc.length.symm

/-- A turn changes no other task, except that it may write into a draft, and it may add tasks. -/
theorem Turn.other {c : Setting σ} {s s' : State σ} {i : Nat} {ds : List Deed}
    (h : Turn c s i ds s') {j : Nat} (hj : j ≠ i) {u : Task} (hu : s'.tasks[j]? = some u) :
    (∃ v, s.tasks[j]? = some v ∧ v.Kept u) ∨
      s.tasks.length ≤ j ∧ u.phase = .ready ∧ u.parent = some i := by
  have hasked : ∀ (world : σ) (notices : List Notice) (demands : List Demand) (p : Phase),
      (State.enter ⟨world, s.store, notices, s.tasks ++ offspring i demands⟩ i p).tasks[j]? =
        some u →
      (∃ v, s.tasks[j]? = some v ∧ v.Kept u) ∨
        s.tasks.length ≤ j ∧ u.phase = .ready ∧ u.parent = some i := by
    intro world notices demands p hu
    rw [enter_ne _ hj.symm] at hu
    by_cases hlt : j < s.tasks.length
    · rw [List.getElem?_append_left hlt] at hu
      exact .inl ⟨u, hu, .same u⟩
    · rw [List.getElem?_append_right (Nat.le_of_not_lt hlt), offspring, List.getElem?_map,
        Option.map_eq_some_iff] at hu
      obtain ⟨d, -, rfl⟩ := hu
      exact .inr ⟨Nat.le_of_not_lt hlt, rfl, rfl⟩
  cases h with
  | rest h => exact .inl ⟨u, hu, .same u⟩
  | broken ht h hc => exact .inl (hc.other hj hu)
  | answered ht hp ha hs hc => exact .inl (hc.other hj hu)
  | claimed ht hp ha hs =>
    rw [enter_ne _ hj.symm] at hu
    exact .inl ⟨u, hu, .same u⟩
  | retried ht hp hr hurls =>
    rw [enter_ne _ hj.symm] at hu
    exact .inl ⟨u, hu, .same u⟩
  | lost ht hp hr htold hc => exact .inl (hc.other hj hu)
  | drafted ht hp hr => exact hasked _ _ _ _ hu
  | proceeded ht hp hd hrest hr => exact hasked _ _ _ _ hu
  | settled ht hp hd hrest htext hs hc => exact .inl (hc.other hj hu)

/-- The task at `i` rests, or its phase goes on; its parent and its demand stay. -/
theorem Turn.leads {c : Setting σ} {s s' : State σ} {i : Nat} {ds : List Deed}
    (h : Turn c s i ds s') :
    s.isAwake i = false ∧ s' = s ∨ ∃ t p, s.tasks[i]? = some t ∧ t.phase.Leads p ∧
      s'.tasks[i]? = some { t with phase := p } := by
  have hended : ∀ {s₀ : State σ} {t : Task} {r : Except Fault String}, Concluded s₀ i t r s' →
      s₀.tasks = s.tasks → s.tasks[i]? = some t → (∀ o, t.phase ≠ .finished o) →
      ∃ t p, s.tasks[i]? = some t ∧ t.phase.Leads p ∧
        s'.tasks[i]? = some { t with phase := p } := by
    intro s₀ t r hc hs₀ ht hun
    obtain ⟨o, -, hu⟩ := hc.self (by rw [hs₀, ht])
    exact ⟨t, _, ht, .ended hun o, hu⟩
  cases h with
  | rest h => exact .inl ⟨h, rfl⟩
  | broken ht htrouble hc => exact .inr (hended hc rfl ht htrouble.unfinished)
  | answered ht hp ha hs hc => exact .inr (hended hc rfl ht (by simp [hp]))
  | @claimed t k urls ht hp ha hs =>
    obtain ⟨fallbacks, rfl, hlen⟩ := Demand.aim_urls ha
    exact .inr ⟨t, _, ht, hp ▸ .claimed k (Nat.succ_le_succ hlen), enter_self ht _⟩
  | @retried t k url urls errors errors' e ht hp hr hurls =>
    exact .inr ⟨t, _, ht, hp ▸ .retried k url urls errors errors', enter_self ht _⟩
  | lost ht hp hr htold hc => exact .inr (hended hc rfl ht (by simp [hp]))
  | @drafted t k url urls errors source ht hp hr =>
    exact .inr ⟨t, _, ht, hp ▸ .drafted k url urls errors rfl,
      enter_self (getElem?_offspring ht _ _) _⟩
  | @proceeded t k d tree requests ht hp hd hrest hr =>
    exact .inr ⟨t, _, ht, hp ▸ .proceeded k (by rw [hrest]; rfl) _,
      enter_self (getElem?_offspring ht _ _) _⟩
  | settled ht hp hd hrest htext hs hc => exact .inr (hended hc rfl ht (by simp [hp]))

end State

end ModuleGraph.Loading
