import ModuleGraph.Proofs.Loading.Together
import ModuleGraph.Proofs.Loading.Whole
/-!
# Loads side by side

What a task does depends on the tasks, on the store and on what it fetches, but on nothing else of
the world. So two settings that lead names to the same URLs keep in step for as long as they fetch
the same: the tasks and the stores stay the same, whatever the worlds are. In particular a run over
any world is that over a world that never changes, if every fetch has the answer that its URL has
for good.

Results:
* `State.next?_turn`: a step changes the world by the fetch that is next, and by nothing else;
* `Mirrors.step`: a step in two settings, if they fetch the same;
* `Lockstep.run`: states that keep in step at every turn do so in whole runs;
* `Shadow.step`: a step next to a world that never changes;
* `Shadow.reach_of_next?`: what is fetched next is a reachable module.
-/

namespace ModuleGraph.Loading

variable {σ τ : Type}

/-- Both settings lead names to the same URLs. -/
structure Setting.Matches (c : Setting σ) (c' : Setting τ) : Prop where
  importMap : c.importMap = c'.importMap
  libraryDir : c.libraryDir = c'.libraryDir
  bundledDir : c.bundledDir = c'.bundledDir

namespace State

/-- The URL that the task at a place fetches when it advances. -/
def next? (s : State σ) (i : Nat) : Option String :=
  match s.phase? i with
  | some (.fetching _ urls _) => urls.head?
  | _ => none

theorem next?_of_fetching (s : State σ) {i : Nat} {t : Task} {k : Claim} {urls errors : List String}
    (ht : s.tasks[i]? = some t) (hp : t.phase = .fetching k urls errors) :
    s.next? i = urls.head? := by
  rw [next?, phase?_of_tasks ht, hp]

theorem next?_eq_none (s : State σ) {i : Nat} {t : Task} (ht : s.tasks[i]? = some t)
    (hp : ∀ k urls errors, t.phase ≠ .fetching k urls errors) : s.next? i = none := by
  rw [next?, phase?_of_tasks ht]
  cases h : t.phase with
  | fetching k urls errors => exact absurd h (hp k urls errors)
  | ready => rfl
  | rewriting k d => rfl
  | finished o => rfl

theorem fetching_of_next? {s : State σ} {i : Nat} {url : String} (h : s.next? i = some url) :
    ∃ t k urls errors, s.tasks[i]? = some t ∧ t.phase = .fetching k (url :: urls) errors := by
  rw [next?] at h
  split at h
  · next k urls errors hp =>
    obtain ⟨t, ht, hp⟩ := tasks_of_phase? hp
    obtain ⟨rest, rfl⟩ := List.head?_eq_some_iff.1 h
    exact ⟨t, k, rest, errors, ht, hp⟩
  · cases h

/-- The tasks and the stores are the same. -/
structure Mirrors (s : State σ) (s' : State τ) : Prop where
  store : s.store = s'.store
  tasks : s.tasks = s'.tasks

namespace Mirrors

variable {s : State σ} {s' : State τ}

theorem start (w : σ) (w' : τ) : (State.start w).Mirrors (State.start w') := ⟨rfl, rfl⟩

theorem withWorld (h : s.Mirrors s') (w : σ) (w' : τ) :
    { s with world := w }.Mirrors { s' with world := w' } := ⟨h.store, h.tasks⟩

theorem withStore (h : s.Mirrors s') (store : ModuleStore) :
    { s with store := store }.Mirrors { s' with store := store } := ⟨rfl, h.tasks⟩

theorem tell (h : s.Mirrors s') (n n' : Notice) : (s.tell n).Mirrors (s'.tell n') :=
  ⟨h.store, h.tasks⟩

theorem enter (h : s.Mirrors s') (i : Nat) (p : Phase) : (s.enter i p).Mirrors (s'.enter i p) := by
  refine ⟨h.store, ?_⟩
  rw [State.enter, State.enter, h.tasks]

theorem finish (h : s.Mirrors s') (i : Nat) (o : Outcome) :
    (s.finish i o).Mirrors (s'.finish i o) := h.enter i _

theorem ask (h : s.Mirrors s') (parent : Option Nat) (demands : List Demand) :
    (s.ask parent demands).1.Mirrors (s'.ask parent demands).1 ∧
      (s.ask parent demands).2 = (s'.ask parent demands).2 := by
  refine ⟨⟨h.store, ?_⟩, ?_⟩
  · rw [State.ask, State.ask, h.tasks]
  · rw [State.ask, State.ask, h.tasks]

theorem outcome?_eq (h : s.Mirrors s') : s.outcome? = s'.outcome? := by
  funext i
  rw [State.outcome?, State.outcome?, h.tasks]

theorem next?_eq (h : s.Mirrors s') : s.next? = s'.next? := by
  funext i
  rw [State.next?, State.next?, State.phase?, State.phase?, h.tasks]

theorem failure?_eq (h : s.Mirrors s') : s.failure? = s'.failure? := by
  funext places
  rw [State.failure?, State.failure?, h.outcome?_eq]

theorem allFinished_eq (h : s.Mirrors s') : s.allFinished = s'.allFinished := by
  funext places
  rw [State.allFinished, State.allFinished, h.outcome?_eq]

theorem isQuiet_eq (h : s.Mirrors s') : s.isQuiet = s'.isQuiet := by
  have hawake : s.isAwake = s'.isAwake := by
    funext i
    simp only [State.isAwake, h.tasks, h.failure?_eq, h.allFinished_eq]
  rw [State.isQuiet, State.isQuiet, hawake, h.tasks]

/-- An edit is accepted or refused on both sides. -/
theorem edit (h : s.Mirrors s') (parent : Option Nat) (t : Target) (path : String) :
    (∃ e, s.edit parent t path = .error e ∧ s'.edit parent t path = .error e) ∨
      ∃ u u', s.edit parent t path = .ok u ∧ s'.edit parent t path = .ok u' ∧ u.Mirrors u' := by
  unfold State.edit
  cases parent with
  | none => exact .inr ⟨s, s', rfl, rfl, h⟩
  | some p =>
    dsimp only
    rw [← h.tasks]
    split
    · next c d _ =>
      cases Rewrite.apply d.editor t path with
      | error e => exact .inl ⟨e, rfl, rfl⟩
      | ok editor => exact .inr ⟨_, _, rfl, rfl, h.enter p _⟩
    · exact .inr ⟨s, s', rfl, rfl, h⟩

theorem conclude (h : s.Mirrors s') (i : Nat) (r : Except Fault String) :
    (s.conclude i r).Mirrors (s'.conclude i r) := by
  unfold State.conclude
  rw [← h.tasks]
  cases s.tasks[i]? with
  | none => exact h
  | some t =>
    obtain ⟨parent, demand, phase⟩ := t
    cases r with
    | ok path =>
      cases demand with
      | module url asUrl => exact h.finish i _
      | target source t =>
        dsimp only
        rcases h.edit parent t path with ⟨e, he, he'⟩ | ⟨u, u', hu, hu', hmirrors⟩
        · rw [he, he']
          exact h.finish i _
        · rw [hu, hu']
          exact hmirrors.finish i _
      | library name => exact h.finish i _
      | required name => exact h.finish i _
    | error e =>
      cases demand with
      | module url asUrl => exact h.finish i _
      | target source t =>
        dsimp only
        split_ifs
        · exact (h.tell _ _).finish i _
        · exact h.finish i _
      | library name =>
        dsimp only
        split_ifs
        · exact (h.tell _ _).finish i _
        · exact h.finish i _
      | required name => exact h.finish i _

theorem claim (h : s.Mirrors s') (i : Nat) (url asUrl : String) (fallbacks : List String) :
    (s.claim i url asUrl fallbacks).Mirrors (s'.claim i url asUrl fallbacks) := by
  unfold State.claim
  cases virtualPath asUrl with
  | error e => exact h.conclude i _
  | ok path =>
    dsimp only
    rw [← h.store]
    split
    · exact h.conclude i _
    · next store _ => exact (h.withStore store).enter i _

theorem draft (h : s.Mirrors s') (i : Nat) (k : Claim) (source : Fetch.Source) :
    (s.draft i k source).Mirrors (s'.draft i k source) := by
  unfold State.draft
  dsimp only
  have htold : ∀ (events : List Event) (u : State σ) (u' : State τ), u.Mirrors u' →
      (events.foldl (fun s e => s.tell (.event e)) u).Mirrors
        (events.foldl (fun s e => s.tell (.event e)) u') := by
    intro events
    induction events with
    | nil => exact fun _ _ hu => hu
    | cons e events ih => exact fun u u' hu => ih _ _ (hu.tell _ _)
  obtain ⟨hasked, hplaces⟩ := (htold (Rewrite.syntaxEvents k.path
    (Syntax.parse (.ofFileName k.path) source.text)) s s' h).ask (some i)
    ((Rewrite.directives source.text).map (demandOf source.url))
  rw [hplaces]
  exact hasked.enter i _

section

variable {c : Setting σ} {c' : Setting τ} (hc : c.Matches c')

include hc

theorem begin (h : s.Mirrors s') (i : Nat) (d : Demand) :
    (s.begin c i d).Mirrors (s'.begin c' i d) := by
  have hlibrary : ∀ name, (s.claimLibrary c i name).Mirrors (s'.claimLibrary c' i name) := by
    intro name
    unfold State.claimLibrary
    rw [← hc.libraryDir, ← hc.bundledDir]
    cases Library.primaryUrl c.libraryDir name with
    | error p => exact h.conclude i _
    | ok url =>
      cases Library.fallbackUrl c.bundledDir name with
      | error p => exact h.conclude i _
      | ok fallback => exact h.claim i url url [fallback]
  unfold State.begin
  cases d with
  | module url asUrl => exact h.claim i url asUrl []
  | target source t =>
    dsimp only
    rw [← hc.importMap]
    cases c.importMap.resolve source t.specifier with
    | error e => exact h.conclude i _
    | ok url => exact h.claim i url url []
  | library name => exact hlibrary name
  | required name => exact hlibrary name

omit hc in
theorem fetchNext (h : s.Mirrors s') (i : Nat) (k : Claim) {urls : List String}
    (errors : List String)
    (hf : ∀ url, urls.head? = some url → (c.fetch url s.world).1 = (c'.fetch url s'.world).1) :
    (s.fetchNext c i k urls errors).Mirrors (s'.fetchNext c' i k urls errors) := by
  unfold State.fetchNext
  cases urls with
  | nil => exact h.conclude i _
  | cons url rest =>
    have hworld := h.withWorld (c.fetch url s.world).2 (c'.fetch url s'.world).2
    dsimp only
    rw [← hf url rfl]
    cases (c.fetch url s.world).1 with
    | ok source => exact hworld.draft i k source
    | error e =>
      dsimp only
      split_ifs
      · exact (hworld.tell _ _).conclude i _
      · exact (hworld.tell _ _).enter i _
      · exact hworld.conclude i _

omit hc in
theorem settle (h : s.Mirrors s') (i : Nat) (k : Claim) (url text : String) :
    (s.settle c i k url text).Mirrors (s'.settle c' i k url text) := by
  unfold State.settle
  rw [← h.store]
  cases s.store.fill k.path text with
  | error p => exact h.conclude i _
  | ok store => exact ((h.withStore store).tell _ _).conclude i _

omit hc in
theorem advance (h : s.Mirrors s') (i : Nat) (k : Claim) (d : Draft) :
    (s.advance c i k d).Mirrors (s'.advance c' i k d) := by
  unfold State.advance
  cases d.rest with
  | some tree =>
    dsimp only
    cases Rewrite.specifiers d.editor.original tree with
    | error m => exact h.conclude i _
    | ok requests =>
      obtain ⟨hasked, hplaces⟩ := h.ask (some i) (requests.map (demandOf d.source.url))
      dsimp only
      rw [hplaces]
      exact hasked.enter i _
  | none =>
    dsimp only
    cases d.editor.toText with
    | error m => exact h.conclude i _
    | ok text => exact h.settle i k d.source.url text

omit hc in
theorem resume (h : s.Mirrors s') (i : Nat) (k : Claim) (d : Draft) :
    (s.resume c i k d).Mirrors (s'.resume c' i k d) := by
  unfold State.resume
  rw [← h.failure?_eq, ← h.allFinished_eq]
  cases s.failure? d.pending with
  | some e => exact h.conclude i _
  | none =>
    dsimp only
    split_ifs
    · exact h.advance i k d
    · exact h

/-- A step in two settings, if what it fetches is the same in both. -/
theorem step (h : s.Mirrors s') (i : Nat)
    (hf : ∀ url, s.next? i = some url → (c.fetch url s.world).1 = (c'.fetch url s'.world).1) :
    (s.step c i).Mirrors (s'.step c' i) := by
  unfold State.step
  rw [← h.tasks]
  cases ht : s.tasks[i]? with
  | none => exact h
  | some t =>
    dsimp only
    cases hp : t.phase with
    | ready => exact h.begin hc i t.demand
    | fetching k urls errors =>
      refine h.fetchNext i k errors fun url hurl => hf url ?_
      rw [s.next?_of_fetching ht hp, hurl]
    | rewriting k d => exact h.resume i k d
    | finished o => exact h

end

end Mirrors

/-- What a step does in the world is the fetch that is next. -/
theorem next?_turn {c : Setting σ} {s s' : State σ} {i : Nat} {ds : List Deed}
    (h : Turn c s i ds s') : ds.filterMap Deed.url? = (s.next? i).toList ∧
      s'.world = (s.next? i).toList.foldl (fun w url => (c.fetch url w).2) s.world := by
  cases h with
  | rest hr =>
    have hnone : s.next? i = none := by
      rw [Option.eq_none_iff_forall_ne_some]
      intro url hurl
      obtain ⟨t, k, urls, errors, ht, hp⟩ := fetching_of_next? hurl
      rw [isAwake, ht] at hr
      simp only [hp] at hr
      cases hr
    rw [hnone]
    exact ⟨rfl, rfl⟩
  | @broken t e _ ht htrouble hc =>
    have hnone : s.next? i = none := by
      generalize hp : t.phase = p at htrouble
      cases htrouble with
      | spent => exact s.next?_of_fetching ht hp
      | refused _ => exact s.next?_eq_none ht (by simp [hp])
      | inherited _ => exact s.next?_eq_none ht (by simp [hp])
      | unread _ _ => exact s.next?_eq_none ht (by simp [hp])
      | garbled _ _ => exact s.next?_eq_none ht (by simp [hp])
      | unfilled _ => exact s.next?_eq_none ht (by simp [hp])
    rw [hnone]
    exact ⟨rfl, hc.world⟩
  | answered ht hp _ _ hc =>
    rw [s.next?_eq_none ht (by simp [hp])]
    exact ⟨rfl, hc.world⟩
  | claimed ht hp _ _ =>
    rw [s.next?_eq_none ht (by simp [hp])]
    exact ⟨rfl, rfl⟩
  | retried ht hp _ _ =>
    rw [s.next?_of_fetching ht hp]
    exact ⟨rfl, rfl⟩
  | lost ht hp _ _ hc =>
    rw [s.next?_of_fetching ht hp]
    exact ⟨rfl, hc.world⟩
  | drafted ht hp _ =>
    rw [s.next?_of_fetching ht hp]
    exact ⟨rfl, rfl⟩
  | proceeded ht hp _ _ _ =>
    rw [s.next?_eq_none ht (by simp [hp])]
    exact ⟨rfl, rfl⟩
  | settled ht hp _ _ _ _ hc =>
    rw [s.next?_eq_none ht (by simp [hp])]
    exact ⟨rfl, hc.world⟩

end State

/-! ## Runs in step -/

/-- States that are related keep in step, whichever task advances. -/
structure Lockstep (c : Setting σ) (c' : Setting τ) (R : State σ → State τ → Prop) : Prop where
  mirrors : ∀ {s s'}, R s s' → s.Mirrors s'
  step : ∀ {s s'} (i : Nat), R s s' → R (s.step c i) (s'.step c' i)

namespace Lockstep

variable {c : Setting σ} {c' : Setting τ} {R : State σ → State τ → Prop} {s : State σ}
  {s' : State τ}

theorem follow (h : Lockstep c c' R) (hs : R s s') (places : List Nat) :
    R (s.follow c places) (s'.follow c' places) := by
  induction places generalizing s s' with
  | nil => exact hs
  | cons i places ih => exact ih (h.step i hs)

theorem runFor (h : Lockstep c c' R) (hs : R s s') (awaited : List Nat) (n : Nat) :
    R (s.runFor c awaited n) (s'.runFor c' awaited n) := by
  induction n generalizing s s' with
  | zero => exact hs
  | succ n ih =>
    have hm := h.mirrors hs
    rw [State.runFor, State.runFor, hm.isQuiet_eq, hm.failure?_eq]
    split
    · exact hs
    · refine ih ?_
      rw [State.round, State.round, hm.tasks]
      exact h.follow hs _

/-- So they are related when they have run. -/
theorem run (h : Lockstep c c' R) (hs : R s s') (awaited : List Nat) :
    R (s.run c awaited) (s'.run c' awaited) := h.runFor hs awaited State.roundLimit

end Lockstep

/-! ## A world that never changes -/

/-- The setting over a world that never changes, in which each URL has one answer for good. -/
def Setting.still (c : Setting σ) (fetch : String → Except Fault Fetch.Source) : Setting Unit :=
  ⟨c.importMap, c.libraryDir, c.bundledDir, c.libraryLocation, fun url w => (fetch url, w)⟩

variable {c : Setting σ} {fetch : String → Except Fault Fetch.Source} {demands : List Demand}
  {files : List (String × String)}

theorem Setting.matches_still (c : Setting σ) (fetch : String → Except Fault Fetch.Source) :
    c.Matches (c.still fetch) := ⟨rfl, rfl, rfl⟩

theorem Setting.answers_still (c : Setting σ) (fetch : String → Except Fault Fetch.Source) :
    (c.still fetch).Answers fetch := fun _ _ => rfl

theorem Setting.Covers.still (h : c.Covers fetch demands files) :
    (c.still fetch).Covers fetch demands files := ⟨h.roots, h.brings, h.whole, h.apart⟩

/-- A state, and the state of the same loads over a world that never changes. -/
structure Shadow (c : Setting σ) (fetch : String → Except Fault Fetch.Source)
    (demands : List Demand) (files : List (String × String)) (s : State σ) (s₀ : State Unit)
    (log : List Deed) : Prop where
  mirrors : s.Mirrors s₀
  reached : Reached (c.still fetch) () (Move.Among demands files) s₀ log

namespace Shadow

variable {s : State σ} {s₀ : State Unit} {log : List Deed}

theorem start (w : σ) : Shadow c fetch demands files (.start w) (.start ()) [] :=
  ⟨.start w (), .start⟩

/-- The world and what was told do not matter. -/
theorem congr (h : Shadow c fetch demands files s s₀ log) {s' : State σ}
    (hstore : s'.store = s.store) (htasks : s'.tasks = s.tasks) :
    Shadow c fetch demands files s' s₀ log :=
  ⟨⟨hstore.trans h.mirrors.store, htasks.trans h.mirrors.tasks⟩, h.reached⟩

theorem add (h : Shadow c fetch demands files s s₀ log) {path text : String}
    (hmem : (path, text) ∈ files) : Shadow c fetch demands files (s.move c (.add path text))
      (s₀.move (c.still fetch) (.add path text))
      (log ++ s₀.moveDeeds (c.still fetch) (.add path text)) where
  mirrors := by
    rw [State.move, State.move, ← h.mirrors.store]
    cases s.store.add path text with
    | error p => exact h.mirrors
    | ok store => exact h.mirrors.withStore store
  reached := h.reached.move hmem

theorem ask (h : Shadow c fetch demands files s s₀ log) {ds : List Demand}
    (hds : ∀ d ∈ ds, d ∈ demands) :
    Shadow c fetch demands files (s.ask none ds).1 (s₀.ask none ds).1 log where
  mirrors := (h.mirrors.ask none ds).1
  reached := by
    obtain ⟨hstate, hlog⟩ := s₀.ask_eq_play (c.still fetch) ds
    have hplay := h.reached.play (ds.map .ask) fun m hm => by
      obtain ⟨d, hd, rfl⟩ := List.mem_map.1 hm
      exact hds d hd
    rwa [hlog, List.append_nil, ← hstate] at hplay

/-- A step, if what it fetches is what the URL has for good. -/
theorem step (h : Shadow c fetch demands files s s₀ log) (i : Nat)
    (hf : ∀ url, s.next? i = some url → (c.fetch url s.world).1 = fetch url) :
    Shadow c fetch demands files (s.step c i) (s₀.step (c.still fetch) i)
      (log ++ s₀.deeds (c.still fetch) i) where
  mirrors := h.mirrors.step (c.matches_still fetch) i hf
  reached := h.reached.move (m := .step i) trivial

variable (hc : c.Covers fetch demands files)

include hc

theorem run (h : Shadow c fetch demands files s s₀ log) :
    Run (c.still fetch) fetch (c.roots demands) () s₀ log :=
  hc.still.run (c.answers_still fetch) h.reached

end Shadow

end ModuleGraph.Loading
