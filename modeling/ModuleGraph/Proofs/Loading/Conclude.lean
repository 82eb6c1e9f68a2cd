import ModuleGraph.Proofs.Loading.Aim
/-!
# The parts of a step

A step begins a load, ends one, or makes a draft of a text that was fetched. Each of these is told
here on its own: what it does to the task that advances, to the task that waits for it, and to all
others.

Results:
* `conclude_concluded`: what the end of a load does to the task that asked;
* `begin_eq`: the first step of a task in terms of its aim;
* `draft_eq`: the tasks that a draft asks for, and the draft that waits for them.
-/

namespace ModuleGraph.Loading

variable {σ : Type}

namespace State

/-! ## Updates of the state -/

@[simp] theorem enter_world (s : State σ) (i : Nat) (p : Phase) : (s.enter i p).world = s.world :=
  rfl

@[simp] theorem enter_store (s : State σ) (i : Nat) (p : Phase) : (s.enter i p).store = s.store :=
  rfl

@[simp] theorem enter_notices (s : State σ) (i : Nat) (p : Phase) :
    (s.enter i p).notices = s.notices := rfl

@[simp] theorem enter_length (s : State σ) (i : Nat) (p : Phase) :
    (s.enter i p).tasks.length = s.tasks.length := by
  simp [enter]

theorem enter_self {s : State σ} {i : Nat} {t : Task} (h : s.tasks[i]? = some t) (p : Phase) :
    (s.enter i p).tasks[i]? = some { t with phase := p } := by
  simp [enter, h]

theorem eq_of_enter {s : State σ} {i : Nat} {p : Phase} {t u : Task}
    (hu : (s.enter i p).tasks[i]? = some u) (ht : s.tasks[i]? = some t) :
    u = { t with phase := p } := by
  rw [enter_self ht, Option.some.injEq] at hu
  exact hu.symm

theorem enter_ne (s : State σ) {i j : Nat} (h : i ≠ j) (p : Phase) :
    (s.enter i p).tasks[j]? = s.tasks[j]? := by
  simp [enter, h]

/-- The phase of the task at a place. -/
def phase? (s : State σ) (i : Nat) : Option Phase := s.tasks[i]?.map Task.phase

theorem tasks_of_phase? {s : State σ} {i : Nat} {p : Phase} (h : s.phase? i = some p) :
    ∃ t, s.tasks[i]? = some t ∧ t.phase = p := by
  rw [phase?, Option.map_eq_some_iff] at h
  exact h

theorem phase?_of_tasks {s : State σ} {i : Nat} {t : Task} (h : s.tasks[i]? = some t) :
    s.phase? i = some t.phase := by
  rw [phase?, h]
  rfl

theorem phase?_enter {s : State σ} {i : Nat} {t : Task} (h : s.tasks[i]? = some t) (p : Phase) :
    (s.enter i p).phase? i = some p :=
  phase?_of_tasks (enter_self h p)

theorem eq_of_phase?_enter {s : State σ} {i : Nat} {p p' : Phase} {t : Task}
    (hp : (s.enter i p).phase? i = some p') (ht : s.tasks[i]? = some t) : p' = p := by
  rw [phase?_enter ht, Option.some.injEq] at hp
  exact hp.symm

/-! ## The end of a load -/

/-- The task at `p` has a draft into which the path of the module that `t` asked for is written:
that of `target`, in the draft `d`. -/
structure Awaits (s : State σ) (t : Task) (p : Nat) (target : Target) (k : Claim) (d : Draft) :
    Prop where
  parent : t.parent = some p
  demand : ∃ source, t.demand = .target source target
  rewriting : s.phase? p = some (.rewriting k d)

/-- What the end of the load of the task `t` at `i` does. -/
inductive Concluded (s : State σ) (i : Nat) (t : Task) : Except Fault String → State σ → Prop
  /-- The fault is told or passed on, as the demand has it. -/
  | faulted (e : Fault) : Concluded s i t (.error e)
      ({ s with notices := s.notices ++ t.demand.complaint e }.finish i (t.demand.verdict e))
  /-- There is no draft to write the path into. -/
  | plain {path : String} (h : ∀ p target k d, ¬ s.Awaits t p target k d) :
      Concluded s i t (.ok path) (s.finish i (.loaded path))
  /-- The path is written into the draft that asked for it. -/
  | written {path : String} {p : Nat} {target : Target} {k : Claim} {d : Draft} {e : Editor}
      (h : s.Awaits t p target k d) (he : Rewrite.apply d.editor target path = .ok e) :
      Concluded s i t (.ok path)
        ((s.enter p (.rewriting k { d with editor := e })).finish i (.loaded path))
  /-- The draft that asked for it refuses the edit. -/
  | clashed {path : String} {p : Nat} {target : Target} {k : Claim} {d : Draft} {f : Fault}
      (h : s.Awaits t p target k d) (he : Rewrite.apply d.editor target path = .error f) :
      Concluded s i t (.ok path) (s.finish i (.failed f))

theorem conclude_error {s : State σ} {i : Nat} {t : Task} (h : s.tasks[i]? = some t) (e : Fault) :
    s.conclude i (.error e) =
      { s with notices := s.notices ++ t.demand.complaint e }.finish i (t.demand.verdict e) := by
  obtain ⟨parent, demand, phase⟩ := t
  unfold conclude
  rw [h]
  cases demand with
  | module url asUrl => simp [Demand.complaint, Demand.verdict]
  | target source t =>
    by_cases he : e.isOwn = true
    · simp [Demand.complaint, Demand.verdict, he, tell]
    · simp [Demand.complaint, Demand.verdict, he]
  | library name =>
    by_cases he : e.isOwn = true
    · simp [Demand.complaint, Demand.verdict, he, tell]
    · simp [Demand.complaint, Demand.verdict, he]
  | required name => simp [Demand.complaint, Demand.verdict]

theorem conclude_ok {s : State σ} {i : Nat} {t : Task} (h : s.tasks[i]? = some t)
    (path : String) : Concluded s i t (.ok path) (s.conclude i (.ok path)) := by
  obtain ⟨parent, demand, phase⟩ := t
  unfold conclude
  rw [h]
  cases demand with
  | module url asUrl => exact .plain fun p target k d ha => by obtain ⟨_, hd⟩ := ha.demand; cases hd
  | library name => exact .plain fun p target k d ha => by obtain ⟨_, hd⟩ := ha.demand; cases hd
  | required name => exact .plain fun p target k d ha => by obtain ⟨_, hd⟩ := ha.demand; cases hd
  | target source t =>
    simp only [edit]
    cases parent with
    | none => exact .plain fun p target k d ha => by cases ha.parent
    | some p =>
      simp only
      rcases hp : s.tasks[p]? with _ | ⟨parent', demand', phase'⟩
      · apply Concluded.plain
        intro p' target k d ha
        cases ha.parent
        have hr := ha.rewriting
        rw [phase?, hp] at hr
        cases hr
      · by_cases hr : ∃ k d, phase' = .rewriting k d
        · obtain ⟨k, d, rfl⟩ := hr
          have ha : s.Awaits ⟨some p, .target source t, phase⟩ p t k d :=
            ⟨rfl, ⟨source, rfl⟩, by rw [phase?, hp]; rfl⟩
          cases he : Rewrite.apply d.editor t path with
          | ok e => simpa [Except.map, he] using Concluded.written ha he
          | error f => simpa [Except.map, he] using Concluded.clashed ha he
        · have hplain : ∀ p' target k d,
              ¬ s.Awaits ⟨some p, .target source t, phase⟩ p' target k d := by
            intro p' target k d ha
            cases ha.parent
            have h' := ha.rewriting
            rw [phase?, hp] at h'
            exact hr ⟨k, d, by simpa using h'⟩
          cases phase' with
          | rewriting k d => exact absurd ⟨k, d, rfl⟩ hr
          | ready => exact .plain hplain
          | fetching k urls errors => exact .plain hplain
          | finished o => exact .plain hplain

/-- A load ends in one of four ways. -/
theorem conclude_concluded {s : State σ} {i : Nat} {t : Task} (h : s.tasks[i]? = some t)
    (r : Except Fault String) : Concluded s i t r (s.conclude i r) := by
  cases r with
  | error e =>
    rw [conclude_error h]
    exact .faulted e
  | ok path => exact conclude_ok h path

namespace Concluded

variable {s s' : State σ} {i : Nat} {t : Task} {r : Except Fault String}

theorem world (h : Concluded s i t r s') : s'.world = s.world := by
  cases h with
  | faulted e => rfl
  | plain h => rfl
  | written h he => rfl
  | clashed h he => rfl

theorem store (h : Concluded s i t r s') : s'.store = s.store := by
  cases h with
  | faulted e => rfl
  | plain h => rfl
  | written h he => rfl
  | clashed h he => rfl

theorem length (h : Concluded s i t r s') : s'.tasks.length = s.tasks.length := by
  cases h with
  | faulted e => exact enter_length ..
  | plain h => exact enter_length ..
  | written h he => simp [finish]
  | clashed h he => exact enter_length ..

/-- The task whose load ends has ended. -/
theorem self (h : Concluded s i t r s') (ht : s.tasks[i]? = some t) :
    ∃ o, t.demand.Ends r o ∧ s'.tasks[i]? = some { t with phase := .finished o } := by
  cases h with
  | faulted e => exact ⟨_, rfl, enter_self ht _⟩
  | plain h => exact ⟨_, .inl rfl, enter_self ht _⟩
  | clashed h he =>
    obtain ⟨source, hd⟩ := h.demand
    exact ⟨_, .inr ⟨⟨source, _, hd⟩, _, rfl⟩, enter_self ht _⟩
  | @written path p target k d e h he =>
    by_cases hp : p = i
    · subst hp
      exact ⟨_, .inl rfl, enter_self (enter_self ht _) _⟩
    · refine ⟨_, .inl rfl, enter_self ?_ _⟩
      rw [enter_ne s hp]
      exact ht

theorem phase? (h : Concluded s i t r s') (ht : s.tasks[i]? = some t) :
    ∃ o, s'.phase? i = some (.finished o) := by
  obtain ⟨o, -, ho⟩ := h.self ht
  exact ⟨o, phase?_of_tasks ho⟩

/-- The end of a load changes no other task, except that it may write into a draft. -/
theorem other (h : Concluded s i t r s') {j : Nat} (hj : j ≠ i) {u : Task}
    (hu : s'.tasks[j]? = some u) : ∃ v, s.tasks[j]? = some v ∧ v.Kept u := by
  have hplain : ∀ p, (s.enter i p).tasks[j]? = s.tasks[j]? := fun p => enter_ne s hj.symm p
  cases h with
  | faulted e => exact ⟨u, (hplain _).symm.trans hu, .same u⟩
  | plain h => exact ⟨u, (hplain _).symm.trans hu, .same u⟩
  | clashed h he => exact ⟨u, (hplain _).symm.trans hu, .same u⟩
  | @written path p target k d e h he =>
    rw [finish, enter_ne _ hj.symm] at hu
    by_cases hp : p = j
    · subst hp
      obtain ⟨v, hv, hphase⟩ := tasks_of_phase? h.rewriting
      rw [enter_self hv, Option.some.injEq] at hu
      exact ⟨v, hv, hu ▸ .edited hphase e⟩
    · rw [enter_ne s hp] at hu
      exact ⟨u, hu, .same u⟩

end Concluded

/-! ## The first step and the draft -/

theorem begin_eq (c : Setting σ) (s : State σ) (i : Nat) (d : Demand) :
    s.begin c i d =
      match d.aim c with
      | .error e => s.conclude i (.error e)
      | .ok (k, urls) =>
        if s.store.contains k.path then s.conclude i (.ok k.path)
        else { s with store := s.store.claimed k.path }.enter i (.fetching k urls []) := by
  have hclaim : ∀ url asUrl fallbacks, s.claim i url asUrl fallbacks =
      match aimAt url asUrl fallbacks with
      | .error e => s.conclude i (.error e)
      | .ok (k, urls) =>
        if s.store.contains k.path then s.conclude i (.ok k.path)
        else { s with store := s.store.claimed k.path }.enter i (.fetching k urls []) := by
    intro url asUrl fallbacks
    unfold claim aimAt
    cases virtualPath asUrl with
    | error e => rfl
    | ok path =>
      cases hc : s.store.contains path with
      | true => simp [ModuleStore.reserve_of_contains hc, hc]
      | false => simp [ModuleStore.reserve_of_not_contains hc, hc]
  cases d with
  | module url asUrl => exact hclaim url asUrl []
  | target source t =>
    unfold begin Demand.aim
    dsimp only
    cases c.importMap.resolve source t.specifier with
    | error e => rfl
    | ok url => exact hclaim url url []
  | library name =>
    unfold begin Demand.aim claimLibrary
    dsimp only
    cases Library.primaryUrl c.libraryDir name with
    | error p => rfl
    | ok url =>
      cases Library.fallbackUrl c.bundledDir name with
      | error p => rfl
      | ok fallback => exact hclaim url url [fallback]
  | required name =>
    unfold begin Demand.aim claimLibrary
    dsimp only
    cases Library.primaryUrl c.libraryDir name with
    | error p => rfl
    | ok url =>
      cases Library.fallbackUrl c.bundledDir name with
      | error p => rfl
      | ok fallback => exact hclaim url url [fallback]

theorem foldl_tell (s : State σ) (events : List Event) :
    events.foldl (fun s e => s.tell (.event e)) s =
      { s with notices := s.notices ++ events.map .event } := by
  induction events generalizing s with
  | nil => simp
  | cons e r ih =>
    rw [List.foldl_cons, ih]
    simp [tell]

/-- The tasks that are asked for from the task at `i`. -/
def offspring (i : Nat) (demands : List Demand) : List Task :=
  demands.map fun d => ⟨some i, d, .ready⟩

theorem getElem?_offspring {s : State σ} {j : Nat} {t : Task} (h : s.tasks[j]? = some t) (i : Nat)
    (demands : List Demand) : (s.tasks ++ offspring i demands)[j]? = some t := by
  rw [List.getElem?_append_left (List.getElem?_eq_some_iff.1 h).1, h]

/-- What the directives of a fetched text ask for. -/
def firstDemands (source : Fetch.Source) : List Demand :=
  (Rewrite.directives source.text).map (demandOf source.url)

/-- The draft of a fetched text whose directives are the tasks at `places`. -/
def firstDraft (k : Claim) (source : Fetch.Source) (places : List Nat) : Draft :=
  ⟨source, .ofBytes (Utf8.encode source.text),
    some (Syntax.parse (.ofFileName k.path) source.text), places⟩

theorem draft_eq (s : State σ) (i : Nat) (k : Claim) (source : Fetch.Source) :
    s.draft i k source =
      { s with
        notices := s.notices ++ (Rewrite.syntaxEvents k.path
          (Syntax.parse (.ofFileName k.path) source.text)).map Notice.event
        tasks := s.tasks ++ offspring i (firstDemands source) }.enter i
        (.rewriting k (firstDraft k source
          (List.range' s.tasks.length (firstDemands source).length))) := by
  simp [draft, foldl_tell, ask, offspring, firstDemands, firstDraft]

end State

end ModuleGraph.Loading
