import ModuleGraph.Proofs.Loading.History
import ModuleGraph.Proofs.Rewrite
/-!
# The edits of a draft

A draft asks for modules, and each of the tasks that it asks for may write one edit into it. Here it
is told what one step does to the tasks that were asked for and to the edits of a draft.

Results:
* `Turn.asked`, `Turn.finished`: what was asked for stays, and so does what has ended;
* `Turn.mem_edits_iff`, `Turn.draft`: what a step does to the edits of a draft.
-/

namespace ModuleGraph.Loading

variable {σ : Type}

/-- The text is fetched, or the task has ended. -/
def Phase.IsPastFetching : Phase → Prop
  | .ready | .fetching .. => False
  | .rewriting .. | .finished _ => True

theorem Phase.Leads.isPastFetching {p p' : Phase} (h : p.Leads p') (hp : p.IsPastFetching) :
    p'.IsPastFetching := by
  cases h with
  | ended _ _ => exact trivial
  | claimed _ _ => exact hp.elim
  | retried _ _ _ _ _ => exact hp.elim
  | drafted _ _ _ _ _ => exact trivial
  | proceeded _ _ _ => exact trivial

/-- The edit that a task has led to: a task that was asked for a target and has a path. -/
def Task.edit? (t : Task) : Option Edit :=
  match t.demand, t.phase with
  | .target _ target, .finished (.loaded path) => some (Rewrite.edit target path)
  | _, _ => none

/-- The task has ended with no fault for the task that asked. -/
def Task.Done (t : Task) : Prop := ∃ o, t.phase = .finished o ∧ ∀ e, o ≠ .failed e

theorem Task.edit?_eq_some_iff (t : Task) (e : Edit) :
    t.edit? = some e ↔ ∃ source target path, t.demand = .target source target ∧
      t.phase = .finished (.loaded path) ∧ e = Rewrite.edit target path := by
  obtain ⟨parent, demand, phase⟩ := t
  constructor
  · intro h
    unfold edit? at h
    split at h
    · next source target path hd hp => exact ⟨source, target, path, hd, hp, by simpa using h.symm⟩
    · cases h
  · rintro ⟨source, target, path, hd, hp, rfl⟩
    simp only at hd hp
    subst hd hp
    rfl

namespace Task.Kept

variable {t u : Task}

theorem parent_eq (h : t.Kept u) : u.parent = t.parent := by
  cases h <;> rfl

theorem demand_eq (h : t.Kept u) : u.demand = t.demand := by
  cases h <;> rfl

theorem edit?_eq (h : t.Kept u) : u.edit? = t.edit? := by
  cases h with
  | same => rfl
  | edited hp e => cases hd : t.demand <;> simp [edit?, hp, hd]

theorem eq_of_finished (h : t.Kept u) {o : Outcome} (ht : t.phase = .finished o) : u = t := by
  cases h with
  | same => rfl
  | edited hp e =>
    rw [hp] at ht
    cases ht

theorem done (h : t.Kept u) (hd : t.Done) : u.Done := by
  obtain ⟨o, ho, hne⟩ := hd
  rw [h.eq_of_finished ho]
  exact ⟨o, ho, hne⟩

end Task.Kept

/-- A task that fails has not led to an edit. -/
theorem Demand.verdict_ne_loaded (d : Demand) (e : Fault) (path : String) :
    d.verdict e ≠ .loaded path := by
  cases d with
  | module url asUrl => simp [verdict]
  | required name => simp [verdict]
  | target source t => by_cases he : e.isOwn = true <;> simp [verdict, he]
  | library name => by_cases he : e.isOwn = true <;> simp [verdict, he]

namespace State

/-! ## What a task has asked for -/

/-- What the task at `i` has asked for, in the order in which it asked. -/
def asked (s : State σ) (i : Nat) : List Demand :=
  s.tasks.filterMap fun t => if t.parent = some i then some t.demand else none

/-- The edits that the tasks asked for by the task at `i` have led to. -/
def edits (s : State σ) (i : Nat) : List Edit :=
  s.tasks.filterMap fun t => if t.parent = some i then t.edit? else none

theorem mem_edits_iff (s : State σ) (i : Nat) (e : Edit) : e ∈ s.edits i ↔
    ∃ (j : Nat) (t : Task), s.tasks[j]? = some t ∧ t.parent = some i ∧ t.edit? = some e := by
  rw [edits, List.mem_filterMap]
  constructor
  · rintro ⟨t, ht, he⟩
    obtain ⟨j, hj⟩ := List.mem_iff_getElem?.1 ht
    split at he
    · next hp => exact ⟨j, t, hj, hp, he⟩
    · cases he
  · rintro ⟨j, t, hj, hp, he⟩
    exact ⟨t, List.mem_of_getElem? hj, by rw [if_pos hp, he]⟩

theorem filterMap_modify {α β : Type} {f : α → Option β} {g : α → α} (h : ∀ a, f (g a) = f a)
    (l : List α) (i : Nat) : (l.modify i g).filterMap f = l.filterMap f := by
  induction l generalizing i with
  | nil => simp
  | cons a l ih =>
    cases i with
    | zero => simp [List.filterMap_cons, h]
    | succ i => simp [List.filterMap_cons, ih]

@[simp] theorem asked_enter (s : State σ) (i : Nat) (p : Phase) (q : Nat) :
    (s.enter i p).asked q = s.asked q :=
  filterMap_modify (g := fun t : Task => { t with phase := p }) (fun _ => rfl) s.tasks i

theorem asked_offspring (world : σ) (store : ModuleStore) (notices : List Notice)
    (tasks : List Task) (i : Nat) (demands : List Demand) (q : Nat) :
    State.asked ⟨world, store, notices, tasks ++ offspring i demands⟩ q =
      State.asked ⟨world, store, notices, tasks⟩ q ++ if q = i then demands else [] := by
  simp only [asked, List.filterMap_append, offspring, List.filterMap_map]
  congr 1
  by_cases hq : q = i
  · subst hq
    simp
  · have hi : ¬ i = q := fun h => hq h.symm
    simp [hq, hi]

theorem Concluded.asked {s s' : State σ} {i : Nat} {t : Task} {r : Except Fault String}
    (h : Concluded s i t r s') (q : Nat) : s'.asked q = s.asked q := by
  cases h with
  | faulted e => exact asked_enter ..
  | plain h => exact asked_enter ..
  | written h he => exact (asked_enter ..).trans (asked_enter ..)
  | clashed h he => exact asked_enter ..

/-- A step asks for nothing in the name of another task. -/
theorem Turn.asked {c : Setting σ} {s s' : State σ} {i : Nat} {ds : List Deed}
    (h : Turn c s i ds s') {q : Nat} (hq : q ≠ i) : s'.asked q = s.asked q := by
  cases h with
  | rest h => rfl
  | broken ht h hc => exact hc.asked q
  | answered ht hp ha hs hc => exact hc.asked q
  | claimed ht hp ha hs => exact asked_enter ..
  | retried ht hp hr hurls => exact asked_enter ..
  | lost ht hp hr htold hc => exact hc.asked q
  | drafted ht hp hr =>
    rw [asked_enter, asked_offspring, if_neg hq, List.append_nil]
    rfl
  | proceeded ht hp hd hrest hr =>
    rw [asked_enter, asked_offspring, if_neg hq, List.append_nil]
  | settled ht hp hd hrest htext hs hc => exact hc.asked q

/-! ## Tasks that have ended -/

/-- The task that advances keeps its parent and its demand. -/
theorem Turn.self {c : Setting σ} {s s' : State σ} {i : Nat} {ds : List Deed}
    (h : Turn c s i ds s') {t : Task} (ht : s.tasks[i]? = some t) :
    ∃ p, s'.tasks[i]? = some { t with phase := p } := by
  rcases h.leads with ⟨-, hs⟩ | ⟨t', p, ht', -, hu⟩
  · exact ⟨t.phase, hs ▸ ht⟩
  · rw [ht, Option.some.injEq] at ht'
    exact ⟨p, ht' ▸ hu⟩

/-- A task that has ended, or is not there, does not advance. -/
theorem Turn.eq_of_finished {c : Setting σ} {s s' : State σ} {i : Nat} {ds : List Deed}
    (h : Turn c s i ds s') (hi : ∀ t, s.tasks[i]? = some t → ∃ o, t.phase = .finished o) :
    s' = s := by
  rcases h.leads with ⟨-, hs⟩ | ⟨t, p, ht, hlead, -⟩
  · exact hs
  · obtain ⟨o, ho⟩ := hi t ht
    rw [ho] at hlead
    cases hlead with
    | ended hun => exact absurd rfl (hun o)

/-- A task that has ended is left as it is. -/
theorem Turn.finished {c : Setting σ} {s s' : State σ} {i j : Nat} {ds : List Deed}
    (h : Turn c s i ds s') {t : Task} {o : Outcome} (ht : s.tasks[j]? = some t)
    (ho : t.phase = .finished o) : s'.tasks[j]? = some t := by
  by_cases hj : j = i
  · subst hj
    rw [h.eq_of_finished fun t' ht' => ⟨o, (Option.some.inj (ht.symm.trans ht')) ▸ ho⟩]
    exact ht
  · have hlt : j < s.tasks.length := (List.getElem?_eq_some_iff.1 ht).1
    have hu := List.getElem?_eq_getElem (Nat.lt_of_lt_of_le hlt h.length_le)
    rcases h.other hj hu with ⟨v, hv, hkept⟩ | ⟨hle, -⟩
    · rw [ht, Option.some.injEq] at hv
      subst hv
      rw [hu, hkept.eq_of_finished ho]
    · omega

/-! ## Edits of a draft -/

/-- The step from `s` to `s'` ends the task at `i`, which has led to an edit for the task that
asked for it, `q`. -/
def NewEdit (s s' : State σ) (i q : Nat) (e : Edit) : Prop :=
  ∃ (t u : Task), s.tasks[i]? = some t ∧ t.edit? = none ∧ s'.tasks[i]? = some u ∧
    u.parent = some q ∧ u.edit? = some e

theorem edit?_of_unfinished {t : Task} (h : ∀ o, t.phase ≠ .finished o) : t.edit? = none := by
  cases he : t.edit? with
  | none => rfl
  | some e =>
    obtain ⟨_, _, path, -, hp, -⟩ := (t.edit?_eq_some_iff e).1 he
    exact absurd hp (h _)

theorem newEdit_iff {s s' : State σ} {i q : Nat} {t u : Task} {e : Edit}
    (ht : s.tasks[i]? = some t) (hun : ∀ o, t.phase ≠ .finished o) (hu : s'.tasks[i]? = some u)
    (hp : u.parent = some q) (he : u.edit? = some e) (e' : Edit) :
    s.NewEdit s' i q e' ↔ e' = e := by
  constructor
  · rintro ⟨_, u', -, -, hu', -, he'⟩
    rw [hu, Option.some.injEq] at hu'
    rw [← hu', he, Option.some.injEq] at he'
    exact he'.symm
  · rintro rfl
    exact ⟨t, u, ht, edit?_of_unfinished hun, hu, hp, he⟩

/-- A step leads to no more than one edit, that of the task which it ends. -/
theorem Turn.mem_edits_iff {c : Setting σ} {s s' : State σ} {i : Nat} {ds : List Deed}
    (h : Turn c s i ds s') (q : Nat) (e : Edit) :
    e ∈ s'.edits q ↔ e ∈ s.edits q ∨ s.NewEdit s' i q e := by
  simp only [State.mem_edits_iff]
  constructor
  · rintro ⟨j, u, hu, hp, he⟩
    by_cases hj : j = i
    · subst hj
      cases ht : s.tasks[j]? with
      | none =>
        rw [h.eq_of_finished fun t ht' => by rw [ht] at ht'; cases ht'] at hu
        exact .inl ⟨j, u, hu, hp, he⟩
      | some t =>
        cases het : t.edit? with
        | none => exact .inr ⟨t, u, ht, het, hu, hp, he⟩
        | some e' =>
          obtain ⟨_, _, path, -, ho, -⟩ := (Task.edit?_eq_some_iff _ e').1 het
          rw [h.finished ht ho] at hu
          exact .inl ⟨j, u, Option.some.inj hu ▸ ht, hp, he⟩
    · rcases h.other hj hu with ⟨v, hv, hkept⟩ | ⟨-, hready, -⟩
      · exact .inl ⟨j, v, hv, hkept.parent_eq ▸ hp, hkept.edit?_eq ▸ he⟩
      · have hnone : u.edit? = none := edit?_of_unfinished fun o ho => by
          rw [hready] at ho
          cases ho
        rw [hnone] at he
        cases he
  · rintro (⟨j, t, ht, hp, he⟩ | ⟨t, u, -, -, hu, hp, he⟩)
    · obtain ⟨_, _, path, -, ho, -⟩ := (t.edit?_eq_some_iff e).1 he
      exact ⟨j, t, h.finished ht ho, hp, he⟩
    · exact ⟨i, u, hu, hp, he⟩

/-- What a step does to a draft of another task: it records the edits that the step has led to. -/
structure DraftStep (new : Edit → Prop) (d₀ d : Draft) : Prop where
  same : d = { d₀ with editor := d.editor }
  original : d.editor.original = d₀.editor.original
  sound : d₀.editor.Sound → d.editor.Sound
  recorded : ∀ e, e ∈ d.editor.recorded ↔ e ∈ d₀.editor.recorded ∨ new e
  fresh : ∀ e, new e → ∀ e' ∈ d₀.editor.recorded, e'.Apart e

theorem DraftStep.refl {new : Edit → Prop} (d : Draft) (h : ∀ e, ¬ new e) : DraftStep new d d :=
  ⟨rfl, rfl, id, fun e => by simp [h e], fun e he => absurd he (h e)⟩

/-- A task that ends with another outcome than a path leads to no edit. -/
theorem not_newEdit {s s' : State σ} {i q : Nat} {t : Task} {p : Phase} {e : Edit}
    (hu : s'.tasks[i]? = some { t with phase := p })
    (hp : ∀ path, p ≠ .finished (.loaded path)) : ¬ s.NewEdit s' i q e := by
  rintro ⟨_, u, -, -, hu', -, he⟩
  rw [hu, Option.some.injEq] at hu'
  obtain ⟨_, _, path, -, ho, -⟩ := (u.edit?_eq_some_iff e).1 he
  rw [← hu'] at ho
  exact hp path ho

theorem Concluded.draft {s s' : State σ} {i : Nat} {t : Task} {r : Except Fault String}
    (h : Concluded s i t r s') (ht : s.tasks[i]? = some t) (hun : ∀ o, t.phase ≠ .finished o)
    {q : Nat} (hq : q ≠ i) {k : Claim} {d : Draft} (hd : s'.phase? q = some (.rewriting k d)) :
    ∃ d₀, s.phase? q = some (.rewriting k d₀) ∧ DraftStep (s.NewEdit s' i q) d₀ d := by
  have hphase : ∀ (s₀ : State σ) (p : Phase), (s₀.enter i p).phase? q = s₀.phase? q := by
    intro s₀ p
    rw [State.phase?, enter_ne s₀ hq.symm, State.phase?]
  cases h with
  | faulted e =>
    refine ⟨d, (hphase _ _).symm.trans hd, .refl d fun e' => ?_⟩
    apply not_newEdit (enter_self (t := t) ht _)
    intro path hp
    exact t.demand.verdict_ne_loaded e path (by simpa using hp)
  | clashed h he =>
    refine ⟨d, (hphase _ _).symm.trans hd, .refl d fun e' => ?_⟩
    exact not_newEdit (enter_self ht _) fun path hp => by cases hp
  | plain h =>
    have hd' := (hphase _ _).symm.trans hd
    refine ⟨d, hd', .refl d fun e' hnew => ?_⟩
    obtain ⟨_, u, -, -, hu, hp, he⟩ := hnew
    rw [finish, enter_self ht, Option.some.injEq] at hu
    obtain ⟨source, target, _, htarget, -, -⟩ := (u.edit?_eq_some_iff e').1 he
    rw [← hu] at htarget hp
    exact h q target k d ⟨hp, ⟨source, htarget⟩, hd'⟩
  | @written path p target k' d₀ e h he =>
    rw [finish, hphase] at hd
    obtain ⟨source, hdemand⟩ := h.demand
    -- The task that ends has led to the edit, for the task at `p`.
    have hself : ∃ u, ((s.enter p (.rewriting k' { d₀ with editor := e })).finish i
        (.loaded path)).tasks[i]? = some u ∧ u.parent = some p ∧
        u.edit? = some (Rewrite.edit target path) := by
      by_cases hpi : p = i
      · subst hpi
        refine ⟨_, enter_self (enter_self ht _) _, h.parent, ?_⟩
        simp [Task.edit?, hdemand]
      · refine ⟨_, enter_self ((enter_ne s hpi _).trans ht) _, h.parent, ?_⟩
        simp [Task.edit?, hdemand]
    obtain ⟨u, hu, hup, hue⟩ := hself
    by_cases hpq : p = q
    · subst hpq
      obtain ⟨w, hw, hphase'⟩ := tasks_of_phase? h.rewriting
      rw [phase?_enter hw] at hd
      cases hd
      obtain ⟨-, hapart, rfl⟩ := (Rewrite.apply_eq_ok_iff ..).1 he
      have hnew := newEdit_iff ht hun hu hup hue
      refine ⟨d₀, h.rewriting, rfl, rfl, fun hs => Rewrite.sound_of_apply hs he, fun e' => ?_,
        fun e' he' => ?_⟩
      · rw [List.mem_append, List.mem_singleton, hnew]
      · rw [(hnew e').1 he']
        exact hapart
    · have hd' : s.phase? q = some (.rewriting k d) := by
        rw [← hd, State.phase?, State.phase?, enter_ne s hpq]
      refine ⟨d, hd', .refl d fun e' hnew => ?_⟩
      obtain ⟨_, u', -, -, hu', hp, -⟩ := hnew
      rw [hu, Option.some.injEq] at hu'
      rw [← hu', hup, Option.some.injEq] at hp
      exact hpq hp

/-- What a step does to the drafts of the other tasks. -/
theorem Turn.draft {c : Setting σ} {s s' : State σ} {i : Nat} {ds : List Deed}
    (h : Turn c s i ds s') {q : Nat} (hq : q ≠ i) {k : Claim} {d : Draft}
    (hd : s'.phase? q = some (.rewriting k d)) :
    ∃ d₀, s.phase? q = some (.rewriting k d₀) ∧ DraftStep (s.NewEdit s' i q) d₀ d := by
  have hunfinished : ∀ {t : Task} {p : Phase}, t.phase = p → (∀ o, p ≠ .finished o) →
      ∀ o, t.phase ≠ .finished o := by
    rintro t p rfl hp
    exact hp
  have hentered : ∀ (s₀ : State σ) (t : Task) (p : Phase), s' = s₀.enter i p →
      s₀.tasks[i]? = some t → (∀ o, p ≠ .finished o) → s₀.phase? q = s.phase? q →
      ∃ d₀, s.phase? q = some (.rewriting k d₀) ∧ DraftStep (s.NewEdit s' i q) d₀ d := by
    rintro s₀ t p rfl ht hp hphase
    rw [State.phase?, enter_ne _ hq.symm, ← State.phase?, hphase] at hd
    exact ⟨d, hd, .refl d fun e => not_newEdit (enter_self ht p) fun path => hp _⟩
  have hasked : ∀ (world : σ) (notices : List Notice) (t : Task) (demands : List Demand)
      (p : Phase),
      s' = State.enter ⟨world, s.store, notices, s.tasks ++ offspring i demands⟩ i p →
      s.tasks[i]? = some t → (∀ o, p ≠ .finished o) →
      ∃ d₀, s.phase? q = some (.rewriting k d₀) ∧ DraftStep (s.NewEdit s' i q) d₀ d := by
    rintro world notices t demands p rfl ht hp
    refine hentered _ t p rfl (getElem?_offspring ht i demands) hp ?_
    rw [State.phase?, enter_ne _ hq.symm] at hd
    simp only [State.phase?] at hd ⊢
    by_cases hlt : q < s.tasks.length
    · rw [List.getElem?_append_left hlt]
    · rw [List.getElem?_append_right (Nat.le_of_not_lt hlt), offspring, List.getElem?_map] at hd
      cases hx : demands[q - s.tasks.length]? with
      | none =>
        rw [hx] at hd
        cases hd
      | some x =>
        rw [hx] at hd
        cases hd
  cases h with
  | rest h =>
    refine ⟨d, hd, .refl d fun e hnew => ?_⟩
    obtain ⟨t, u, ht, hnone, hu, -, he⟩ := hnew
    rw [ht, Option.some.injEq] at hu
    rw [← hu, hnone] at he
    cases he
  | broken ht h hc => exact hc.draft ht h.unfinished hq hd
  | answered ht hp ha hs hc => exact hc.draft ht (hunfinished hp (by simp)) hq hd
  | claimed ht hp ha hs => exact hentered _ _ _ rfl ht (by simp) rfl
  | retried ht hp hr hurls => exact hentered _ _ _ rfl ht (by simp) rfl
  | lost ht hp hr htold hc => exact hc.draft ht (hunfinished hp (by simp)) hq hd
  | drafted ht hp hr => exact hasked _ _ _ _ _ rfl ht (by simp)
  | proceeded ht hp hd' hrest hr => exact hasked _ _ _ _ _ rfl ht (by simp)
  | settled ht hp hd' hrest htext hs hc => exact hc.draft ht (hunfinished hp (by simp)) hq hd

end State

end ModuleGraph.Loading
