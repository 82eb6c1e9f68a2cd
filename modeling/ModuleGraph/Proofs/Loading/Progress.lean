import Mathlib.Algebra.BigOperators.Group.Finset.Basic
import Mathlib.Algebra.Order.BigOperators.Group.Finset
import Mathlib.Tactic.Choose
import ModuleGraph.Proofs.Loading.Calm
/-!
# Loads come to an end

No task waits for one that waits for it: whoever asks comes first, so the last task that has not
ended can advance. A task advances five times at most, and a finite graph of files with plans has
only so many requests. So every schedule comes to an end, and at its end every task has.

Results:
* `Reached.finished_of_isQuiet`: where no task can advance, every task has ended;
* `State.length_wakes_le`: a schedule advances each task five times at most;
* `Run.length_tasks_le`: **main theorem**: how many tasks there can be over a finite graph.
-/

namespace ModuleGraph.Loading

variable {σ : Type}

/-! ## No deadlock -/

theorem State.isQuiet_iff (s : State σ) :
    s.isQuiet = true ↔ ∀ i < s.tasks.length, s.isAwake i = false := by
  simp [isQuiet]

/-- Where no task can advance, every task has ended. -/
theorem Reached.finished_of_isQuiet {c : Setting σ} {world : σ} {allowed : Move → Prop}
    {s : State σ} {log : List Deed} (h : Reached c world allowed s log)
    (hquiet : s.isQuiet = true) : s.AllFinished := by
  -- By induction from the last task down: whatever a task waits for comes after it.
  have hdown : ∀ n j t, s.tasks.length = j + n → s.tasks[j]? = some t →
      ∃ o, t.phase = .finished o := by
    intro n
    induction n using Nat.strong_induction_on with
    | _ n ih =>
      intro j t hn ht
      have hlt := (List.getElem?_eq_some_iff.1 ht).1
      have hasleep := s.isQuiet_iff.1 hquiet j hlt
      cases hp : t.phase with
      | ready => simp [State.isAwake, ht, hp] at hasleep
      | fetching k urls errors => simp [State.isAwake, ht, hp] at hasleep
      | finished o => exact ⟨o, rfl⟩
      | rewriting k d =>
        have hdraft := h.family.drafts j k d (by rw [State.phase?_of_tasks ht, hp])
        have hall : s.allFinished d.pending = true := by
          apply List.all_eq_true.2
          intro i hi
          obtain ⟨u, hu, hup⟩ := hdraft.pending i hi
          obtain ⟨hji, -⟩ := h.family.elder i j u hu hup
          have hi' := (List.getElem?_eq_some_iff.1 hu).1
          obtain ⟨o, ho⟩ := ih (s.tasks.length - i) (by omega) i u (by omega) hu
          rw [State.outcome?, hu, Option.bind_some, u.isSome_outcome?_iff]
          exact ⟨o, ho⟩
        simp [State.isAwake, ht, hp, hall] at hasleep
  intro j t ht
  have hlt := (List.getElem?_eq_some_iff.1 ht).1
  exact hdown (s.tasks.length - j) j t (by omega) ht

/-! ## How often a task advances -/

/-- A task in this phase advances so many times at most. -/
def Phase.left : Phase → Nat
  | .ready => 5
  | .fetching _ urls _ => urls.length + 2
  | .rewriting _ d => if d.rest.isSome then 2 else 1
  | .finished _ => 0

theorem Phase.Leads.left_lt {p p' : Phase} (h : p.Leads p') : p'.left < p.left := by
  cases h with
  | ended hun o =>
    cases p with
    | ready => exact Nat.zero_lt_succ _
    | fetching k urls errors => exact Nat.zero_lt_succ _
    | rewriting k d =>
      simp only [Phase.left]
      split_ifs <;> omega
    | finished o => exact absurd rfl (hun o)
  | claimed k hlen =>
    simp only [Phase.left]
    omega
  | retried k url urls errors errors' => exact Nat.lt_succ_self _
  | drafted k url urls errors hrest =>
    simp only [Phase.left, hrest, if_true, List.length_cons]
    omega
  | proceeded k hrest pending => simp [Phase.left, hrest]

namespace State

/-- The task at `i` advances so many times at most; one that is not there yet will be ready. -/
def left (s : State σ) (i : Nat) : Nat :=
  match s.tasks[i]? with
  | some t => t.phase.left
  | none => Phase.ready.left

theorem left_of_tasks {s : State σ} {i : Nat} {t : Task} (h : s.tasks[i]? = some t) :
    s.left i = t.phase.left := by
  rw [left, h]

theorem left_le (s : State σ) {i : Nat} (h : ∀ k urls errors,
    s.phase? i = some (.fetching k urls errors) → urls.length ≤ 2) : s.left i ≤ 5 := by
  cases ht : s.tasks[i]? with
  | none =>
    rw [left, ht]
    exact Nat.le_refl _
  | some t =>
    rw [left_of_tasks ht]
    have hp := phase?_of_tasks ht
    generalize t.phase = p at hp
    cases p with
    | ready => exact Nat.le_refl _
    | fetching k urls errors =>
      have := h k urls errors hp
      simp only [Phase.left]
      omega
    | rewriting k d =>
      simp only [Phase.left]
      split_ifs <;> omega
    | finished o => exact Nat.zero_le _

/-- A task that advances has less to do. -/
theorem Turn.left_self {c : Setting σ} {s s' : State σ} {i : Nat} {ds : List Deed}
    (h : Turn c s i ds s') : s.isAwake i = false ∧ s' = s ∨ s'.left i < s.left i := by
  rcases h.leads with hrest | ⟨t, p, ht, hlead, hu⟩
  · exact .inl hrest
  · rw [left_of_tasks ht, left_of_tasks hu]
    exact .inr hlead.left_lt

theorem left_of_kept {t u : Task} (h : t.Kept u) : u.phase.left = t.phase.left := by
  cases h with
  | same => rfl
  | edited hp e =>
    rw [hp]
    rfl

/-- No task has more to do after a step. -/
theorem Turn.left_le {c : Setting σ} {s s' : State σ} {i : Nat} {ds : List Deed}
    (h : Turn c s i ds s') (j : Nat) : s'.left j ≤ s.left j := by
  by_cases hj : j = i
  · subst hj
    rcases h.left_self with ⟨-, hs⟩ | hlt
    · rw [hs]
    · exact Nat.le_of_lt hlt
  · cases hu : s'.tasks[j]? with
    | none =>
      have hlen := h.length_le
      have hnone := List.getElem?_eq_none_iff.1 hu
      rw [left, left, hu, List.getElem?_eq_none (by omega)]
    | some u =>
      rw [left_of_tasks hu]
      rcases h.other hj hu with ⟨v, hv, hkept⟩ | ⟨hle, hready, -⟩
      · rw [left_of_tasks hv, left_of_kept hkept]
      · rw [left, List.getElem?_eq_none hle, hready]

/-- The tasks that advance when this schedule is followed, in their order. -/
def wakes (c : Setting σ) : State σ → List Nat → List Nat
  | _, [] => []
  | s, i :: places =>
    if s.isAwake i then i :: wakes c (s.step c i) places else wakes c (s.step c i) places

theorem count_wakes_le (c : Setting σ) (s : State σ) (places : List Nat) (j : Nat) :
    (s.wakes c places).count j ≤ s.left j := by
  induction places generalizing s with
  | nil => exact Nat.zero_le _
  | cons i places ih =>
    have hturn := s.step_turn c i
    have hrest := ih (s.step c i)
    rw [wakes]
    split_ifs with hawake
    · rw [List.count_cons]
      split_ifs with hij
      · obtain rfl : i = j := by simpa using hij
        rcases hturn.left_self with ⟨hasleep, -⟩ | hlt
        · rw [hawake] at hasleep
          cases hasleep
        · omega
      · exact Nat.le_trans hrest (hturn.left_le j)
    · exact Nat.le_trans hrest (hturn.left_le j)

theorem follow_cons (c : Setting σ) (s : State σ) (i : Nat) (places : List Nat) :
    s.follow c (i :: places) = (s.step c i).follow c places := rfl

theorem length_follow_le (c : Setting σ) (s : State σ) (places : List Nat) :
    s.tasks.length ≤ (s.follow c places).tasks.length := by
  induction places generalizing s with
  | nil => exact Nat.le_refl _
  | cons i places ih =>
    rw [follow_cons]
    exact Nat.le_trans (s.step_turn c i).length_le (ih (s.step c i))

theorem lt_of_isAwake {s : State σ} {i : Nat} (h : s.isAwake i = true) : i < s.tasks.length := by
  apply Decidable.byContradiction
  intro hge
  rw [isAwake, List.getElem?_eq_none (Nat.le_of_not_lt hge)] at h
  cases h

theorem lt_of_mem_wakes (c : Setting σ) (s : State σ) (places : List Nat) :
    ∀ j ∈ s.wakes c places, j < (s.follow c places).tasks.length := by
  induction places generalizing s with
  | nil =>
    intro j hj
    cases hj
  | cons i places ih =>
    intro j hj
    rw [wakes] at hj
    rw [follow_cons]
    split_ifs at hj with hawake
    · rcases List.mem_cons.1 hj with rfl | hj
      · have hlt := lt_of_isAwake hawake
        have hlen := (s.step_turn c j).length_le
        have hfollow := (s.step c j).length_follow_le c places
        omega
      · exact ih (s.step c i) j hj
    · exact ih (s.step c i) j hj

/-- A schedule advances each task five times at most. -/
theorem length_wakes_le (c : Setting σ) (s : State σ) (places : List Nat)
    (hs : ∀ i, s.left i ≤ 5) :
    (s.wakes c places).length ≤ 5 * (s.follow c places).tasks.length := by
  have hsub : (s.wakes c places).toFinset ⊆ Finset.range (s.follow c places).tasks.length := by
    intro j hj
    exact Finset.mem_range.2 (s.lt_of_mem_wakes c places j (List.mem_toFinset.1 hj))
  calc (s.wakes c places).length
      = ∑ j ∈ (s.wakes c places).toFinset, (s.wakes c places).count j :=
        (List.sum_toFinset_count_eq_length _).symm
    _ ≤ ∑ j ∈ (s.wakes c places).toFinset, 5 :=
        Finset.sum_le_sum fun j _ => Nat.le_trans (s.count_wakes_le c places j) (hs j)
    _ = (s.wakes c places).toFinset.card * 5 := Finset.sum_const_nat fun _ _ => rfl
    _ ≤ (s.follow c places).tasks.length * 5 := by
        refine Nat.mul_le_mul_right 5 ?_
        simpa using Finset.card_le_card hsub
    _ = 5 * (s.follow c places).tasks.length := Nat.mul_comm _ _

end State

/-! ## How many tasks there are -/

namespace State

theorem Turn.parents {c : Setting σ} {s s' : State σ} {i : Nat} {ds : List Deed}
    (h : Turn c s i ds s') : ∃ new, s'.tasks.map Task.parent = s.tasks.map Task.parent ++ new ∧
      none ∉ new := by
  have hle := h.length_le
  refine ⟨(s'.tasks.drop s.tasks.length).map Task.parent, ?_, ?_⟩
  · conv_lhs => rw [← List.take_append_drop s.tasks.length s'.tasks, List.map_append]
    congr 1
    apply List.ext_getElem?
    intro j
    by_cases hj : j < s.tasks.length
    · obtain ⟨u, hu, hpar, -⟩ := h.persists (List.getElem?_eq_getElem hj)
      rw [List.getElem?_map, List.getElem?_map, List.getElem?_take_of_lt hj, hu,
        List.getElem?_eq_getElem hj, Option.map_some, Option.map_some, hpar]
    · rw [List.getElem?_eq_none (by simp; omega), List.getElem?_eq_none (by simp; omega)]
  · intro hmem
    obtain ⟨u, hu, hnone⟩ := List.mem_map.1 hmem
    obtain ⟨n, hn⟩ := List.mem_iff_getElem?.1 hu
    rw [List.getElem?_drop] at hn
    rcases h.origin hn with ⟨t, ht, -⟩ | ⟨-, -, hpar⟩
    · have := (List.getElem?_eq_some_iff.1 ht).1
      omega
    · rw [hnone] at hpar
      cases hpar

/-- Steps ask for nothing in nobody's name. -/
theorem parents_follow (c : Setting σ) (s : State σ) (places : List Nat) :
    ∃ new, (s.follow c places).tasks.map Task.parent = s.tasks.map Task.parent ++ new ∧
      none ∉ new := by
  induction places generalizing s with
  | nil => exact ⟨[], (List.append_nil _).symm, List.not_mem_nil⟩
  | cons i places ih =>
    obtain ⟨new, hnew, hnone⟩ := (s.step_turn c i).parents
    obtain ⟨more, hmore, hnone'⟩ := ih (s.step c i)
    refine ⟨new ++ more, ?_, ?_⟩
    · rw [follow_cons, hmore, hnew, List.append_assoc]
    · rw [List.mem_append]
      rintro (h | h)
      · exact hnone h
      · exact hnone' h

theorem follow_eq_play (c : Setting σ) (s : State σ) (places : List Nat) :
    s.follow c places = s.play c (places.map .step) := by
  rw [follow, play, List.foldl_map]
  rfl

end State

/-- How much the text of a URL asks for. -/
def Graph.weight (G : Graph) (url : String) : Nat :=
  match virtualPath url, G.fetch url with
  | .ok path, .ok source =>
    match Rewrite.requests path source.text with
    | .ok rs => rs.length
    | .error _ => 0
  | _, _ => 0

theorem Graph.weight_eq {G : Graph} {url path : String} {source : Fetch.Source}
    {rs : List Request} (hp : virtualPath url = .ok path) (hf : G.fetch url = .ok source)
    (hrs : Rewrite.requests path source.text = .ok rs) : G.weight url = rs.length := by
  unfold weight
  rw [hp, hf]
  dsimp only
  rw [hrs]

theorem State.count_parent (s : State σ) (p : Nat) :
    (s.tasks.map Task.parent).count (some p) = (s.asked p).length := by
  rw [asked]
  induction s.tasks with
  | nil => rfl
  | cons t tasks ih =>
    rw [List.map_cons, List.count_cons, ih, List.filterMap_cons]
    by_cases hp : t.parent = some p
    · simp [hp]
    · simp [hp]

namespace Run

variable {c : Setting σ} {fetch : String → Except Fault Fetch.Source} {entries : List String}
  {world : σ} {s : State σ} {log : List Deed}

/-- A task has asked for no more than the text of the module that it has claimed. -/
theorem length_asked_le (h : Run c fetch entries world s log) (hplans : c.Plans fetch entries)
    {j p : Nat} {t : Task} (ht : s.tasks[j]? = some t) (hp : t.parent = some p) :
    ∃ k urls, .claimed p k urls ∈ log ∧ (s.asked p).length ≤ (c.graph fetch).weight k.url := by
  obtain ⟨path, source, r, hdrafted, -, -⟩ := h.reached.traced.askers j p t ht hp
  obtain ⟨u, k, urls, hu, ha, hk, -⟩ := h.chronicle.claim hdrafted rfl
  obtain ⟨hreach, hpath⟩ := h.reach_of_claimed hk
  refine ⟨k, urls, hk, ?_⟩
  have hweight : ∀ {source' rs}, .drafted p k.path source' ∈ log →
      Rewrite.requests k.path source'.text = .ok rs →
      (c.graph fetch).weight k.url = rs.length := fun hd hrs =>
    Graph.weight_eq hpath (h.fetch_of_drafted hk hd).2 hrs
  by_cases hfin : ∃ o, u.phase = .finished o
  · obtain ⟨o, ho⟩ := hfin
    obtain ⟨text, hfilled⟩ := (h.calm hplans).unraised p u o path source hdrafted hu ho
    obtain ⟨source', hdrafted', hmade⟩ := h.reached.family.made p path text hfilled
    obtain ⟨rs, hrs, hasked⟩ := hmade.asked
    obtain ⟨rfl, -⟩ := h.fetch_of_drafted hk hdrafted'
    rw [hweight hdrafted' hrs, hasked, List.length_map]
  · obtain ⟨k', d, hphase, -⟩ :=
      h.chronicle.rewriting_of_drafted hdrafted hu fun o ho => hfin ⟨o, ho⟩
    have hd : s.phase? p = some (.rewriting k' d) := by rw [State.phase?_of_tasks hu, hphase]
    obtain ⟨rs, asked, hrs, -, hasked, hpre⟩ := h.plan_of_rewriting hplans hd
    have hdrafted' := h.chronicle.drafted_of_rewriting hu hphase
    obtain ⟨hkk, -⟩ := h.fetch_of_drafted hk hdrafted'
    rw [← hkk] at hrs hdrafted'
    rw [hweight hdrafted' hrs, hasked, List.length_map]
    exact hpre.length_le

/-- **main theorem**: over a graph with finitely many URLs there are no more tasks than loads that
were asked for from outside and requests in the texts of the URLs. -/
theorem length_tasks_le (h : Run c fetch entries world s log) (hplans : c.Plans fetch entries)
    {urls : List String} (hurls : ∀ url, (c.graph fetch).Reach entries url → url ∈ urls) :
    s.tasks.length ≤ (s.tasks.map Task.parent).count none +
      ∑ url ∈ urls.toFinset, (c.graph fetch).weight url := by
  -- The places of the tasks that have asked for others, each with the URL that it has claimed.
  set parents := s.tasks.map Task.parent with hparents
  set places := (parents.filterMap id).toFinset with hplaces
  have hasker : ∀ p ∈ places, ∃ url, (∃ k urls, .claimed p k urls ∈ log ∧ k.url = url) ∧
      (s.asked p).length ≤ (c.graph fetch).weight url := by
    intro p hp
    rw [hplaces, List.mem_toFinset, List.mem_filterMap] at hp
    obtain ⟨_, hmem, rfl⟩ := hp
    obtain ⟨t, ht, hpar⟩ := List.mem_map.1 hmem
    obtain ⟨j, hj⟩ := List.mem_iff_getElem?.1 ht
    obtain ⟨k, urls, hk, hle⟩ := h.length_asked_le hplans hj hpar
    exact ⟨k.url, ⟨k, urls, hk, rfl⟩, hle⟩
  choose! url hclaimed hle using hasker
  have hinj : Set.InjOn url places := by
    intro p hp q hq heq
    obtain ⟨k, urls, hk, hku⟩ := hclaimed p hp
    obtain ⟨k', urls', hk', hku'⟩ := hclaimed q hq
    have hpath := (h.reach_of_claimed hk).2
    have hpath' := (h.reach_of_claimed hk').2
    rw [hku, heq, ← hku', hpath', Except.ok.injEq] at hpath
    exact (h.chronicle.claim_unique hk hk' hpath.symm).1
  have himage : places.image url ⊆ urls.toFinset := by
    intro v hv
    obtain ⟨p, hp, rfl⟩ := Finset.mem_image.1 hv
    obtain ⟨k, urls, hk, hku⟩ := hclaimed p hp
    rw [List.mem_toFinset, ← hku]
    exact hurls _ (h.reach_of_claimed hk).1
  have hsub : parents.toFinset ⊆ insert none (places.image some) := by
    intro a ha
    cases a with
    | none => exact Finset.mem_insert_self _ _
    | some p =>
      refine Finset.mem_insert_of_mem (Finset.mem_image_of_mem some ?_)
      rw [hplaces, List.mem_toFinset, List.mem_filterMap]
      exact ⟨some p, List.mem_toFinset.1 ha, rfl⟩
  calc s.tasks.length
      = ∑ a ∈ parents.toFinset, parents.count a := by
        rw [← List.length_map Task.parent, ← hparents]
        convert (List.sum_toFinset_count_eq_length parents).symm
    _ ≤ ∑ a ∈ insert none (places.image some), parents.count a :=
        Finset.sum_le_sum_of_subset hsub
    _ = parents.count none + ∑ p ∈ places, parents.count (some p) := by
        rw [Finset.sum_insert (by simp), Finset.sum_image (by simp)]
    _ ≤ parents.count none + ∑ p ∈ places, (c.graph fetch).weight (url p) := by
        refine Nat.add_le_add_left (Finset.sum_le_sum fun p hp => ?_) _
        rw [hparents, s.count_parent]
        exact hle p hp
    _ = parents.count none + ∑ v ∈ places.image url, (c.graph fetch).weight v := by
        rw [Finset.sum_image hinj]
    _ ≤ parents.count none + ∑ v ∈ urls.toFinset, (c.graph fetch).weight v :=
        Nat.add_le_add_left (Finset.sum_le_sum_of_subset himage) _

end Run

end ModuleGraph.Loading
