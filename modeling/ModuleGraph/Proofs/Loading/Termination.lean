import Mathlib.Order.WellFounded
import Mathlib.Data.Prod.Lex
import ModuleGraph.Proofs.Loading.Confluence
import ModuleGraph.Proofs.Loading.Progress
/-!
# Loads over finitely many paths

Modules may name each other without end, and a URL may have another text each time that it is
fetched; only the paths are finitely many. Every draft belongs to a path that its task has claimed,
and no path is claimed twice. So there are finitely many occasions to ask for something, and
between two of them there are finitely many tasks, each of which has only so much to do.

Results:
* `Reached.mayAsk`: tasks are asked for entries, or for what a text asks for that may be fetched for
  such a task;
* `Turn.remaining_lt`: the measure that every advance lowers: occasions to ask, then steps;
* `Reached.exists_bound`: every schedule comes to an end, and so does every run with finitely many
  requests from outside;
* `Reached.lt_of_waitsFor`: no task waits for one that waits for it;
* `loading_terminates`: **main theorem**.
-/

namespace ModuleGraph.Loading

variable {σ : Type}

/-! ## What may be asked for -/

/-- The URL may give this answer. -/
def Setting.MayAnswer (c : Setting σ) (url : String) (r : Except Fault Fetch.Source) : Prop :=
  ∃ w, (c.fetch url w).1 = r

/-- The demand is an entry, or it is made by a text that may be fetched for such a demand, from the
first of its URLs that has one. -/
inductive Setting.MayAsk (c : Setting σ) (entries : List Demand) : Demand → Prop
  | entry {d : Demand} (h : d ∈ entries) : c.MayAsk entries d
  | named {d : Demand} {k : Claim} {tried urls : List String} {url : String}
      {source : Fetch.Source} {r : Request} (h : c.MayAsk entries d)
      (ha : d.aim c = .ok (k, tried ++ url :: urls))
      (htried : ∀ u ∈ tried, ∃ e, c.MayAnswer u (.error e))
      (hs : c.MayAnswer url (.ok source)) (hr : Rewrite.Asks k.path source.text r) :
      c.MayAsk entries (State.demandOf source.url r)

/-- These are all paths that loads of the entries may be after. -/
def Setting.HasPaths (c : Setting σ) (entries : List Demand) (paths : Finset String) : Prop :=
  ∀ d k urls, c.MayAsk entries d → d.aim c = .ok (k, urls) → k.path ∈ paths

/-- Whatever the move asks for from outside is an entry. -/
def Move.AsksWithin (entries : List Demand) : Move → Prop
  | .ask d => d ∈ entries
  | _ => True

section

variable {c : Setting σ} {world : σ} {entries : List Demand} {s : State σ} {log : List Deed}

/-- Every task was asked for something that may be asked for. -/
theorem Reached.mayAsk (h : Reached c world (Move.AsksWithin entries) s log) {j : Nat} {t : Task}
    (ht : s.tasks[j]? = some t) : c.MayAsk entries t.demand := by
  -- By induction on the place: whoever asks comes first.
  induction j using Nat.strong_induction_on generalizing t with
  | _ j ih =>
    rcases h.origin ht with ⟨-, hentry⟩ | ⟨p, path, source, r, hp, hdrafted, hr, hd⟩
    · exact .entry hentry
    · obtain ⟨hlt, u, hu, -⟩ := h.family.elder j p t ht hp
      obtain ⟨k, tried, url, urls, ha, rfl, -, htried, hfetched⟩ :=
        h.chronicle.fetched_of_drafted hu hdrafted
      rw [hd]
      refine .named (ih p hlt hu) ha (fun v hv => ?_) (h.chronicle.replies p _ _ _ hfetched) hr
      obtain ⟨x, hx, rfl⟩ := List.mem_map.1 hv
      exact ⟨x.2, h.chronicle.replies p _ _ _ (htried x hx)⟩

/-- Only the path of such a task is claimed. -/
theorem Reached.path_mem (h : Reached c world (Move.AsksWithin entries) s log)
    {paths : Finset String} (hpaths : c.HasPaths entries paths) {j : Nat} {t : Task} {k : Claim}
    {urls : List String} (ht : s.tasks[j]? = some t) (ha : t.demand.aim c = .ok (k, urls)) :
    k.path ∈ paths :=
  hpaths t.demand k urls (h.mayAsk ht) ha

end

/-! ## How often paths are claimed -/

/-- The path that is claimed. -/
def Deed.claimed? : Deed → Option String
  | .claimed _ k _ => some k.path
  | _ => none

/-- Whoever claims a path takes it. -/
theorem filterMap_claimed?_sublist (log : List Deed) :
    (log.filterMap Deed.claimed?).Sublist (log.filterMap Deed.taken?) := by
  have heq : log.filterMap Deed.claimed? =
      (log.filter fun d => d.claimed?.isSome).filterMap Deed.taken? := by
    rw [List.filterMap_filter]
    apply List.filterMap_congr
    intro d _
    cases d <;> rfl
  rw [heq]
  exact List.filter_sublist.filterMap _

/-- No more paths are claimed than there are. -/
theorem Reached.length_claimed_le {c : Setting σ} {world : σ} {entries : List Demand}
    {s : State σ} {log : List Deed} (h : Reached c world (Move.AsksWithin entries) s log)
    {paths : Finset String} (hpaths : c.HasPaths entries paths) :
    (log.filterMap Deed.claimed?).length ≤ paths.card := by
  have hnodup : (log.filterMap Deed.claimed?).Nodup := by
    refine List.Nodup.sublist (filterMap_claimed?_sublist log) ?_
    rw [h.chronicle.taken]
    exact s.store.paths_nodup
  have hsub : (log.filterMap Deed.claimed?).toFinset ⊆ paths := by
    intro path hpath
    obtain ⟨x, hx, hxp⟩ := List.mem_filterMap.1 (List.mem_toFinset.1 hpath)
    cases x with
    | claimed i k urls =>
      obtain ⟨t, k', urls', ht, ha, -, hp⟩ := h.chronicle.claim hx rfl
      have hk : k.path = path := by simpa [Deed.claimed?] using hxp
      rw [← hk, show k.path = k'.path from hp]
      exact h.path_mem hpaths ht ha
    | fetched i p url r => cases hxp
    | drafted i p source => cases hxp
    | filled i p text => cases hxp
    | added p text => cases hxp
  calc (log.filterMap Deed.claimed?).length
      = (log.filterMap Deed.claimed?).toFinset.card := (List.toFinset_card_of_nodup hnodup).symm
    _ ≤ paths.card := Finset.card_le_card hsub

/-! ## What is left to do -/

/-- A task in this phase asks for something so many times. -/
def Phase.occasions : Phase → Nat
  | .fetching .. => 2
  | .rewriting _ d => if d.rest.isSome then 1 else 0
  | _ => 0

namespace State

/-- What the phase of a task at a place weighs; a task that is not there weighs nothing. -/
def weigh (s : State σ) (f : Phase → Nat) (i : Nat) : Nat :=
  match s.tasks[i]? with
  | some t => f t.phase
  | none => 0

/-- What all tasks weigh. -/
def total (s : State σ) (f : Phase → Nat) : Nat := ∑ i ∈ Finset.range s.tasks.length, s.weigh f i

theorem weigh_of_tasks {s : State σ} {f : Phase → Nat} {i : Nat} {t : Task}
    (h : s.tasks[i]? = some t) : s.weigh f i = f t.phase := by
  rw [weigh, h]

/-- A step changes the total by what it does to the task that advances and by the new tasks, if an
edit of a draft does not change its weight. -/
theorem Turn.total_eq {c : Setting σ} {s s' : State σ} {i : Nat} {ds : List Deed}
    (h : Turn c s i ds s') {f : Phase → Nat}
    (hf : ∀ {t u : Task}, t.Kept u → f u.phase = f t.phase) (hi : i < s.tasks.length) {n : Nat}
    (hn : s'.tasks.length = s.tasks.length + n) :
    s'.total f + s.weigh f i = s.total f + s'.weigh f i + n * f .ready := by
  have hkept : ∀ j ∈ (Finset.range s.tasks.length).erase i, s'.weigh f j = s.weigh f j := by
    intro j hj
    obtain ⟨hne, hlt⟩ := Finset.mem_erase.1 hj
    have hlt' : j < s'.tasks.length := Nat.lt_of_lt_of_le (Finset.mem_range.1 hlt) h.length_le
    rcases h.other hne (List.getElem?_eq_getElem hlt') with ⟨v, hv, hk⟩ | ⟨hle, -⟩
    · rw [weigh_of_tasks (List.getElem?_eq_getElem hlt'), weigh_of_tasks hv, hf hk]
    · exact absurd (Finset.mem_range.1 hlt) (Nat.not_lt.2 hle)
  have hnew : ∀ x ∈ Finset.range n, s'.weigh f (s.tasks.length + x) = f .ready := by
    intro x hx
    have hlt' : s.tasks.length + x < s'.tasks.length := by
      rw [hn]
      exact Nat.add_lt_add_left (Finset.mem_range.1 hx) _
    rcases h.other (by omega) (List.getElem?_eq_getElem hlt') with ⟨v, hv, -⟩ | ⟨-, hready, -⟩
    · have := (List.getElem?_eq_some_iff.1 hv).1
      omega
    · rw [weigh_of_tasks (List.getElem?_eq_getElem hlt'), hready]
  have hmem : i ∈ Finset.range s.tasks.length := Finset.mem_range.2 hi
  have hsum : s'.total f = s'.weigh f i + ∑ j ∈ (Finset.range s.tasks.length).erase i, s.weigh f j +
      n * f .ready := by
    rw [total, hn, Finset.sum_range_add, ← Finset.add_sum_erase _ _ hmem,
      Finset.sum_congr rfl hkept, Finset.sum_const_nat hnew, Finset.card_range]
  have hsum' : s.total f = s.weigh f i + ∑ j ∈ (Finset.range s.tasks.length).erase i, s.weigh f j :=
    (Finset.add_sum_erase _ _ hmem).symm
  omega

/-- The paths that nobody has taken. -/
def free (s : State σ) (paths : Finset String) : Finset String :=
  paths.filter fun path => s.store.contains path = false

/-- What is left to do: how often something may still be asked for, then how often the tasks that
there are may advance. -/
def remaining (s : State σ) (paths : Finset String) : ℕ ×ₗ ℕ :=
  toLex (2 * (s.free paths).card + s.total Phase.occasions, s.total Phase.left)

theorem left_eq_weigh {s : State σ} {i : Nat} (h : i < s.tasks.length) :
    s.left i = s.weigh Phase.left i := by
  rw [left_of_tasks (List.getElem?_eq_getElem h), weigh_of_tasks (List.getElem?_eq_getElem h)]

theorem occasions_of_kept {t u : Task} (h : t.Kept u) : u.phase.occasions = t.phase.occasions := by
  cases h with
  | same => rfl
  | edited hp e =>
    rw [hp]
    rfl

theorem free_congr {s s' : State σ} (h : ∀ path, s'.store.contains path = s.store.contains path)
    (paths : Finset String) : s'.free paths = s.free paths := by
  simp only [free, h]

theorem contains_claimed_eq {s : State σ} {path : String} (p : String) :
    (s.store.claimed path).contains p = (decide (p = path) || s.store.contains p) := by
  rw [Bool.eq_iff_iff, ModuleStore.contains_claimed]
  simp

theorem card_free_claimed {s s' : State σ} {paths : Finset String} {path : String}
    (hstore : s'.store = s.store.claimed path) (hmem : path ∈ paths)
    (hfree : s.store.contains path = false) : (s'.free paths).card < (s.free paths).card := by
  refine Finset.card_lt_card ⟨fun p hp => ?_, fun hsub => ?_⟩
  · simp only [free, hstore, contains_claimed_eq, Finset.mem_filter, Bool.or_eq_false_iff] at hp ⊢
    exact ⟨hp.1, hp.2.2⟩
  · have hin := hsub (Finset.mem_filter.2 ⟨hmem, hfree⟩)
    simp [free, hstore, contains_claimed_eq] at hin

/-- There are fewer occasions to ask after a step, or as many at most and no new tasks. -/
theorem Turn.occasions_le {c : Setting σ} {s s' : State σ} {i : Nat} {ds : List Deed}
    (h : Turn c s i ds s') {paths : Finset String}
    (hpaths : ∀ t k urls, s.tasks[i]? = some t → t.demand.aim c = .ok (k, urls) → k.path ∈ paths)
    (hi : i < s.tasks.length) :
    2 * (s'.free paths).card + s'.total Phase.occasions <
        2 * (s.free paths).card + s.total Phase.occasions ∨
      2 * (s'.free paths).card + s'.total Phase.occasions ≤
        2 * (s.free paths).card + s.total Phase.occasions ∧
        s'.tasks.length = s.tasks.length := by
  obtain ⟨n, hn⟩ := Nat.exists_eq_add_of_le h.length_le
  have htotal := h.total_eq (f := Phase.occasions) occasions_of_kept hi hn
  have hready : Phase.ready.occasions = 0 := rfl
  rw [hready, Nat.mul_zero, Nat.add_zero] at htotal
  have hold : ∀ {t : Task} {p : Phase}, s.tasks[i]? = some t → t.phase = p →
      s.weigh Phase.occasions i = p.occasions := by
    rintro t p ht rfl
    exact weigh_of_tasks ht
  have hentered : ∀ {s₀ : State σ} {t : Task} {p : Phase}, s' = s₀.enter i p →
      s₀.tasks[i]? = some t → s'.weigh Phase.occasions i = p.occasions := by
    rintro s₀ t p rfl ht
    exact weigh_of_tasks (enter_self ht p)
  have hended : ∀ {s₀ : State σ} {t : Task} {r : Except Fault String}, Concluded s₀ i t r s' →
      s₀.tasks = s.tasks → s.tasks[i]? = some t →
      s'.weigh Phase.occasions i = 0 ∧ s'.tasks.length = s.tasks.length := by
    intro s₀ t r hc hs₀ ht
    obtain ⟨o, -, hu⟩ := hc.self (by rw [hs₀, ht])
    exact ⟨weigh_of_tasks hu, by rw [hc.length, hs₀]⟩
  have hsame : (∀ path, s'.store.contains path = s.store.contains path) →
      (s'.free paths).card = (s.free paths).card := fun hcontains => by
    rw [free_congr hcontains paths]
  cases h with
  | rest => exact .inr ⟨Nat.le_refl _, rfl⟩
  | broken ht htrouble hc =>
    obtain ⟨hw, hlen⟩ := hended hc rfl ht
    have hfree := hsame fun path => by rw [hc.store]
    exact .inr ⟨by omega, hlen⟩
  | answered ht hp ha hs hc =>
    obtain ⟨hw, hlen⟩ := hended hc rfl ht
    have hfree := hsame fun path => by rw [hc.store]
    exact .inr ⟨by omega, hlen⟩
  | @claimed t k urls ht hp ha hs =>
    have hfree : (({ s with store := s.store.claimed k.path }.enter i
        (.fetching k urls [])).free paths).card < (s.free paths).card :=
      card_free_claimed rfl (hpaths t k urls ht ha) hs
    have hw := hentered rfl ht
    simp only [Phase.occasions] at hw
    exact .inr ⟨by omega, by simp⟩
  | retried ht hp hr hurls =>
    have hfree := hsame fun path => rfl
    have hw := hentered rfl ht
    have hw' := hold ht hp
    simp only [Phase.occasions] at hw hw'
    exact .inr ⟨by omega, by simp⟩
  | lost ht hp hr htold hc =>
    obtain ⟨hw, hlen⟩ := hended hc rfl ht
    have hfree := hsame fun path => by rw [hc.store]
    exact .inr ⟨by omega, hlen⟩
  | @drafted t k url urls errors source ht hp hr =>
    have hfree := hsame fun path => rfl
    have hw := hentered rfl (getElem?_offspring ht _ _)
    have hw' := hold ht hp
    have hfirst : ∀ source places, (Phase.rewriting k (firstDraft k source places)).occasions = 1 :=
      fun _ _ => rfl
    rw [hfirst] at hw
    simp only [Phase.occasions] at hw'
    exact .inl (by omega)
  | proceeded ht hp hd hrest hr =>
    have hfree := hsame fun path => rfl
    have hw := hentered rfl (getElem?_offspring ht _ _)
    have hw' := hold ht hp
    simp only [Phase.occasions, hrest, Option.isSome_some, Option.isSome_none, if_true,
      Bool.false_eq_true, if_false] at hw hw'
    exact .inl (by omega)
  | settled ht hp hd hrest htext hs hc =>
    obtain ⟨hw, hlen⟩ := hended hc rfl ht
    have hfree := hsame fun path => by
      rw [hc.store, Bool.eq_iff_iff, ModuleStore.contains_filled]
      refine ⟨fun h => ?_, .inr⟩
      rcases h with rfl | h
      · exact ModuleStore.contains_of_text? hs
      · exact h
    exact .inr ⟨by omega, hlen⟩

/-- A task that advances leaves less to do. -/
theorem Turn.remaining_lt {c : Setting σ} {s s' : State σ} {i : Nat} {ds : List Deed}
    (h : Turn c s i ds s') {paths : Finset String}
    (hpaths : ∀ t k urls, s.tasks[i]? = some t → t.demand.aim c = .ok (k, urls) → k.path ∈ paths)
    (hawake : s.isAwake i = true) : s'.remaining paths < s.remaining paths := by
  have hi := lt_of_isAwake hawake
  rw [remaining, remaining, Prod.Lex.toLex_lt_toLex]
  rcases h.occasions_le hpaths hi with hlt | ⟨hle, hlen⟩
  · exact .inl hlt
  · have htotal := h.total_eq (f := Phase.left) left_of_kept hi (n := 0) hlen
    have hleft : s'.left i < s.left i := by
      rcases h.left_self with ⟨hasleep, -⟩ | hlt
      · rw [hawake] at hasleep
        cases hasleep
      · exact hlt
    rw [left_eq_weigh hi, left_eq_weigh (hlen ▸ hi)] at hleft
    have hsteps : s'.total Phase.left < s.total Phase.left := by omega
    rcases Nat.lt_or_eq_of_le hle with hlt | heq
    · exact .inl hlt
    · exact .inr ⟨heq, hsteps⟩

end State

/-! ## Every run comes to an end -/

/-- The move advances a task that is awake. -/
def Move.advances (s : State σ) : Move → Bool
  | .step i => s.isAwake i
  | _ => false

/-- The move asks for something from outside. -/
def Move.isAsk : Move → Bool
  | .ask _ => true
  | _ => false

/-- The move advances a task, or asks for an entry. -/
def Move.Loads (entries : List Demand) : Move → Prop
  | .step _ => True
  | .ask d => d ∈ entries
  | .add .. => False

namespace State

/-- How many of the moves advance a task. -/
def advances (c : Setting σ) : State σ → List Move → Nat
  | _, [] => 0
  | s, m :: moves => (if m.advances s then 1 else 0) + advances c (s.move c m) moves

/-- No run from here in which entries are asked for `n` times at most has more advances than
`bound`. -/
def Bounded (c : Setting σ) (entries : List Demand) (s : State σ) (n bound : Nat) : Prop :=
  ∀ moves : List Move, (∀ m ∈ moves, m.Loads entries) → moves.countP Move.isAsk ≤ n →
    s.advances c moves ≤ bound

/-- A step of a task that cannot advance changes nothing. -/
theorem step_of_asleep {c : Setting σ} {s : State σ} {i : Nat} (h : s.isAwake i = false) :
    s.step c i = s := by
  cases ht : s.tasks[i]? with
  | none => simp [step, ht]
  | some t =>
    cases hp : t.phase with
    | ready => simp [isAwake, ht, hp] at h
    | fetching k urls errors => simp [isAwake, ht, hp] at h
    | finished o => simp [step, ht, hp]
    | rewriting k d =>
      simp only [isAwake, ht, hp, Bool.or_eq_false_iff] at h
      rw [Option.isSome_eq_false_iff, Option.isNone_iff_eq_none] at h
      simp [step, ht, hp, resume, h.1, h.2]

/-- A state is bounded if all states are that the next move may lead to: there are finitely many of
them. -/
theorem exists_bound_of_next {c : Setting σ} {entries : List Demand} {s : State σ} {n : Nat}
    (hstep : ∀ i, s.isAwake i = true → ∃ bound, (s.step c i).Bounded c entries n bound)
    (hask : ∀ d ∈ entries, ∀ n' < n, ∃ bound, (s.ask none [d]).1.Bounded c entries n' bound) :
    ∃ bound, s.Bounded c entries n bound := by
  choose! stepBound hstepBound using hstep
  choose! askBound haskBound using hask
  refine ⟨1 + ∑ i ∈ Finset.range s.tasks.length, stepBound i +
    ∑ d ∈ entries.toFinset, ∑ n' ∈ Finset.range n, askBound d n', fun moves hm hn => ?_⟩
  induction moves with
  | nil => exact Nat.zero_le _
  | cons m moves ih =>
    have hm' : ∀ m' ∈ moves, m'.Loads entries := fun m' h => hm m' (List.mem_cons_of_mem m h)
    have hload := hm m List.mem_cons_self
    rw [advances]
    cases m with
    | add path text => cases hload
    | step i =>
      have hn' : moves.countP Move.isAsk ≤ n := by
        rwa [List.countP_cons_of_neg (by simp [Move.isAsk])] at hn
      cases hawake : s.isAwake i with
      | false =>
        have hnone : Move.advances s (.step i) = false := hawake
        rw [hnone, move, step_of_asleep hawake, if_neg (by simp), Nat.zero_add]
        exact ih hm' hn'
      | true =>
        have hone : Move.advances s (.step i) = true := hawake
        have hrest := hstepBound i hawake moves hm' hn'
        have hle := Finset.single_le_sum (f := stepBound) (fun _ _ => Nat.zero_le _)
          (Finset.mem_range.2 (lt_of_isAwake hawake))
        rw [hone, if_pos rfl]
        change 1 + (s.step c i).advances c moves ≤ _
        omega
    | ask d =>
      have hn' : moves.countP Move.isAsk < n := by
        rw [List.countP_cons_of_pos rfl] at hn
        exact hn
      have hrest := haskBound d hload _ hn' moves hm' (Nat.le_refl _)
      have hle := Finset.single_le_sum (f := askBound d) (fun _ _ => Nat.zero_le _)
        (Finset.mem_range.2 hn')
      have hle' := Finset.single_le_sum
        (f := fun d => ∑ n' ∈ Finset.range n, askBound d n') (fun _ _ => Nat.zero_le _)
        (List.mem_toFinset.2 hload)
      rw [if_neg (by simp [Move.advances]), Nat.zero_add]
      change (s.ask none [d]).1.advances c moves ≤ _
      exact Nat.le_trans hrest (by omega)

end State

/-- Every run comes to an end in which entries are asked for finitely often. -/
theorem Reached.exists_bound {c : Setting σ} {world : σ} {entries : List Demand}
    {paths : Finset String} (hpaths : c.HasPaths entries paths) (n : Nat) {s : State σ}
    {log : List Deed} (h : Reached c world (Move.AsksWithin entries) s log) :
    ∃ bound, s.Bounded c entries n bound := by
  -- First on the requests that are left, then on what is left to do.
  induction n using Nat.strong_induction_on generalizing s log with
  | _ n ihn =>
    generalize hr : s.remaining paths = r
    induction r using WellFoundedLT.induction generalizing s log with
    | ind r ihr =>
      subst hr
      apply State.exists_bound_of_next
      · intro i hawake
        have hlt : (s.step c i).remaining paths < s.remaining paths :=
          (s.step_turn c i).remaining_lt (fun t k urls ht ha => h.path_mem hpaths ht ha) hawake
        have hnext : Reached c world (Move.AsksWithin entries) (s.move c (.step i)) _ :=
          h.move trivial
        exact ihr _ hlt hnext rfl
      · intro d hd n' hn'
        have hnext : Reached c world (Move.AsksWithin entries) (s.move c (.ask d)) _ := h.move hd
        exact ihn n' hn' hnext

/-! ## Nothing is stuck -/

/-- The draft of the task at `i` waits for the task at `j`, which has not ended. -/
def State.WaitsFor (s : State σ) (i j : Nat) : Prop :=
  ∃ k d, s.phase? i = some (.rewriting k d) ∧ j ∈ d.pending ∧ s.outcome? j = none

/-- A task that has not ended can advance, or it waits for another one. -/
theorem State.awake_or_waitsFor {s : State σ} {i : Nat} {t : Task} (ht : s.tasks[i]? = some t)
    (hnone : s.outcome? i = none) : s.isAwake i = true ∨ ∃ j, s.WaitsFor i j := by
  cases hp : t.phase with
  | ready => exact .inl (by simp [isAwake, ht, hp])
  | fetching k urls errors => exact .inl (by simp [isAwake, ht, hp])
  | finished o =>
    rw [outcome?, ht, Option.bind_some, Task.outcome?, hp] at hnone
    cases hnone
  | rewriting k d =>
    by_cases hall : s.allFinished d.pending = true
    · exact .inl (by simp [isAwake, ht, hp, hall])
    · rw [allFinished, List.all_eq_true] at hall
      push Not at hall
      obtain ⟨j, hj, hopen⟩ := hall
      refine .inr ⟨j, k, d, by rw [phase?_of_tasks ht, hp], hj, ?_⟩
      simpa using hopen

/-- A task waits for a later one only. -/
theorem Reached.lt_of_waitsFor {c : Setting σ} {world : σ} {allowed : Move → Prop} {s : State σ}
    {log : List Deed} (h : Reached c world allowed s log) {i j : Nat} (hw : s.WaitsFor i j) :
    i < j := by
  obtain ⟨k, d, hp, hj, -⟩ := hw
  obtain ⟨u, hu, hpar⟩ := (h.family.drafts i k d hp).pending j hj
  exact (h.family.elder j i u hu hpar).1

theorem Reached.waitsFor_acyclic {c : Setting σ} {world : σ} {allowed : Move → Prop} {s : State σ}
    {log : List Deed} (h : Reached c world allowed s log) (i : Nat) :
    ¬ Relation.TransGen s.WaitsFor i i := by
  have hlt : ∀ j, Relation.TransGen s.WaitsFor i j → i < j := by
    intro j hj
    induction hj with
    | single hw => exact h.lt_of_waitsFor hw
    | tail _ hw ih => exact Nat.lt_trans ih (h.lt_of_waitsFor hw)
  exact fun hcycle => Nat.lt_irrefl i (hlt i hcycle)

/-- **main theorem**: where loads of the entries are after finitely many paths, whatever the modules
name and in whatever order the fetches complete, every run comes to an end, no more paths are
claimed than there are, and as long as a task has not ended some task can advance. A task that cannot
waits for others, and none of them for it. -/
theorem loading_terminates (c : Setting σ) (world : σ) (entries : List Demand)
    (paths : Finset String) (hpaths : c.HasPaths entries paths) (moves : List Move)
    (hm : ∀ m ∈ moves, m.AsksWithin entries) :
    let s := (State.start world).play c moves
    let log := (State.start world).log c moves
    (∀ n, ∃ bound, s.Bounded c entries n bound) ∧
      (log.filterMap Deed.claimed?).length ≤ paths.card ∧
      (¬ s.AllFinished → ∃ i, s.isAwake i = true) ∧
      (∀ i t, s.tasks[i]? = some t → s.outcome? i = none →
        s.isAwake i = true ∨ ∃ j, s.WaitsFor i j) ∧
      ∀ i, ¬ Relation.TransGen s.WaitsFor i i := by
  intro s log
  have h : Reached c world (Move.AsksWithin entries) s log := reached_play c world hm
  refine ⟨fun n => h.exists_bound hpaths n, h.length_claimed_le hpaths, fun hopen => ?_,
    fun i t ht hnone => State.awake_or_waitsFor ht hnone, h.waitsFor_acyclic⟩
  by_contra hasleep
  push Not at hasleep
  refine hopen (h.finished_of_isQuiet ((s.isQuiet_iff).2 fun i _ => ?_))
  exact Bool.eq_false_iff.2 (hasleep i)

/-- What the texts ask for that a demand may lead to, where the world does not matter. -/
def Setting.asksOf (c : Setting Unit) (d : Demand) : List Demand :=
  match d.aim c with
  | .error _ => []
  | .ok (k, urls) => urls.flatMap fun url =>
      match (c.fetch url ()).1 with
      | .error _ => []
      | .ok source =>
        (Rewrite.directives source.text ++
          ((Rewrite.specifiers (Utf8.encode source.text)
            (Syntax.parse (.ofFileName k.path) source.text)).toOption.getD [])).map
          (State.demandOf source.url)

/-- Everything that may be asked for is among demands that are closed and have the entries. -/
theorem Setting.MayAsk.mem {c : Setting Unit} {entries demands : List Demand}
    (hentries : ∀ d ∈ entries, d ∈ demands)
    (hclosed : ∀ d ∈ demands, ∀ d' ∈ c.asksOf d, d' ∈ demands) {d : Demand}
    (h : c.MayAsk entries d) : d ∈ demands := by
  induction h with
  | entry h => exact hentries _ h
  | @named d k tried urls url source r h ha htried hs hr ih =>
    refine hclosed d ih _ ?_
    obtain ⟨w, hw⟩ := hs
    have hurl : url ∈ tried ++ url :: urls := by simp
    rw [asksOf, ha]
    refine List.mem_flatMap.2 ⟨url, hurl, ?_⟩
    rw [show (c.fetch url ()).1 = .ok source from hw]
    refine List.mem_map.2 ⟨r, List.mem_append.2 ?_, rfl⟩
    rcases hr with hr | ⟨rs, hrs, hr⟩
    · exact .inl hr
    · rw [hrs]
      exact .inr hr

def ringEntries : List Demand := ringUrls.map fun url => .module url url

/-- The entries and what the two files ask for. -/
def ringDemands : List Demand := ringEntries ++ ringEntries.flatMap ring.asksOf

set_option maxRecDepth 100000 in
theorem loading_terminates_ring :
    let s := (State.start ()).play ring ringSideBySide
    let log := (State.start ()).log ring ringSideBySide
    (∀ n, ∃ bound, s.Bounded ring ringEntries n bound) ∧
      (log.filterMap Deed.claimed?).length ≤ ({"/a.ts", "/b.ts"} : Finset String).card ∧
      (¬ s.AllFinished → ∃ i, s.isAwake i = true) ∧
      (∀ i t, s.tasks[i]? = some t → s.outcome? i = none →
        s.isAwake i = true ∨ ∃ j, s.WaitsFor i j) ∧
      ∀ i, ¬ Relation.TransGen s.WaitsFor i i := by
  have hclosed : ∀ d ∈ ringDemands, ∀ d' ∈ ring.asksOf d, d' ∈ ringDemands := by decide +kernel
  have hpaths : ∀ d ∈ ringDemands,
      (d.aim ring).toOption.all (fun a => decide (a.1.path = "/a.ts" ∨ a.1.path = "/b.ts")) =
        true := by decide +kernel
  refine loading_terminates ring () ringEntries {"/a.ts", "/b.ts"} (fun d k urls hd ha => ?_)
    ringSideBySide ?_
  · have hpath := hpaths d (hd.mem (fun _ h => List.mem_append_left _ h) hclosed)
    rw [ha] at hpath
    simpa [Except.toOption] using hpath
  · intro m hm
    rcases List.mem_append.1 hm with hm | hm
    · obtain ⟨url, hurl, rfl⟩ := List.mem_map.1 hm
      exact List.mem_map.2 ⟨url, hurl, rfl⟩
    · obtain ⟨i, -, rfl⟩ := List.mem_map.1 hm
      exact trivial

end ModuleGraph.Loading
