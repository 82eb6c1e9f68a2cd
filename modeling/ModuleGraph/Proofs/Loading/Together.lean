import ModuleGraph.Proofs.Loading.Containment
/-!
# Loads that are asked for together

Several modules may be asked for at once, after other loads have run. Their tasks begin in the order
in which they were asked for, before any of them is awaited. A module whose path is free when they
begin is then claimed by one of them, and no other load can have claimed it in vain.

Results:
* `Kept.follow`: what holds of a state and its log however the tasks advance;
* `begun_of_follow`: a task that has had its turn has begun;
* `Kept.contains_or_claimed`: who has taken a path while tasks advanced;
* `Kept.settled_or_reserved`: **main theorem**: what has become of the modules if none of their loads
  has failed;
* `Kept.fault_of_failed`: the fault if one has.
-/

namespace ModuleGraph.Loading

variable {σ : Type}

/-- What holds of a state and the deeds that led to it. -/
structure Kept (c : Setting σ) (world : σ) (s : State σ) (log : List Deed) : Prop where
  chronicle : Chronicle c world s log
  family : s.Family log

namespace Kept

variable {c : Setting σ} {world : σ} {s : State σ} {log : List Deed}

theorem play (h : Kept c world s log) (moves : List Move) :
    Kept c world (s.play c moves) (log ++ s.log c moves) := by
  induction moves generalizing s log with
  | nil => simpa [State.play, State.log] using h
  | cons m moves ih =>
    have hnext : Kept c world (s.move c m) (log ++ s.moveDeeds c m) :=
      ⟨h.chronicle.move m, h.family.move h.chronicle m⟩
    have hrest := ih hnext
    rw [List.append_assoc] at hrest
    exact hrest

theorem follow (h : Kept c world s log) (places : List Nat) :
    Kept c world (s.follow c places) (log ++ s.log c (places.map .step)) := by
  rw [State.follow_eq_play]
  exact h.play _

end Kept

theorem State.ask_eq_play (c : Setting σ) (s : State σ) (demands : List Demand) :
    (s.ask none demands).1 = s.play c (demands.map .ask) ∧
      s.log c (demands.map .ask) = [] := by
  induction demands generalizing s with
  | nil => exact ⟨by simp [ask, play], rfl⟩
  | cons d demands ih =>
    obtain ⟨hstate, hlog⟩ := ih (s.move c (.ask d))
    constructor
    · change _ = (s.move c (.ask d)).play c (demands.map .ask)
      rw [← hstate]
      simp [ask, move]
    · change [] ++ (s.move c (.ask d)).log c (demands.map .ask) = []
      rw [hlog]
      rfl

theorem Kept.ask {c : Setting σ} {world : σ} {s : State σ} {log : List Deed}
    (h : Kept c world s log) (demands : List Demand) :
    Kept c world (s.ask none demands).1 log := by
  obtain ⟨hstate, hlog⟩ := s.ask_eq_play c demands
  have hplay := h.play (demands.map .ask)
  rwa [hlog, List.append_nil, ← hstate] at hplay

/-- What is told of anything but a load leaves everything as it is. -/
theorem Kept.tell {c : Setting σ} {world : σ} {s : State σ} {log : List Deed}
    (h : Kept c world s log) {notices : List Notice} (hn : ∀ n ∈ notices, n.loaded? = none) :
    Kept c world { s with notices := s.notices ++ notices } log where
  chronicle := by
    have hc := h.chronicle
    refine ⟨hc.stories, hc.actors, hc.taken, hc.texts, ?_, hc.fetches, hc.replies, hc.drafts,
      hc.fills, hc.order⟩
    rw [List.filterMap_append, State.filterMap_loaded?_eq_nil hn, List.append_nil]
    exact hc.loaded
  family := h.family.outside (.of_tasks rfl) (fun _ _ _ hf => hf) fun _ hx => hx

theorem Phase.Leads.ne_ready {p p' : Phase} (h : p.Leads p') : p' ≠ .ready := by
  rintro rfl
  cases h

namespace State

/-! ## Tasks begin -/

/-- The task at `i` is there and has begun. -/
def HasBegun (s : State σ) (i : Nat) : Prop := ∃ t, s.tasks[i]? = some t ∧ t.phase ≠ .ready

theorem Turn.hasBegun {c : Setting σ} {s s' : State σ} {i : Nat} {ds : List Deed}
    (h : Turn c s i ds s') {t : Task} (ht : s.tasks[i]? = some t) : s'.HasBegun i := by
  rcases h.leads with ⟨hasleep, hs⟩ | ⟨t', p, -, hlead, hu⟩
  · refine ⟨t, hs ▸ ht, fun hp => ?_⟩
    simp [isAwake, ht, hp] at hasleep
  · exact ⟨_, hu, hlead.ne_ready⟩

theorem HasBegun.step {c : Setting σ} {s : State σ} {j : Nat} (h : s.HasBegun j) (i : Nat) :
    (s.step c i).HasBegun j := by
  obtain ⟨t, ht, hp⟩ := h
  have hturn := s.step_turn c i
  by_cases hj : j = i
  · exact hj ▸ hturn.hasBegun (hj ▸ ht)
  · obtain ⟨u, hu, -⟩ := hturn.persists ht
    rcases hturn.other hj hu with ⟨v, hv, hk⟩ | ⟨hle, -⟩
    · rw [ht, Option.some.injEq] at hv
      subst hv
      refine ⟨u, hu, ?_⟩
      cases hk with
      | same => exact hp
      | edited hr e => simp
    · exact absurd (List.getElem?_eq_some_iff.1 ht).1 (Nat.not_lt.2 hle)

/-- A task that has had its turn has begun. -/
theorem begun_of_follow (c : Setting σ) (s : State σ) (places : List Nat) {i : Nat} {t : Task}
    (ht : s.tasks[i]? = some t) (h : i ∈ places ∨ s.HasBegun i) :
    (s.follow c places).HasBegun i := by
  induction places generalizing s t with
  | nil => exact h.resolve_left List.not_mem_nil
  | cons j places ih =>
    rw [follow_cons]
    obtain ⟨u, hu, -⟩ := (s.step_turn c j).persists ht
    refine ih (s.step c j) hu ?_
    rcases h with hmem | hbegun
    · rcases List.mem_cons.1 hmem with rfl | hmem
      · exact .inr ((s.step_turn c i).hasBegun ht)
      · exact .inl hmem
    · exact .inr (hbegun.step j)

/-- What is done while tasks advance is done by them. -/
theorem place_of_mem_log (c : Setting σ) (s : State σ) (places : List Nat) {d : Deed}
    (hd : d ∈ s.log c (places.map .step)) : ∃ i ∈ places, d.place? = some i := by
  induction places generalizing s with
  | nil => cases hd
  | cons i places ih =>
    rcases List.mem_append.1 hd with hd | hd
    · exact ⟨i, List.mem_cons_self, (s.step_turn c i).place d hd⟩
    · obtain ⟨j, hj, hp⟩ := ih (s.step c i) hd
      exact ⟨j, List.mem_cons_of_mem _ hj, hp⟩

theorem follow_append (c : Setting σ) (s : State σ) (places places' : List Nat) :
    s.follow c (places ++ places') = (s.follow c places).follow c places' :=
  List.foldl_append

/-! ## Rounds -/

/-- Nothing can advance, or one of the awaited tasks has failed. -/
def isOver (s : State σ) (awaited : List Nat) : Bool :=
  s.isQuiet || (s.failure? awaited).isSome

/-- The order in which at most so many rounds let tasks advance. -/
def turns (c : Setting σ) (awaited : List Nat) : Nat → State σ → List Nat
  | 0, _ => []
  | n + 1, s =>
    if s.isOver awaited then []
    else List.range s.tasks.length ++ turns c awaited n (s.round c)

/-- A run in rounds is one of the orders in which tasks may advance. -/
theorem runFor_eq_follow_turns (c : Setting σ) (awaited : List Nat) (n : Nat) (s : State σ) :
    s.runFor c awaited n = s.follow c (s.turns c awaited n) := by
  induction n generalizing s with
  | zero => rfl
  | succ n ih =>
    rw [runFor, turns, isOver]
    split
    · rfl
    · rw [ih, follow_append, round]

/-- Tasks that have just been asked for are ready. -/
theorem getElem?_asked (s : State σ) {demands : List Demand} {i : Nat}
    (hi : i ∈ (s.ask none demands).2) :
    ∃ d, (s.ask none demands).1.tasks[i]? = some ⟨none, d, .ready⟩ := by
  obtain ⟨hle, hlt⟩ := List.mem_range'_1.1 hi
  have hn : i - s.tasks.length < demands.length := by omega
  refine ⟨demands[i - s.tasks.length], ?_⟩
  change (s.tasks ++ _)[i]? = _
  rw [List.getElem?_append_right hle, List.getElem?_map, List.getElem?_eq_getElem hn]
  rfl

theorem failure?_asked (s : State σ) (demands : List Demand) :
    (s.ask none demands).1.failure? (s.ask none demands).2 = none := by
  refine List.findSome?_eq_none_iff.2 fun i hi => ?_
  obtain ⟨d, ht⟩ := s.getElem?_asked hi
  rw [outcome?, ht]
  rfl

theorem isOver_asked (s : State σ) {demands : List Demand} (hne : demands ≠ []) :
    (s.ask none demands).1.isOver (s.ask none demands).2 = false := by
  obtain ⟨d, demands, rfl⟩ := List.exists_cons_of_ne_nil hne
  have hi : s.tasks.length ∈ (s.ask none (d :: demands)).2 := by simp [ask]
  obtain ⟨d', ht⟩ := s.getElem?_asked hi
  rw [isOver, s.failure?_asked, Option.isSome_none, Bool.or_false]
  refine Bool.eq_false_iff.2 fun hquiet => ?_
  have hasleep := (isQuiet_iff _).1 hquiet s.tasks.length (by simp [ask])
  rw [isAwake, ht] at hasleep
  cases hasleep

/-- The first round after tasks were asked for ends with their first steps. -/
theorem round_asked (c : Setting σ) (s : State σ) (demands : List Demand) :
    (s.ask none demands).1.round c = (s.ask none demands).1.follow c
      (List.range s.tasks.length ++ (s.ask none demands).2) := by
  change (s.ask none demands).1.follow c (List.range (s.tasks ++ _).length) = _
  rw [List.length_append, List.length_map, List.range_eq_range', List.range_eq_range',
    ← List.range'_append_1, Nat.zero_add]
  rfl

/-- Rounds over all tasks give each new task its first turn before any of them has its second. -/
theorem run_asked (c : Setting σ) (s : State σ) (demands : List Demand) :
    let asked := s.ask none demands
    ∃ older later, (∀ i ∈ older, i < s.tasks.length) ∧
      asked.1.run c asked.2 = asked.1.follow c (older ++ (asked.2 ++ later)) := by
  intro asked
  cases demands with
  | nil =>
    exact ⟨[], asked.1.turns c asked.2 roundLimit, fun i hi => absurd hi List.not_mem_nil,
      runFor_eq_follow_turns ..⟩
  | cons d demands =>
    obtain ⟨n, hn⟩ : ∃ n, roundLimit = n + 1 := ⟨999999, rfl⟩
    refine ⟨List.range s.tasks.length, (asked.1.round c).turns c asked.2 n,
      fun i hi => List.mem_range.1 hi, ?_⟩
    have hgo : (asked.1.isQuiet || (asked.1.failure? asked.2).isSome) = false :=
      s.isOver_asked (List.cons_ne_nil d demands)
    rw [run, hn, runFor, if_neg (by rw [hgo]; exact Bool.false_ne_true), runFor_eq_follow_turns,
      s.round_asked, ← follow_append, List.append_assoc]

end State

/-! ## What becomes of them -/

namespace Chronicle

variable {c : Setting σ} {world : σ} {s : State σ} {log : List Deed} {i : Nat} {t : Task}

/-- A load that has not failed has its path, and the path has its text, unless the load was answered
without doing anything. -/
theorem settled_or_answered (h : Chronicle c world s log) (ht : s.tasks[i]? = some t)
    {url asUrl : String} (hd : t.demand = .module url asUrl) {o : Outcome}
    (ho : t.phase = .finished o) (hok : ∀ e, o ≠ .failed e) :
    ∃ k urls, t.demand.aim c = .ok (k, urls) ∧ o = .loaded k.path ∧
      (s.IsSettled k.path ∨ own i log = []) := by
  have hstory := h.stories i t ht
  rw [ho] at hstory
  have hfailed : ∀ e, t.demand.verdict e = .failed e := by
    intro e
    rw [hd]
    rfl
  have hloaded : ∀ {path}, t.demand.Yields path o → o = .loaded path := by
    rintro path (rfl | ⟨⟨_, _, htarget⟩, -⟩)
    · rfl
    · rw [hd] at htarget
      cases htarget
  generalize own i log = l at hstory ⊢
  cases hstory with
  | refused ha => exact absurd (hfailed _) (hok _)
  | answered ha hs hy => exact ⟨_, _, ha, hloaded hy, .inr rfl⟩
  | lost ha htried hs => exact absurd (hfailed _) (hok _)
  | dropped ha hs => exact absurd (hfailed _) (hok _)
  | settled ha hs hy => exact ⟨_, _, ha, hloaded hy, .inl ⟨_, hs⟩⟩

/-- The path of a task that has begun and has done nothing is taken. -/
theorem contains_of_begun (h : Chronicle c world s log) (hbegun : s.HasBegun i)
    (ht : s.tasks[i]? = some t) (hown : own i log = []) {k : Claim} {urls : List String}
    (ha : t.demand.aim c = .ok (k, urls)) : s.store.contains k.path = true := by
  obtain ⟨u, hu, hp⟩ := hbegun
  rw [ht, Option.some.injEq] at hu
  subst hu
  have hstory := h.stories i t ht
  rw [hown] at hstory
  generalize t.phase = p at hstory hp
  cases hstory with
  | ready => exact absurd rfl hp
  | refused ha' =>
    rw [ha] at ha'
    cases ha'
  | answered ha' hs hy =>
    rw [ha, Except.ok.injEq, Prod.mk.injEq] at ha'
    rw [ha'.1]
    exact hs

/-- A path that one of the loads has claimed has its text when that load ends well. -/
theorem settled_of_claimed (h : Chronicle c world s log) (ht : s.tasks[i]? = some t)
    {url asUrl : String} (hd : t.demand = .module url asUrl) {o : Outcome}
    (ho : t.phase = .finished o) (hok : ∀ e, o ≠ .failed e) {k : Claim} {urls : List String}
    (hk : .claimed i k urls ∈ log) : s.IsSettled k.path := by
  obtain ⟨k', urls', ha, -, hsettled | hown⟩ := h.settled_or_answered ht hd ho hok
  · obtain ⟨t', k'', urls'', ht', ha', -, hpath⟩ := h.claim hk rfl
    rw [ht, Option.some.injEq] at ht'
    subst ht'
    rw [ha, Except.ok.injEq, Prod.mk.injEq] at ha'
    have hpath : k.path = k'.path := by
      rw [ha'.1]
      exact hpath
    rw [hpath]
    exact hsettled
  · have hin := mem_own.2 ⟨hk, rfl⟩
    rw [hown] at hin
    cases hin

/-- A path is taken if one of the deeds takes it. -/
theorem contains_iff_taken (h : Chronicle c world s log) (path : String) :
    s.store.contains path = true ↔ ∃ d ∈ log, d.taken? = some path := by
  rw [ModuleStore.contains_iff_mem, ← h.taken, List.mem_filterMap]

/-- A text stays where it is. -/
theorem text?_append (h : Chronicle c world s log) {s' : State σ} {deeds : List Deed}
    (h' : Chronicle c world s' (log ++ deeds)) {path text : String}
    (htext : s.store.text? path = some (some text)) : s'.store.text? path = some (some text) := by
  refine (h'.texts path text).2 ?_
  rcases (h.texts path text).1 htext with hadded | ⟨i, hfilled⟩
  · exact .inl (List.mem_append_left _ hadded)
  · exact .inr ⟨i, List.mem_append_left _ hfilled⟩

end Chronicle

/-- A path that is taken after some tasks have advanced was taken before, or one of them has
claimed it. -/
theorem Kept.contains_or_claimed {c : Setting σ} {world : σ} {s : State σ} {log : List Deed}
    (h : Kept c world s log) (places : List Nat) {path : String}
    (htaken : (s.follow c places).store.contains path = true) :
    s.store.contains path = true ∨ ∃ i ∈ places, ∃ k urls,
      .claimed i k urls ∈ s.log c (places.map .step) ∧ k.path = path := by
  obtain ⟨d, hd, hpath⟩ := ((h.follow places).chronicle.contains_iff_taken path).1 htaken
  rcases List.mem_append.1 hd with hd | hd
  · exact .inl ((h.chronicle.contains_iff_taken path).2 ⟨d, hd, hpath⟩)
  · obtain ⟨i, hi, hplace⟩ := State.place_of_mem_log c s places hd
    cases d with
    | claimed j k urls =>
      obtain rfl : j = i := Option.some.inj hplace
      exact .inr ⟨j, hi, k, urls, hd, Option.some.inj hpath⟩
    | added path text => cases hplace
    | fetched j path url r => cases hpath
    | drafted j path source => cases hpath
    | filled j path text => cases hpath

section

variable {c : Setting σ} {world : σ} {s₀ : State σ} {log₀ : List Deed}

/-- The task of one of the modules that are asked for together, however the tasks advance. -/
theorem State.task_of_asked (c : Setting σ) (s₀ : State σ) {urls : List String} {n : Nat}
    {url : String} (hn : urls[n]? = some url) (places : List Nat) :
    ∃ t, ((s₀.ask none (urls.map fun u => .module u u)).1.follow c places).tasks[
      s₀.tasks.length + n]? = some t ∧ t.demand = .module url url := by
  have hfirst : (s₀.ask none (urls.map fun u => .module u u)).1.tasks[s₀.tasks.length + n]? =
      some ⟨none, .module url url, .ready⟩ := by
    rw [ask, List.getElem?_append_right (Nat.le_add_right _ _), Nat.add_sub_cancel_left]
    simp [hn]
  obtain ⟨t, ht, hd⟩ := State.persists_play c _ (places.map .step) hfirst
  rw [← State.follow_eq_play] at ht
  exact ⟨t, ht, hd⟩

theorem State.mem_asked_iff (s₀ : State σ) (urls : List String) (i : Nat) :
    i ∈ (s₀.ask none (urls.map fun u => .module u u)).2 ↔
      ∃ n url, urls[n]? = some url ∧ i = s₀.tasks.length + n := by
  rw [ask, List.mem_range'_1, List.length_map]
  constructor
  · intro h
    exact ⟨i - s₀.tasks.length, _, List.getElem?_eq_getElem (by omega), by omega⟩
  · rintro ⟨n, url, hn, rfl⟩
    have := (List.getElem?_eq_some_iff.1 hn).1
    omega

/-- The end of one of the tasks at places none of which has failed. -/
theorem State.finished_of_unharmed {s : State σ} {places : List Nat} (hok : s.failure? places = none)
    (hall : s.allFinished places = true) {i : Nat} (hi : i ∈ places) {t : Task}
    (ht : s.tasks[i]? = some t) : ∃ o, t.phase = .finished o ∧ ∀ e, o ≠ .failed e := by
  have hsome := List.all_eq_true.1 hall i hi
  have hnone := List.findSome?_eq_none_iff.1 hok i hi
  rw [State.outcome?, ht, Option.bind_some] at hsome hnone
  obtain ⟨o, ho⟩ := (t.isSome_outcome?_iff).1 hsome
  refine ⟨o, ho, ?_⟩
  rintro e rfl
  simp [Task.outcome?, ho] at hnone

/-- **main theorem**: if none of the loads of modules that are asked for together has failed, each
has its path. The path has its text, unless it was reserved already, and without a text, when they
began. -/
theorem Kept.settled_or_reserved (h : Kept c world s₀ log₀) {urls : List String}
    {asked : State σ × List Nat} (hasked : asked = s₀.ask none (urls.map fun u => .module u u))
    {s₁ s : State σ} {older later : List Nat} (hs₁ : s₁ = asked.1.follow c older)
    (hs : s = s₁.follow c (asked.2 ++ later)) (hok : s.failure? asked.2 = none)
    (hall : s.allFinished asked.2 = true) {n : Nat} {url : String} (hn : urls[n]? = some url) :
    ∃ path, virtualPath url = .ok path ∧
      s.outcome? (s₀.tasks.length + n) = some (.loaded path) ∧
      (s.IsSettled path ∨ s₁.store.text? path = some none) := by
  subst hasked
  set asked := s₀.ask none (urls.map fun u => .module u u) with hasked
  -- The states when the tasks begin, when each has had its turn, and at the end.
  have h₁ : Kept c world s₁ _ := hs₁ ▸ (h.ask (urls.map fun u => .module u u)).follow older
  set log₁ := log₀ ++ asked.1.log c (older.map .step)
  have h₂ := h₁.follow asked.2
  set s₂ := s₁.follow c asked.2 with hs₂
  set log₂ := log₁ ++ s₁.log c (asked.2.map .step)
  have h₃ := h₂.follow later
  rw [hs₂, ← State.follow_append, ← hs] at h₃
  have hend : ∀ {m v}, urls[m]? = some v → ∃ t, s.tasks[s₀.tasks.length + m]? = some t ∧
      t.demand = .module v v ∧ ∃ o, t.phase = .finished o ∧ ∀ e, o ≠ .failed e := by
    intro m v hm
    obtain ⟨t, ht, hd⟩ := s₀.task_of_asked c hm (older ++ (asked.2 ++ later))
    rw [State.follow_append, ← hasked, ← hs₁, ← hs] at ht
    have hmem := (s₀.mem_asked_iff urls _).2 ⟨m, v, hm, rfl⟩
    exact ⟨t, ht, hd, State.finished_of_unharmed hok hall hmem ht⟩
  obtain ⟨t, ht, hd, o, ho, hne⟩ := hend hn
  obtain ⟨k, us, ha, rfl, hsettled | hown⟩ := h₃.chronicle.settled_or_answered ht hd ho hne
  all_goals
    refine ⟨k.path, ((aimAt_eq_ok_iff ..).1 (hd ▸ ha)).2.1, ?_, ?_⟩
    · rw [State.outcome?, ht, Option.bind_some, Task.outcome?, ho]
  · exact .inl hsettled
  · -- The task was answered in its turn, so its path was taken by then.
    have htaken : s₂.store.contains k.path = true := by
      obtain ⟨t₁, ht₁, -⟩ := s₀.task_of_asked c hn older
      rw [← hasked, ← hs₁] at ht₁
      obtain ⟨t₂, ht₂, hd₂⟩ := s₀.task_of_asked c hn (older ++ asked.2)
      rw [State.follow_append, ← hasked, ← hs₁] at ht₂
      have hmem := (s₀.mem_asked_iff urls _).2 ⟨n, url, hn, rfl⟩
      have hbegun := State.begun_of_follow c s₁ asked.2 ht₁ (.inl hmem)
      have hown₂ : own (s₀.tasks.length + n) log₂ = [] := by
        rw [own, List.filter_append, List.append_eq_nil_iff] at hown
        exact hown.1
      exact h₂.chronicle.contains_of_begun hbegun ht₂ hown₂ (by rw [hd₂, ← hd]; exact ha)
    rcases h₁.contains_or_claimed asked.2 htaken with htaken₁ | ⟨j, hj, k', us', hk', hpath⟩
    · obtain ⟨r, hr⟩ := Option.isSome_iff_exists.1 ((ModuleStore.contains_iff_text? _ _).1 htaken₁)
      cases r with
      | none => exact .inr hr
      | some text =>
        have hr₂ := h₁.chronicle.text?_append h₂.chronicle hr
        exact .inl ⟨text, h₂.chronicle.text?_append h₃.chronicle hr₂⟩
    · obtain ⟨m, v, hm, rfl⟩ := (s₀.mem_asked_iff urls j).1 hj
      obtain ⟨t', ht', hd', o', ho', hne'⟩ := hend hm
      have hk : .claimed _ k' us' ∈ log₂ := List.mem_append_right _ hk'
      rw [← hpath]
      exact .inl (h₃.chronicle.settled_of_claimed ht' hd' ho' hne' (List.mem_append_left _ hk))

/-- If one of the loads has failed, the fault names a module that was asked for. -/
theorem Kept.fault_of_failed (h : Kept c world s₀ log₀) {urls : List String}
    {asked : State σ × List Nat} (hasked : asked = s₀.ask none (urls.map fun u => .module u u))
    {s : State σ} {places : List Nat} (hs : s = asked.1.follow c places) {e : Fault}
    (he : s.failure? asked.2 = some e) : ∃ url ∈ urls, ∃ cause, e = .module url cause := by
  subst hasked hs
  obtain ⟨i, hi, t, ht, hphase⟩ := State.failed_of_failure? he
  obtain ⟨n, url, hn, rfl⟩ := (s₀.mem_asked_iff urls i).1 hi
  obtain ⟨t', ht', hd⟩ := s₀.task_of_asked c hn places
  rw [ht, Option.some.injEq] at ht'
  subst ht'
  have hkept := (h.ask (urls.map fun u => .module u u)).follow places
  exact ⟨url, List.mem_of_getElem? hn, hkept.chronicle.module_of_failed ht hd hphase⟩

end

end ModuleGraph.Loading
