import ModuleGraph.Proofs.Loading.Termination
import ModuleGraph.Proofs.Loading.Together
/-!
# Loads of libraries

A library that cannot be loaded is reported and passed over. Whatever is fetched, whatever the texts
are, and however tasks advance, the load of a library ends with the path of the library or with one
notice that it is missing, with one exception: the name is joined with the URLs of two directories
before anything else is done, and a name for which there is no such URL, such as `x://[`, fails. The
fault is none of the module graph, so that it reaches whoever asked.

Results:
* `State.missing_perm`: a notice for each load that was reported, and no other notice;
* `Chronicle.library_ends`: how the load of a library ends;
* `Reached.library_of_failure`: which of the tasks that a draft waits for can fail it;
* `Reached.spares`: **main theorem**: everything that was said, in every state;
* `Reached.exists_rounds`: over finitely many paths every load ends.
-/

namespace ModuleGraph

/-- What keeps the URLs of a library from being made. -/
def Library.problem? (libraryDir bundledDir name : String) : Option Url.Problem :=
  match primaryUrl libraryDir name, fallbackUrl bundledDir name with
  | .ok _, .ok _ => none
  | .error p, _ | _, .error p => some p

theorem Library.problem?_eq_none_iff (libraryDir bundledDir name : String) :
    problem? libraryDir bundledDir name = none ↔
      Rewrite.HasUrls libraryDir bundledDir name := by
  unfold problem? Rewrite.HasUrls
  cases primaryUrl libraryDir name with
  | error p => simp
  | ok url =>
    cases fallbackUrl bundledDir name with
    | error p => simp
    | ok fallback => simp

/-- The library that a notice says is missing. -/
def Notice.missing? : Notice → Option String
  | .event (.libraryMissing name _) => some name
  | _ => none

namespace Loading

variable {σ : Type}

/-- The library that the task was asked for and that it has reported. -/
def Task.missing? (t : Task) : Option String :=
  match t.demand, t.phase with
  | .library name, .finished .reported => some name
  | _, _ => none

theorem Task.missing?_of_unfinished {t : Task} (h : ∀ o, t.phase ≠ .finished o) :
    t.missing? = none := by
  unfold missing?
  split
  · next ho => exact absurd ho (h _)
  · rfl

/-- The path that the load of a library is after, or why there is none. -/
theorem aim_library (c : Setting σ) (name : String) {p : Url.Problem}
    (h : Library.problem? c.libraryDir c.bundledDir name = some p) :
    (Demand.library name).aim c = .error (.foreign (.ofUrl p)) := by
  unfold Library.problem? at h
  unfold Demand.aim
  dsimp only
  cases hurl : Library.primaryUrl c.libraryDir name with
  | error p' =>
    rw [hurl] at h
    cases h
    rfl
  | ok url =>
    cases hfallback : Library.fallbackUrl c.bundledDir name with
    | ok fallback =>
      rw [hurl, hfallback] at h
      cases h
    | error p' =>
      rw [hurl, hfallback] at h
      cases h
      rfl

/-! ## Notices -/

/-- What is told when the load of a task ends is what its outcome says. -/
theorem missing_complaint (t : Task) (e : Fault) :
    (t.demand.complaint e).filterMap Notice.missing? =
      (Task.missing? { t with phase := .finished (t.demand.verdict e) }).toList := by
  obtain ⟨parent, demand, phase⟩ := t
  cases demand with
  | module url asUrl => rfl
  | required name => rfl
  | target source t =>
    by_cases he : e.isOwn = true
    · simp [Demand.complaint, Task.missing?, he, Rewrite.report, Notice.missing?]
    · simp [Demand.complaint, Task.missing?, he]
  | library name =>
    by_cases he : e.isOwn = true
    · simp [Demand.complaint, Demand.verdict, Task.missing?, he, Notice.missing?]
    · simp [Demand.complaint, Demand.verdict, Task.missing?, he]

/-- One element of a list is replaced by one that counts. -/
theorem perm_filterMap_modify {α β : Type} {f : α → Option β} {g : α → α} {l : List α} {i : Nat}
    {a : α} (ha : l[i]? = some a) (hf : f a = none) :
    ((l.modify i g).filterMap f).Perm (l.filterMap f ++ (f (g a)).toList) := by
  induction l generalizing i with
  | nil => cases ha
  | cons b l ih =>
    cases i with
    | zero =>
      obtain rfl : b = a := Option.some.inj ha
      rw [List.modify_zero_cons, List.filterMap_cons_none hf]
      cases hg : f (g b) with
      | none => rw [List.filterMap_cons_none hg, Option.toList_none, List.append_nil]
      | some x =>
        rw [List.filterMap_cons_some hg, Option.toList_some]
        exact (List.perm_append_singleton x _).symm
    | succ i =>
      have hrest := ih ha
      rw [List.modify_succ_cons]
      cases hb : f b with
      | none =>
        rw [List.filterMap_cons_none hb, List.filterMap_cons_none hb]
        exact hrest
      | some x =>
        rw [List.filterMap_cons_some hb, List.filterMap_cons_some hb]
        exact hrest.cons x

namespace State

/-- The libraries that are said to be missing, in the order of the notices. -/
def missing (s : State σ) : List String := s.notices.filterMap Notice.missing?

/-- The libraries whose loads were reported. -/
def reported (s : State σ) : List String := s.tasks.filterMap Task.missing?

theorem reported_enter {s : State σ} {i : Nat} {t : Task} (ht : s.tasks[i]? = some t)
    (hun : ∀ o, t.phase ≠ .finished o) (p : Phase) :
    (s.enter i p).reported.Perm (s.reported ++ (Task.missing? { t with phase := p }).toList) :=
  perm_filterMap_modify ht (Task.missing?_of_unfinished hun)

/-- A task that comes to another phase without ending is reported neither before nor after. -/
theorem reported_enter_unfinished {s : State σ} {i : Nat} {t : Task} (ht : s.tasks[i]? = some t)
    (hun : ∀ o, t.phase ≠ .finished o) {p : Phase} (hp : ∀ o, p ≠ .finished o) :
    (s.enter i p).reported.Perm s.reported := by
  have h := reported_enter ht hun p
  rwa [Task.missing?_of_unfinished (t := { t with phase := p }) hp, Option.toList_none,
    List.append_nil] at h

/-- A path yielded by a load is no report. -/
theorem missing?_finished_of_ne {t : Task} {o : Outcome} (ho : o ≠ .reported) :
    Task.missing? { t with phase := .finished o } = none := by
  unfold Task.missing?
  split
  · next h => exact absurd (Phase.finished.inj h) ho
  · rfl

theorem reported_of_asked (world : σ) (store : ModuleStore) (notices : List Notice)
    (tasks : List Task) (parent : Option Nat) (demands : List Demand) :
    State.reported ⟨world, store, notices, tasks ++ demands.map fun d => ⟨parent, d, .ready⟩⟩ =
      State.reported ⟨world, store, notices, tasks⟩ := by
  have hnil : (demands.map fun d => (⟨parent, d, .ready⟩ : Task)).filterMap Task.missing? = [] := by
    rw [List.filterMap_eq_nil_iff]
    intro t ht
    obtain ⟨d, -, rfl⟩ := List.mem_map.1 ht
    exact Task.missing?_of_unfinished fun o ho => by cases ho
  rw [reported, List.filterMap_append, hnil, List.append_nil, reported]

/-- The end of a load tells what its outcome says. -/
theorem Concluded.missing_perm {s s' : State σ} {i : Nat} {t : Task} {r : Except Fault String}
    (hc : Concluded s i t r s') (ht : s.tasks[i]? = some t) (hun : ∀ o, t.phase ≠ .finished o)
    (h : s.missing.Perm s.reported) : s'.missing.Perm s'.reported := by
  cases hc with
  | faulted e =>
    have hreported : (State.finish { s with notices := s.notices ++ t.demand.complaint e } i
        (t.demand.verdict e)).reported.Perm _ := reported_enter ht hun _
    refine List.Perm.trans ?_ hreported.symm
    rw [missing, finish, enter_notices, List.filterMap_append, missing_complaint]
    exact h.append_right _
  | @plain path _ =>
    have hreported := reported_enter ht hun (.finished (.loaded path))
    rw [missing?_finished_of_ne (by simp), Option.toList_none, List.append_nil] at hreported
    exact h.trans hreported.symm
  | @clashed path p target k d f _ _ =>
    have hreported := reported_enter ht hun (.finished (.failed f))
    rw [missing?_finished_of_ne (by simp), Option.toList_none, List.append_nil] at hreported
    exact h.trans hreported.symm
  | @written path p target k d e ha he =>
    obtain ⟨u, hu, hphase⟩ := tasks_of_phase? ha.rewriting
    have hdraft := reported_enter_unfinished (p := .rewriting k { d with editor := e }) hu
      (fun o ho => by rw [hphase] at ho; cases ho) (fun o ho => by cases ho)
    -- The draft that is written into may be that of the task itself.
    obtain ⟨v, hv, hvun⟩ : ∃ v,
        (s.enter p (.rewriting k { d with editor := e })).tasks[i]? = some v ∧
          ∀ o, v.phase ≠ .finished o := by
      by_cases hp : p = i
      · subst hp
        exact ⟨_, enter_self ht _, fun o ho => by cases ho⟩
      · exact ⟨t, by rw [enter_ne s hp, ht], hun⟩
    have hreported := reported_enter hv hvun (.finished (.loaded path))
    rw [missing?_finished_of_ne (by simp), Option.toList_none, List.append_nil] at hreported
    exact h.trans (hdraft.symm.trans hreported.symm)

theorem Turn.missing_perm {c : Setting σ} {s s' : State σ} {i : Nat} {ds : List Deed}
    (hturn : Turn c s i ds s') (h : s.missing.Perm s.reported) : s'.missing.Perm s'.reported := by
  have hopen : ∀ {t : Task} {p : Phase}, t.phase = p → (∀ o, p ≠ .finished o) →
      ∀ o, t.phase ≠ .finished o := by
    rintro t p rfl hp
    exact hp
  have htell : ∀ {notices : List Notice}, (∀ n ∈ notices, n.missing? = none) →
      (s.notices ++ notices).filterMap Notice.missing? = s.missing := by
    intro notices hn
    rw [List.filterMap_append, List.filterMap_eq_nil_iff.2 hn, List.append_nil, missing]
  have hasked : ∀ (world : σ) (notices : List Notice) (demands : List Demand) {t : Task}
      {p : Phase}, s.tasks[i]? = some t → (∀ o, t.phase ≠ .finished o) → (∀ o, p ≠ .finished o) →
      (State.enter ⟨world, s.store, notices, s.tasks ++ offspring i demands⟩ i p).reported.Perm
        s.reported := by
    intro world notices demands t p ht hun hp
    have hentered := reported_enter_unfinished
      (s := ⟨world, s.store, notices, s.tasks ++ offspring i demands⟩)
      (getElem?_offspring ht i demands) hun hp
    exact hentered.trans (List.Perm.of_eq
      (reported_of_asked world s.store notices s.tasks (some i) demands))
  cases hturn with
  | rest _ => exact h
  | broken ht htrouble hc => exact hc.missing_perm ht htrouble.unfinished h
  | answered ht hp ha hs hc =>
    exact hc.missing_perm ht (hopen hp fun o ho => by cases ho) h
  | claimed ht hp ha hs =>
    exact h.trans (reported_enter_unfinished (s := { s with store := _ }) ht
      (hopen hp fun o ho => by cases ho) fun o ho => by cases ho).symm
  | @retried t k url urls errors errors' e ht hp hr hurls =>
    have hreported := reported_enter_unfinished
      (s := { s with world := (c.fetch url s.world).2, notices := s.notices ++ [fetchNotice url e] })
      (p := .fetching k urls errors') ht (hopen hp fun o ho => by cases ho) fun o ho => by cases ho
    refine List.Perm.trans (List.Perm.of_eq ?_) (h.trans hreported.symm)
    refine htell fun n hn => ?_
    rw [List.mem_singleton.1 hn]
    rfl
  | lost ht hp hr htold hc =>
    refine hc.missing_perm ht (hopen hp fun o ho => by cases ho) ?_
    refine List.Perm.trans (List.Perm.of_eq (htell fun n hn => ?_)) h
    rw [htold n hn]
    rfl
  | @drafted t k url urls errors source ht hp hr =>
    refine List.Perm.trans (List.Perm.of_eq (htell fun n hn => ?_)) (h.trans
      (hasked _ _ _ ht (hopen hp fun o ho => by cases ho) fun o ho => by cases ho).symm)
    obtain ⟨e, he, rfl⟩ := List.mem_map.1 hn
    unfold Rewrite.syntaxEvents at he
    split_ifs at he
    · rw [List.mem_singleton.1 he]
      rfl
    · cases he
  | proceeded ht hp hd hrest hr =>
    exact h.trans (hasked _ _ _ ht (hopen hp fun o ho => by cases ho) fun o ho => by cases ho).symm
  | settled ht hp hd hrest htext hs hc =>
    refine hc.missing_perm ht (hopen hp fun o ho => by cases ho) ?_
    refine List.Perm.trans (List.Perm.of_eq (htell fun n hn => ?_)) h
    rw [List.mem_singleton.1 hn]
    rfl

end State

/-- There is a notice for each load of a library that was reported, and no other notice that a
library is missing. -/
theorem Reached.missing_perm {c : Setting σ} {world : σ} {allowed : Move → Prop} {s : State σ}
    {log : List Deed} (h : Reached c world allowed s log) : s.missing.Perm s.reported := by
  induction h with
  | start => exact List.Perm.refl _
  | @move s log m h hm ih =>
    cases m with
    | step i => exact (s.step_turn c i).missing_perm ih
    | ask d =>
      have hreported := State.reported_of_asked s.world s.store s.notices s.tasks none [d]
      exact ih.trans (List.Perm.of_eq hreported.symm)
    | add path text =>
      have hsame : (s.move c (.add path text)).missing = s.missing ∧
          (s.move c (.add path text)).reported = s.reported := by
        rw [State.missing, State.reported, State.tasks_add, State.move]
        cases s.store.add path text <;> exact ⟨rfl, rfl⟩
      rw [hsame.1, hsame.2]
      exact ih

/-! ## How loads of libraries end -/

/-- How the load of a library at a place ends: with its path, which is taken; or with a report, after
it has found no path or has claimed one in vain. -/
def State.LibraryEnds (c : Setting σ) (s : State σ) (log : List Deed) (i : Nat) (name : String)
    (o : Outcome) : Prop :=
  (∃ k urls, (Demand.library name).aim c = .ok (k, urls) ∧ o = .loaded k.path ∧
    s.store.contains k.path = true) ∨
  o = .reported ∧ ∀ k urls, (Demand.library name).aim c = .ok (k, urls) →
    .claimed i k urls ∈ log ∧ s.store.text? k.path = some none

/-- The load of a library ends well if its URLs can be made, and with the fault of their making
otherwise. -/
theorem Chronicle.library_ends {c : Setting σ} {world : σ} {s : State σ} {log : List Deed}
    (h : Chronicle c world s log) {i : Nat} {t : Task} {name : String} {o : Outcome}
    (ht : s.tasks[i]? = some t) (hd : t.demand = .library name) (ho : t.phase = .finished o) :
    match Library.problem? c.libraryDir c.bundledDir name with
    | none => s.LibraryEnds c log i name o
    | some p => o = .failed (.foreign (.ofUrl p)) := by
  have hstory := h.stories i t ht
  have hmem : ∀ {x}, x ∈ own i log → x ∈ log := fun hx => (mem_own.1 hx).1
  rw [hd, ho] at hstory
  generalize own i log = ds at hstory hmem
  -- Only a task that writes into a draft may end badly with a path.
  have hloaded : ∀ {path}, (Demand.library name).Yields path o → o = .loaded path := by
    rintro path (hy | ⟨⟨_, _, htarget⟩, -⟩)
    · exact hy
    · cases htarget
  cases hproblem : Library.problem? c.libraryDir c.bundledDir name with
  | some p =>
    have haim := aim_library c name hproblem
    cases hstory with
    | refused ha =>
      rw [haim] at ha
      cases ha
      rfl
    | answered ha _ _ => cases haim.symm.trans ha
    | lost ha _ _ => cases haim.symm.trans ha
    | dropped ha _ => cases haim.symm.trans ha
    | settled ha _ _ => cases haim.symm.trans ha
  | none =>
    have hurls := (Library.problem?_eq_none_iff ..).1 hproblem
    have hclaimed : ∀ {k k' : Claim} {urls urls' : List String},
        (Demand.library name).aim c = .ok (k, urls) → .claimed i k urls ∈ ds →
        s.store.text? k.path = some none → (Demand.library name).aim c = .ok (k', urls') →
        .claimed i k' urls' ∈ log ∧ s.store.text? k'.path = some none := by
      intro k k' urls urls' ha hk hs ha'
      rw [ha, Except.ok.injEq, Prod.mk.injEq] at ha'
      obtain ⟨rfl, rfl⟩ := ha'
      exact ⟨hmem hk, hs⟩
    cases hstory with
    | @refused e ha =>
      have haim : (State.demandOf "" (.library name)).aim c = .error e := ha
      have hown : e.isOwn = true :=
        isOwn_of_aim (fun _ hname => by cases hname; exact hurls) haim
      refine .inr ⟨if_pos hown, fun k urls ha' => ?_⟩
      rw [ha] at ha'
      cases ha'
    | answered ha hs hy => exact .inl ⟨_, _, ha, hloaded hy, hs⟩
    | lost ha htried hs =>
      exact .inr ⟨rfl, fun _ _ ha' => hclaimed ha List.mem_cons_self hs ha'⟩
    | dropped ha hs => exact .inr ⟨rfl, fun _ _ ha' => hclaimed ha List.mem_cons_self hs ha'⟩
    | settled ha hs hy =>
      exact .inl ⟨_, _, ha, hloaded hy, ModuleStore.contains_of_text? hs⟩

/-- A draft fails because of a library only if the URLs of that library cannot be made. -/
theorem Reached.library_of_failure {c : Setting σ} {world : σ} {allowed : Move → Prop} {s : State σ}
    {log : List Deed} (h : Reached c world allowed s log) {i : Nat} {k : Claim} {d : Draft}
    {e : Fault} (hp : s.phase? i = some (.rewriting k d)) (he : s.failure? d.pending = some e) :
    ∃ j ∈ d.pending, s.outcome? j = some (.failed e) ∧ ∃ t, s.tasks[j]? = some t ∧
      ((∃ source target, t.demand = .target source target) ∨
        ∃ name p, t.demand = .library name ∧
          Library.problem? c.libraryDir c.bundledDir name = some p ∧
          e = .foreign (.ofUrl p)) := by
  obtain ⟨j, hj, t, ht, ho⟩ := State.failed_of_failure? he
  refine ⟨j, hj, ?_, t, ht, ?_⟩
  · rw [State.outcome?, ht, Option.bind_some, Task.outcome?, ho]
  obtain ⟨t', ht', hpar⟩ := (h.family.drafts i k d hp).pending j hj
  rw [ht, Option.some.injEq] at ht'
  subst ht'
  rcases h.origin ht with ⟨hnone, -⟩ | ⟨-, path, source, r, -, -, -, hd⟩
  · rw [hpar] at hnone
    cases hnone
  · cases r with
    | module target => exact .inl ⟨_, _, hd⟩
    | library name =>
      have hend := h.chronicle.library_ends ht hd ho
      cases hproblem : Library.problem? c.libraryDir c.bundledDir name with
      | none =>
        rw [hproblem] at hend
        rcases hend with ⟨_, _, _, hloaded, _⟩ | ⟨hreported, _⟩
        · cases hloaded
        · cases hreported
      | some p =>
        rw [hproblem] at hend
        exact .inr ⟨name, p, hd, hproblem, Outcome.failed.inj hend⟩

/-- What the loads of libraries may do to others, which is nothing where URLs can be made. -/
structure Spares (c : Setting σ) (world : σ) (s : State σ) (log : List Deed) : Prop where
  /-- There is one notice for each load that was reported, and none for any other. -/
  told : ∀ name, s.missing.count name = s.tasks.countP fun t =>
    decide (t.demand = .library name) && decide (t.outcome? = some .reported)
  /-- A load ends with a path or with a report, unless the URLs of the library cannot be made. -/
  ends : ∀ i t name o, s.tasks[i]? = some t → t.demand = .library name → t.phase = .finished o →
    match Library.problem? c.libraryDir c.bundledDir name with
    | none => s.LibraryEnds c log i name o
    | some p => o = .failed (.foreign (.ofUrl p))
  /-- A load that has not ended goes on, or waits for others that do. -/
  goesOn : ∀ i t name, s.tasks[i]? = some t → t.demand = .library name → s.outcome? i = none →
    (s.isAwake i = true ∨ ∃ j, s.WaitsFor i j) ∧ s.isQuiet = false
  /-- A draft is failed by a module that it names, or by a library without URLs. -/
  drafts : ∀ i k d e, s.phase? i = some (.rewriting k d) → s.failure? d.pending = some e →
    ∃ j ∈ d.pending, s.outcome? j = some (.failed e) ∧ ∃ t, s.tasks[j]? = some t ∧
      ((∃ source target, t.demand = .target source target) ∨
        ∃ name p, t.demand = .library name ∧
          Library.problem? c.libraryDir c.bundledDir name = some p ∧
          e = .foreign (.ofUrl p))

theorem countP_eq_count_reported (tasks : List Task) (name : String) :
    (tasks.filterMap Task.missing?).count name = tasks.countP fun t =>
      decide (t.demand = .library name) && decide (t.outcome? = some .reported) := by
  induction tasks with
  | nil => rfl
  | cons t tasks ih =>
    have hiff : t.missing? = some name ↔
        t.demand = .library name ∧ t.outcome? = some .reported := by
      unfold Task.missing? Task.outcome?
      split
      · next hd hp => simp [hd, hp]
      · next hne =>
        constructor
        · intro h
          cases h
        · rintro ⟨hd, ho⟩
          split at ho
          · next hp =>
            rw [Option.some.injEq] at ho
            exact absurd (hp.trans (congrArg _ ho)) (hne name hd)
          · cases ho
    rw [List.countP_cons, ← ih]
    cases hm : t.missing? with
    | none =>
      rw [hm] at hiff
      have hnot : ¬ (t.demand = .library name ∧ t.outcome? = some .reported) :=
        fun h => by cases hiff.2 h
      rw [List.filterMap_cons_none hm, if_neg (by simpa using hnot), Nat.add_zero]
    | some other =>
      rw [List.filterMap_cons_some hm, List.count_cons]
      rw [hm, Option.some.injEq] at hiff
      by_cases hname : other = name
      · have hboth := hiff.1 hname
        simp [hname, hboth]
      · have hnot : ¬ (t.demand = .library name ∧ t.outcome? = some .reported) :=
          fun h => hname (hiff.2 h)
        rw [if_neg (by simpa using hname), if_neg (by simpa using hnot)]

/-- **main theorem**: whatever is fetched, and in whatever order tasks advance, a library that cannot
be loaded is reported once and harms nobody, except for one whose URLs cannot be made. -/
theorem Reached.spares {c : Setting σ} {world : σ} {allowed : Move → Prop} {s : State σ}
    {log : List Deed} (h : Reached c world allowed s log) : Spares c world s log where
  told name := by rw [h.missing_perm.count_eq, ← countP_eq_count_reported, State.reported]
  ends i t name o ht hd ho := h.chronicle.library_ends ht hd ho
  goesOn i t name ht hd hnone := by
    refine ⟨State.awake_or_waitsFor ht hnone, Bool.eq_false_iff.2 fun hquiet => ?_⟩
    obtain ⟨o, ho⟩ := h.finished_of_isQuiet hquiet i t ht
    rw [State.outcome?, ht, Option.bind_some, Task.outcome?, ho] at hnone
    cases hnone
  drafts i k d e hp he := h.library_of_failure hp he

/-! ## Every round ends -/

/-- Where tasks are given turns, less is left to do, or none of them could advance. -/
theorem Reached.follow_cases {c : Setting σ} {world : σ} {entries : List Demand}
    {paths : Finset String} (hpaths : c.HasPaths entries paths) (places : List Nat) {s : State σ}
    {log : List Deed} (h : Reached c world (Move.AsksWithin entries) s log) :
    (s.follow c places = s ∧ ∀ i ∈ places, s.isAwake i = false) ∨
      (s.follow c places).remaining paths < s.remaining paths := by
  induction places generalizing s log with
  | nil => exact .inl ⟨rfl, fun i hi => by cases hi⟩
  | cons i places ih =>
    rw [State.follow_cons]
    cases hawake : s.isAwake i with
    | false =>
      rw [State.step_of_asleep hawake]
      refine (ih h).imp_left fun ⟨hsame, hasleep⟩ => ⟨hsame, fun j hj => ?_⟩
      rcases List.mem_cons.1 hj with rfl | hj
      · exact hawake
      · exact hasleep j hj
    | true =>
      have hlt : (s.step c i).remaining paths < s.remaining paths :=
        (s.step_turn c i).remaining_lt (fun t k urls ht ha => h.path_mem hpaths ht ha) hawake
      have hnext : Reached c world (Move.AsksWithin entries) (s.move c (.step i)) _ :=
        h.move trivial
      rcases ih hnext with ⟨hsame, -⟩ | hless
      · exact .inr (lt_of_le_of_lt (le_of_eq (congrArg (State.remaining · paths) hsame)) hlt)
      · exact .inr (lt_trans hless hlt)

/-- Where loads are after finitely many paths, all of them have ended after some number of rounds. -/
theorem Reached.exists_rounds {c : Setting σ} {world : σ} {entries : List Demand}
    {paths : Finset String} (hpaths : c.HasPaths entries paths) {s : State σ} {log : List Deed}
    (h : Reached c world (Move.AsksWithin entries) s log) : ∃ n, (s.runFor c [] n).AllFinished := by
  generalize hr : s.remaining paths = r
  induction r using WellFoundedLT.induction generalizing s log with
  | ind r ih =>
    subst hr
    by_cases hquiet : s.isQuiet = true
    · exact ⟨0, h.finished_of_isQuiet hquiet⟩
    · have hlt : (s.round c).remaining paths < s.remaining paths := by
        refine (h.follow_cases hpaths (List.range s.tasks.length)).resolve_left ?_
        rintro ⟨-, hasleep⟩
        exact hquiet (s.isQuiet_iff.2 fun i hi => hasleep i (List.mem_range.2 hi))
      have hround := h.play ((List.range s.tasks.length).map .step) fun m hm => by
        obtain ⟨i, -, rfl⟩ := List.mem_map.1 hm
        exact trivial
      rw [← State.follow_eq_play] at hround
      obtain ⟨n, hn⟩ := ih _ hlt hround rfl
      refine ⟨n + 1, ?_⟩
      rw [State.runFor, if_neg (by simpa [State.failure?] using hquiet)]
      exact hn

end Loading

end ModuleGraph
