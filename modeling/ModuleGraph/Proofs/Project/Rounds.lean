import ModuleGraph.Proofs.Loading.Whole
import ModuleGraph.Proofs.Project.Build
/-!
# Rounds of loads

What a build loads is settled before it loads anything: it asks for libraries, for the runtime of
JSX and for its entries, each of them together in a round. How tasks advance in a round is left
open, and so is how much time goes by. A build ends after the last round, or after a round in which
a load has failed.

Results:
* `load_induction`: what every beat keeps holds after all rounds;
* `Build.Loads`: a part of a build loads some rounds; `Plan.loads_loading`: so does a whole build;
* `Plan.buildWith_load`: **main theorem**: a build ends where its rounds end, or with a failed load.
-/

namespace ModuleGraph

open Loading (State Demand)

/-! ## Beats -/

/-- What happens while tasks run: a task advances, or time goes by, in microseconds. -/
inductive Beat where
  | step (place : Nat)
  | wait (micros : Nat)

/-- The state after a beat. -/
def Beat.after (c : Loading.Setting Fetch.World) (s : State Fetch.World) :
    Beat → State Fetch.World
  | .step i => s.step c i
  | .wait micros => { s with world := { s.world with now := s.world.now + micros } }

/-- Tasks that are asked for together run in beats. -/
def Runner.Plays (run : Runner) : Prop :=
  ∀ (c : Loading.Setting Fetch.World) (s : State Fetch.World) (demands : List Demand),
    let asked := s.ask none demands
    ∃ beats : List Beat, run c asked.2 asked.1 = beats.foldl (fun s b => b.after c s) asked.1

/-- The state after a round of demands. -/
def loadRound (run : Runner) (c : Loading.Setting Fetch.World) (s : State Fetch.World)
    (demands : List Demand) : State Fetch.World :=
  run c (s.ask none demands).2 (s.ask none demands).1

/-- The state after rounds of demands. -/
def load (run : Runner) (c : Loading.Setting Fetch.World) (s : State Fetch.World)
    (rounds : List (List Demand)) : State Fetch.World :=
  rounds.foldl (loadRound run c) s

section

variable {run : Runner} {c : Loading.Setting Fetch.World} {s : State Fetch.World}
  {rounds : List (List Demand)} {d : Demand}

theorem load_append (run : Runner) (c : Loading.Setting Fetch.World) (s : State Fetch.World)
    (rounds rounds' : List (List Demand)) :
    load run c s (rounds ++ rounds') = load run c (load run c s rounds) rounds' :=
  List.foldl_append

/-- What every beat keeps is kept in a round. -/
theorem loadRound_induction {I : State Fetch.World → Prop} (hrun : run.Plays)
    (hbeat : ∀ (b : Beat) s, I s → I (b.after c s)) {demands : List Demand}
    (h : I (s.ask none demands).1) : I (loadRound run c s demands) := by
  obtain ⟨beats, heq⟩ := hrun c s demands
  rw [loadRound, heq]
  clear heq
  generalize (s.ask none demands).1 = s at h
  induction beats generalizing s with
  | nil => exact h
  | cons b beats ih => exact ih _ (hbeat b s h)

/-- What every beat keeps, and what asking keeps, holds after all rounds. -/
theorem load_induction {I : State Fetch.World → Prop} (hrun : run.Plays)
    (hask : ∀ demands ∈ rounds, ∀ s, I s → I (s.ask none demands).1)
    (hbeat : ∀ (b : Beat) s, I s → I (b.after c s)) (h : I s) : I (load run c s rounds) := by
  induction rounds generalizing s with
  | nil => exact h
  | cons demands rounds ih =>
    rw [List.forall_mem_cons] at hask
    exact ih hask.2 (loadRound_induction hrun hbeat (hask.1 s h))

end

/-! ## What a build loads -/

namespace Opened

/-- The rounds that load the runtime of JSX. -/
def runtimeRounds (q : Opened) : Except Fault (List (List Demand)) :=
  match q.settled.options.runtimeSource? with
  | none => return []
  | some source => do
    let url ← q.setting.importMap.resolve q.rootUrl (source ++ Rewrite.runtimeSegment)
    return [[.module url url]]

/-- The rounds of a build, unless one of the things to load has no name or no URL. -/
def rounds (q : Opened) : Except Fault (List (List Demand)) := do
  let names ← q.settled.options.libraries.mapError Fault.foreign
  let runtime ← q.runtimeRounds
  return names.map .library :: (runtime ++ [q.settled.entries.map fun u => .module u u])

theorem rounds_eq_ok_iff {q : Opened} {rounds : List (List Demand)} : q.rounds = .ok rounds ↔
    ∃ names runtime, q.settled.options.libraries = .ok names ∧ q.runtimeRounds = .ok runtime ∧
      rounds =
        [names.map .library] ++ (runtime ++ [q.settled.entries.map fun u => .module u u]) := by
  rw [Opened.rounds]
  simp only [Action.bind_eq_ok_iff, Action.mapError_eq_ok_iff]
  constructor
  · rintro ⟨names, hnames, runtime, hruntime, h⟩
    cases h
    exact ⟨names, runtime, hnames, hruntime, rfl⟩
  · rintro ⟨names, runtime, hnames, hruntime, rfl⟩
    exact ⟨names, hnames, runtime, hruntime, rfl⟩

theorem isRoot_of_rounds {q : Opened} {rounds : List (List Demand)} (h : q.rounds = .ok rounds) :
    ∀ d ∈ rounds.flatten, d.IsRoot := by
  obtain ⟨names, runtime, -, hruntime, rfl⟩ := rounds_eq_ok_iff.1 h
  simp only [List.flatten_append, List.flatten_singleton, List.forall_mem_append,
    List.forall_mem_map]
  refine ⟨fun name _ => .library name, ?_, fun url _ => .module url⟩
  unfold runtimeRounds at hruntime
  cases hsource : q.settled.options.runtimeSource? with
  | none =>
    rw [hsource] at hruntime
    cases hruntime
    exact fun d hd => absurd hd List.not_mem_nil
  | some source =>
    rw [hsource] at hruntime
    obtain ⟨url, -, h⟩ := Action.bind_eq_ok_iff.1 hruntime
    cases h
    exact fun d hd => List.mem_singleton.1 hd ▸ .module url

end Opened

namespace Build

variable {α β : Type} {run : Runner} {c : Loading.Setting Fetch.World}
  {rounds rounds' : List (List Demand)}

/-- The part of a build tells something, and leaves everything else as it is. -/
def Tells (x : Build α) : Prop := ∀ s, ∃ notices, (x.run s).2 = { s with notices := notices }

namespace Tells

theorem pure (a : α) : Tells (pure a) := fun s => ⟨s.notices, rfl⟩

theorem get : Tells get := fun s => ⟨s.notices, rfl⟩

theorem throw (e : Fault) : Tells (throw e : Build α) := fun s => ⟨s.notices, rfl⟩

theorem tell (notices : List Notice) : Tells (tell notices) := fun _ => ⟨_, rfl⟩

theorem lift (x : Except Fault α) : Tells (liftM x) :=
  fun s => ⟨s.notices, by rw [Action.run_liftM]⟩

theorem bind {x : Build α} {f : α → Build β} (hx : Tells x) (hf : ∀ a, Tells (f a)) :
    Tells (x >>= f) := by
  intro s
  obtain ⟨notices, h⟩ := hx s
  rw [Action.run_bind]
  generalize x.run s = y at h ⊢
  obtain ⟨r, s'⟩ := y
  dsimp only at h
  subst h
  cases r with
  | error e => exact ⟨notices, rfl⟩
  | ok a => exact hf a _

theorem settle {π : Type} (p : Plan π) (root rootUrl : String) : Tells (p.settle root rootUrl) := by
  unfold Plan.settle
  refine get.bind fun s => (lift _).bind fun entries => (lift _).bind fun r =>
    (tell _).bind fun _ => ?_
  cases r.1 with
  | none => exact pure _
  | some config => exact lift _

theorem compile {π : Type} (p : Plan π) (rootNames : List String) (options : CompilerOptions)
    (host : Host) : Tells (p.compile rootNames options host) := by
  unfold Plan.compile
  cases p.frontend with
  | none => exact pure _
  | some f =>
    refine (tell _).bind fun _ => ?_
    cases (Diagnostic.report host (f.diagnostics (f.create rootNames options host))).2 with
    | none => exact pure _
    | some e => exact throw e

end Tells

/-- A load has failed in this way. -/
def HasFailed (s : State Fetch.World) (e : Fault) : Prop :=
  ∃ t ∈ s.tasks, t.phase = .finished (.failed e)

/-- The part of a build loads these rounds, or those up to one in which a load has failed. -/
def Loads (run : Runner) (c : Loading.Setting Fetch.World) (rounds : List (List Demand))
    (x : Build α) : Prop :=
  ∀ s, (∃ a, x.run s = (.ok a, load run c s rounds)) ∨ ∃ e done rest, rounds = done ++ rest ∧
    x.run s = (.error e, load run c s done) ∧ HasFailed (load run c s done) e

namespace Loads

theorem pure (a : α) : Loads run c [] (pure a) := fun _ => .inl ⟨a, rfl⟩

theorem bind {x : Build α} {f : α → Build β} (hx : Loads run c rounds x)
    (hf : ∀ a, Loads run c rounds' (f a)) : Loads run c (rounds ++ rounds') (x >>= f) := by
  intro s
  rcases hx s with ⟨a, hrun⟩ | ⟨e, done, rest, rfl, hrun, hfailed⟩
  · rw [Action.run_bind_of_ok hrun, load_append]
    rcases hf a (load run c s rounds) with ⟨b, hrun'⟩ | ⟨e, done, rest, rfl, hrun', hfailed⟩
    · exact .inl ⟨b, hrun'⟩
    · rw [← load_append] at hrun' hfailed
      exact .inr ⟨e, rounds ++ done, rest, (List.append_assoc ..).symm, hrun', hfailed⟩
  · rw [Action.run_bind_of_error hrun]
    exact .inr ⟨e, done, rest ++ rounds', List.append_assoc .., rfl, hfailed⟩

theorem map {x : Build α} (hx : Loads run c rounds x) (f : α → β) :
    Loads run c rounds (x >>= fun a => Pure.pure (f a)) := by
  have h := hx.bind fun a => Loads.pure (f a)
  rwa [List.append_nil] at h

theorem together (demands : List Demand) : Loads run c [demands] (together run c demands) := by
  intro s
  have hrun : (Build.together run c demands).run s =
      ((load run c s [demands]).results (s.ask none demands).2, load run c s [demands]) := rfl
  rw [hrun, State.results]
  cases hfailure : (load run c s [demands]).failure? (s.ask none demands).2 with
  | none => exact .inl ⟨_, rfl⟩
  | some e =>
    obtain ⟨i, -, t, ht, hphase⟩ := State.failed_of_failure? hfailure
    exact .inr ⟨e, [demands], [], rfl, rfl, t, List.mem_of_getElem? ht, hphase⟩

theorem modules (urls : List String) :
    Loads run c [urls.map fun u => .module u u] (modules run c urls) :=
  (together _).map _

theorem libraries {o : CompilerOptions} {names : List String} (ho : o.libraries = .ok names) :
    Loads run c [names.map .library] (libraries run c o) := by
  have heq : Build.libraries run c o = Build.together run c (names.map .library) >>= fun _ =>
      Pure.pure () := by
    rw [Build.libraries, ho]
    rfl
  rw [heq]
  exact (together _).map _

theorem runtime {q : Opened} (h : q.runtimeRounds = .ok rounds) :
    Loads run q.setting rounds (runtime run q.setting q.rootUrl q.settled.options) := by
  unfold Opened.runtimeRounds at h
  unfold Build.runtime
  cases hsource : q.settled.options.runtimeSource? with
  | none =>
    rw [hsource] at h
    cases h
    exact pure _
  | some source =>
    rw [hsource] at h
    obtain ⟨url, hurl, h⟩ := Action.bind_eq_ok_iff.1 h
    cases h
    dsimp only
    rw [hurl]
    rw [← List.append_nil [_]]
    refine (modules [url]).bind fun paths => ?_
    cases paths with
    | nil => exact pure _
    | cons path paths => exact pure _

end Loads

end Build

/-! ## The end of a build -/

namespace Plan

variable {π : Type} {run : Runner} {p : Plan π} {q : Opened} {w : Fetch.World}
  {s₁ : State Fetch.World} {rounds : List (List Demand)}

/-- The loads of a build: the options that its program has, and the names of its root files. -/
def loading (run : Runner) (q : Opened) : Build (CompilerOptions × List String) := do
  Build.libraries run q.setting q.settled.options
  let options ← Build.runtime run q.setting q.rootUrl q.settled.options
  let rootNames ← Build.modules run q.setting q.settled.entries
  return (options, rootNames)

/-- What a build does when its loads have ended. -/
def ending (p : Plan π) (q : Opened) (loaded : CompilerOptions × List String) :
    Build (Program π) := do
  let store := (← get).store
  Build.tell [Build.loadedNotice store.size loaded.2.length]
  p.compile loaded.2 loaded.1 ⟨store, q.rootUrl, p.libraryDir⟩

theorem buildWith_eq_ending (run : Runner) (p : Plan π) :
    p.buildWith run = p.opened >>= fun q => loading run q >>= p.ending q := by
  simp only [buildWith_eq, prepared_eq, prepare, finished, loading, ending, bind_assoc, pure_bind]

variable (run) in
theorem loads_loading (h : q.rounds = .ok rounds) :
    Build.Loads run q.setting rounds (loading run q) := by
  obtain ⟨names, runtime, hnames, hruntime, rfl⟩ := Opened.rounds_eq_ok_iff.1 h
  exact (Build.Loads.libraries hnames).bind fun _ => (Build.Loads.runtime hruntime).bind
    fun _ => (Build.Loads.modules _).map _

/-- What a build loads has names and URLs, if its loads come to an end. -/
theorem rounds_of_loading {s s' : State Fetch.World} {loaded : CompilerOptions × List String}
    (h : (loading run q).run s = (.ok loaded, s')) : ∃ rounds, q.rounds = .ok rounds := by
  unfold loading at h
  obtain ⟨_, s₁, hlibraries, h⟩ := Action.run_bind_eq_ok_iff.1 h
  obtain ⟨options, s₂, hruntime, -⟩ := Action.run_bind_eq_ok_iff.1 h
  unfold Build.libraries at hlibraries
  simp only [Action.run_liftM_bind_eq_ok_iff, Action.mapError_eq_ok_iff] at hlibraries
  obtain ⟨names, hnames, -⟩ := hlibraries
  have hrounds : ∃ runtime, q.runtimeRounds = .ok runtime := by
    unfold Opened.runtimeRounds
    unfold Build.runtime at hruntime
    cases hsource : q.settled.options.runtimeSource? with
    | none => exact ⟨_, rfl⟩
    | some source =>
      rw [hsource] at hruntime
      obtain ⟨url, hurl, -⟩ := Action.run_liftM_bind_eq_ok_iff.1 hruntime
      dsimp only
      rw [hurl]
      exact ⟨_, rfl⟩
  obtain ⟨runtime, hrounds⟩ := hrounds
  exact ⟨_, Opened.rounds_eq_ok_iff.2 ⟨names, runtime, hnames, hrounds, rfl⟩⟩

/-- The end of a build has its store, and nothing but the frontend makes it fail. -/
theorem ending_run (p : Plan π) (q : Opened) (loaded : CompilerOptions × List String)
    (s : State Fetch.World) :
    (∃ notices, ((p.ending q loaded).run s).2 = { s with notices := notices }) ∧
      (∀ program, ((p.ending q loaded).run s).1 = .ok program → program.store = s.store) ∧
      (p.frontend = none → ∃ program, ((p.ending q loaded).run s).1 = .ok program) := by
  have htells : Build.Tells (p.ending q loaded) :=
    Build.Tells.get.bind fun _ => (Build.Tells.tell _).bind fun _ => Build.Tells.compile p _ _ _
  refine ⟨htells s, fun program h => ?_, fun hnone => ?_⟩
  · rw [ending, Action.run_get_bind] at h
    obtain ⟨_, s', -, hcompile⟩ := Action.run_bind_eq_ok_iff.1 (Prod.ext h (Eq.refl _))
    rw [Program.store, (compile_eq_ok hcompile).2]
  · refine ⟨⟨loaded.2, loaded.1, ⟨s.store, q.rootUrl, p.libraryDir⟩, none, []⟩, ?_⟩
    change ((p.compile _ _ _).run _).1 = _
    rw [compile, hnone]
    rfl

/-- The state of a build that has settled what it goes by. -/
theorem opened_eq_ok (h : p.opened.run (.start w) = (.ok q, s₁)) :
    p.setting q.settled.importMap = .ok q.setting ∧ ∃ notices,
      s₁ = { (State.start w).move q.setting (.add Program.manifest.1 Program.manifest.2) with
        notices := notices } := by
  unfold opened at h
  simp only [Action.run_liftM_bind_eq_ok_iff] at h
  obtain ⟨root, -, rootUrl, -, h⟩ := h
  obtain ⟨settled, s, hsettle, h⟩ := Action.run_bind_eq_ok_iff.1 h
  obtain ⟨notices, hs⟩ := Build.Tells.settle p root (rootUrl ++ "/") (.start w)
  rw [hsettle] at hs
  dsimp only at hs
  subst hs
  simp only [Action.run_liftM_bind_eq_ok_iff, Action.run_get_bind, Action.run_modify_bind] at h
  obtain ⟨c, hc, store, hadd, h⟩ := h
  cases h
  have hmove : (State.start w).move c (.add Program.manifest.1 Program.manifest.2) =
      { State.start w with store := store } := by
    rw [State.move, show (State.start w).store.add Program.manifest.1 Program.manifest.2 =
      .ok store from Action.mapError_eq_ok_iff.1 hadd]
  exact ⟨hc, notices, by rw [hmove]⟩

/-- A build with a program has loaded all of its rounds. -/
theorem load_of_buildWith {program : Program π} {s : State Fetch.World}
    (hopened : p.opened.run (.start w) = (.ok q, s₁))
    (h : (p.buildWith run).run (.start w) = (.ok program, s)) : ∃ rounds, q.rounds = .ok rounds ∧
      program.store = s.store ∧
      ∃ notices, s = { load run q.setting s₁ rounds with notices := notices } := by
  rw [buildWith_eq_ending, Action.run_bind_of_ok hopened] at h
  obtain ⟨loaded, s', hloading, hending⟩ := Action.run_bind_eq_ok_iff.1 h
  obtain ⟨rounds, hrounds⟩ := rounds_of_loading hloading
  have hs' : s' = load run q.setting s₁ rounds := by
    rcases loads_loading run hrounds s₁ with ⟨_, hrun⟩ | ⟨_, _, _, -, hrun, -⟩
    · rw [hloading] at hrun
      exact congrArg Prod.snd hrun
    · rw [hloading] at hrun
      cases hrun
  obtain ⟨⟨notices, htells⟩, hstore, -⟩ := ending_run p q loaded s'
  rw [hending] at htells hstore
  dsimp only at htells
  subst htells
  exact ⟨rounds, hrounds, hstore program rfl, notices, by rw [hs']⟩

end Plan

end ModuleGraph
