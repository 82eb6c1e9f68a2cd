import ModuleGraph.Proofs.Loading.Libraries
import ModuleGraph.Proofs.Project.Build
/-!
# Libraries of a build

A build loads the libraries that its options name before anything else. None of them can end the
build, unless no URL can be made of its name: the joining of directory and name is outside of what is
reported, so that the option `lib` with the name `x://[` ends the build with an error about the
address `[.d.ts`, and so does a reference to it in a text.

Results:
* `Build.libraries_run`: the phase ends with the first fault among the libraries, or with none;
* `Plan.libraries_spare`: **main theorem**: what becomes of loads of libraries, in a run and in a
  build;
* `Plan.library_without_url`: a name that ends the build.
-/

namespace ModuleGraph

open Loading (Kept State Demand Spares)

namespace Build

variable {run : Runner} {c : Loading.Setting Fetch.World} {w : Fetch.World}
  {s : State Fetch.World} {log : List Loading.Deed}

/-- The phase of the libraries, in one run of their tasks. -/
theorem libraries_run (run : Runner) (c : Loading.Setting Fetch.World) (s : State Fetch.World)
    {o : CompilerOptions} {names : List String} (ho : o.libraries = .ok names) :
    let asked := s.ask none (names.map .library)
    let s' := run c asked.2 asked.1
    (libraries run c o).run s =
      match s'.failure? asked.2 with
      | some e => (.error e, s')
      | none => (.ok (), s') := by
  intro asked s'
  have htogether : (together run c (names.map .library)).run s = (s'.results asked.2, s') := rfl
  rw [libraries, ho, Action.mapError_ok, Action.run_bind, Action.run_liftM]
  dsimp only
  rw [Action.run_bind, htogether, State.results]
  cases s'.failure? asked.2 with
  | some e => rfl
  | none => rfl

/-- A fault among the libraries is that of a name of which no URL can be made. -/
theorem problem_of_failure (hrun : run.StartsInOrder) (h : Kept c w s log) {names : List String}
    {e : Fault} (he : let asked := s.ask none (names.map .library)
      (run c asked.2 asked.1).failure? asked.2 = some e) :
    ∃ name ∈ names, ∃ problem,
      Library.problem? c.libraryDir c.bundledDir name = some problem ∧
        e = .foreign (.ofUrl problem) := by
  obtain ⟨older, later, -, heq⟩ := hrun c s (names.map .library)
  obtain ⟨i, hi, t, ht, ho⟩ := State.failed_of_failure? he
  rw [heq] at ht
  -- The task keeps the demand that it was asked for.
  obtain ⟨d, hfirst⟩ := s.getElem?_asked hi
  have hmem : d ∈ names.map Demand.library := by
    obtain ⟨hle, hlt⟩ := List.mem_range'_1.1 hi
    change (s.tasks ++ _)[i]? = _ at hfirst
    rw [List.getElem?_append_right hle, List.getElem?_map, Option.map_eq_some_iff] at hfirst
    obtain ⟨d', hd', heq'⟩ := hfirst
    cases heq'
    exact List.mem_of_getElem? hd'
  obtain ⟨name, hname, rfl⟩ := List.mem_map.1 hmem
  obtain ⟨u, hu, hd⟩ := State.persists_play c _ ((older ++ _ ++ later).map .step) hfirst
  rw [← State.follow_eq_play, List.append_assoc, ht, Option.some.injEq] at hu
  subst hu
  have hend := ((h.ask (names.map .library)).follow _).chronicle.library_ends ht hd ho
  refine ⟨name, hname, ?_⟩
  cases hproblem : Library.problem? c.libraryDir c.bundledDir name with
  | none =>
    rw [hproblem] at hend
    rcases hend with ⟨_, _, _, hloaded, _⟩ | ⟨hreported, _⟩
    · cases hloaded
    · cases hreported
  | some problem =>
    rw [hproblem] at hend
    exact ⟨problem, rfl, Loading.Outcome.failed.inj hend⟩

end Build

namespace Plan

variable {π : Type}

/-- The build after its libraries. -/
def afterLibraries (run : Runner) (p : Plan π) (q : Opened) : Build (Program π) := do
  let options ← Build.runtime run q.setting q.rootUrl q.settled.options
  p.finished run ⟨q.rootUrl, q.settled.entries, q.setting, options⟩

theorem buildWith_eq_afterLibraries (run : Runner) (p : Plan π) :
    p.buildWith run = p.opened >>= fun q =>
      Build.libraries run q.setting q.settled.options >>= fun _ => p.afterLibraries run q := by
  simp only [buildWith_eq, prepared_eq, prepare, afterLibraries, bind_assoc, pure_bind]

/-- **main theorem**: whatever is fetched, and in whatever order tasks advance, the load of a library
ends with its path or with one notice, and fails neither a draft nor a build, if the URLs of the
library can be made. Where they cannot, the fault of their making is all that it ends with. Over
finitely many paths every load ends. -/
theorem libraries_spare {run : Runner} (hrun : run.StartsInOrder) (p : Plan π) (w : Fetch.World) :
    (∀ (c : Loading.Setting Fetch.World) (moves : List Loading.Move),
      let s := (State.start w).play c moves
      Spares c w s ((State.start w).log c moves) ∧
        ∀ entries paths, c.HasPaths entries paths → (∀ m ∈ moves, m.AsksWithin entries) →
          ∃ n, (s.runFor c [] n).AllFinished) ∧
    ∀ q s names, p.opened.run (.start w) = (.ok q, s) → q.settled.options.libraries = .ok names →
      ((∀ name ∈ names,
        Library.problem? q.setting.libraryDir q.setting.bundledDir name = none) →
        ∃ s', (Build.libraries run q.setting q.settled.options).run s = (.ok (), s') ∧
          (p.buildWith run).run (.start w) = (p.afterLibraries run q).run s') ∧
      ∀ e s', (Build.libraries run q.setting q.settled.options).run s = (.error e, s') →
        (p.buildWith run).run (.start w) = (.error e, s') ∧
        ∃ name ∈ names, ∃ problem,
          Library.problem? q.setting.libraryDir q.setting.bundledDir name = some problem ∧
            e = .foreign (.ofUrl problem) := by
  constructor
  · intro c moves s
    have hall : ∀ allowed : Loading.Move → Prop, (∀ m ∈ moves, allowed m) →
        Loading.Reached c w allowed s ((State.start w).log c moves) :=
      fun _ hm => Loading.reached_play c w hm
    exact ⟨(hall (fun _ => True) fun _ _ => trivial).spares,
      fun entries paths hpaths hm => (hall _ hm).exists_rounds hpaths⟩
  · intro q s names hopened hnames
    obtain ⟨log, hkept⟩ := kept_of_opened hopened
    have hphase := Build.libraries_run run q.setting s hnames
    have hbuild : ∀ r s', (Build.libraries run q.setting q.settled.options).run s = (r, s') →
        (p.buildWith run).run (.start w) = match r with
          | .ok _ => (p.afterLibraries run q).run s'
          | .error e => (.error e, s') := by
      intro r s' hr
      rw [buildWith_eq_afterLibraries, Action.run_bind_of_ok hopened, Action.run_bind, hr]
      cases r <;> rfl
    constructor
    · intro hfine
      have hran : ((Build.libraries run q.setting q.settled.options).run s).1 = .ok () := by
        rw [hphase]
        split
        · next e he =>
          obtain ⟨name, hname, problem, hproblem, -⟩ := Build.problem_of_failure hrun hkept he
          rw [hfine name hname] at hproblem
          cases hproblem
        · rfl
      generalize hr : (Build.libraries run q.setting q.settled.options).run s = r at hran
      obtain ⟨r, s'⟩ := r
      obtain rfl : r = .ok () := hran
      exact ⟨s', rfl, hbuild _ _ hr⟩
    · intro e s' he
      refine ⟨hbuild _ _ he, ?_⟩
      rw [hphase] at he
      split at he
      · next e' he' =>
        cases he
        exact Build.problem_of_failure hrun hkept he'
      · cases he

/-! ## A library that is not there, and one without a URL -/

/-- A plan for the project in `/proj` with one library. -/
def oneLibrary (name : String) : Plan Unit :=
  { ownRuntime with overrides := .ofList [("lib", .arr [.str name])] }

/-- The project has no files, and nothing is served. -/
def emptyProject : Fetch.World where
  files := ⟨[(["proj".toList], .directory)], []⟩
  routes := []
  now := 0
  requests := []
  log := []

/-- Loads over the default directories, of which no URL has a text. -/
def nothingServed : Loading.Setting Fetch.World where
  importMap := .empty
  libraryDir := defaultLibraryDir
  bundledDir := "file:///bundled"
  libraryLocation := "/https/raw.githubusercontent.com/denoland/deno/main/cli/tsc/dts"
  fetch url w := (.error (.fetch url "nothing is served"), w)

set_option maxRecDepth 100000 in
/-- The name is joined with the library directory as a URL of its own, whose authority is `[.d.ts`:
the load fails with the error about it, and so does a build with this library. -/
theorem library_without_url :
    (¬ ∀ (c : Loading.Setting Fetch.World) (w : Fetch.World) (moves : List Loading.Move) (i : Nat)
      (t : Loading.Task) (name : String) (o : Loading.Outcome),
      ((State.start w).play c moves).tasks[i]? = some t → t.demand = .library name →
        t.phase = .finished o → (∃ path, o = .loaded path) ∨ o = .reported) ∧
    ¬ ∀ name, ∃ program s, (oneLibrary name).build emptyProject = (.ok program, s) := by
  constructor
  · intro hall
    let s := (State.start emptyProject).play nothingServed [.ask (.library "x://["), .step 0]
    have h : (s.outcome? 0, s.tasks[0]?.map Loading.Task.demand) =
        (some (.failed (.foreign ⟨"ValueError", "Invalid IPv6 URL"⟩)),
          some (.library "x://[")) := by decide +kernel
    obtain ⟨ho, hd⟩ := Prod.mk.inj h
    obtain ⟨t, ht, hdemand⟩ := Option.map_eq_some_iff.1 hd
    rw [State.outcome?, ht, Option.bind_some, Loading.Task.outcome?_eq_some_iff] at ho
    rcases hall _ _ _ 0 t _ _ ht hdemand ho with ⟨path, hloaded⟩ | hreported
    · cases hloaded
    · cases hreported
  · intro hall
    have h : ((oneLibrary "x://[").build emptyProject).1.toOption.isSome = false := by
      decide +kernel
    obtain ⟨program, s, hbuild⟩ := hall "x://["
    rw [hbuild] at h
    cases h

set_option maxRecDepth 100000 in
/-- A library that is not there is reported, in a run and in a build, and the build goes on. -/
theorem libraries_spare_gone :
    (let s := (State.start emptyProject).play nothingServed [.ask (.library "gone")]
      ∃ n, (s.runFor nothingServed [] n).AllFinished) ∧
    ∃ q s s', (oneLibrary "gone").opened.run (.start emptyProject) = (.ok q, s) ∧
      (Build.libraries State.run q.setting q.settled.options).run s = (.ok (), s') ∧
      (oneLibrary "gone").build emptyProject =
        ((oneLibrary "gone").afterLibraries State.run q).run s' := by
  obtain ⟨hloads, hbuilds⟩ := libraries_spare startsInOrder_run (oneLibrary "gone") emptyProject
  constructor
  · -- No text is fetched, so nothing else is asked for.
    have hpaths : nothingServed.HasPaths [.library "gone"]
        {"/https/raw.githubusercontent.com/denoland/deno/main/cli/tsc/dts/lib.gone.d.ts"} := by
      intro d k urls hd ha
      have hentry : d = .library "gone" := by
        cases hd with
        | entry h => exact List.mem_singleton.1 h
        | named _ _ _ hs _ =>
          obtain ⟨w, hw⟩ := hs
          cases hw
      have haim : ((Demand.library "gone").aim nothingServed).toOption.map (·.1.path) = some
          "/https/raw.githubusercontent.com/denoland/deno/main/cli/tsc/dts/lib.gone.d.ts" := by
        decide +kernel
      rw [← hentry, ha] at haim
      exact Finset.mem_singleton.2 (Option.some.inj haim)
    exact (hloads nothingServed [.ask (.library "gone")]).2 _ _ hpaths fun m hm => by
      rw [List.mem_singleton.1 hm]
      exact List.mem_singleton_self _
  · have h : (match (oneLibrary "gone").opened.run (.start emptyProject) with
        | (.error _, _) => false
        | (.ok q, _) => decide (q.settled.options.libraries = .ok ["gone"]) &&
          (Library.problem? q.setting.libraryDir q.setting.bundledDir "gone").isNone) = true := by
      decide +kernel
    rcases hopened : (oneLibrary "gone").opened.run (.start emptyProject) with ⟨r, s⟩
    rw [hopened] at h
    cases r with
    | error e => cases h
    | ok q =>
      obtain ⟨hnames, hproblem⟩ := (Bool.and_eq_true ..).mp h
      obtain ⟨s', hran, hrest⟩ := (hbuilds q s ["gone"] hopened (of_decide_eq_true hnames)).1
        fun name hname => by
          rw [List.mem_singleton.1 hname]
          exact Option.isNone_iff_eq_none.1 hproblem
      exact ⟨q, s, s', rfl, hran, hrest⟩

end Plan

end ModuleGraph
