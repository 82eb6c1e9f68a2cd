import ModuleGraph.Proofs.Action
import ModuleGraph.Proofs.Loading.Together
import ModuleGraph.Project.Build
/-!
# Entries of a build

A build loads libraries and the runtime of JSX before it loads its entry files, into one store. An
entry file that one of these loads has come across is not loaded again: if it could not be loaded
then, which is only reported, its path stays reserved, and the build goes on without its text.

Results:
* `Plan.buildWith_eq`: a build prepares its entries, and then loads them;
* `Plan.kept_of_prepared`: what holds when the entries are asked for;
* `Plan.entry_settled_or_reserved`: **main theorem**: what has become of the entries when a build
  ends;
* `Plan.build_without_entry`: a build whose entry file cannot be read may yield a program.
-/

namespace ModuleGraph

open Loading (Kept State Demand)

/-- Tasks that are asked for begin in their order: before any of them has a second turn, only tasks
advance that were there already. -/
def Runner.StartsInOrder (run : Runner) : Prop :=
  ∀ (c : Loading.Setting Fetch.World) (s : State Fetch.World) (demands : List Demand),
    let asked := s.ask none demands
    ∃ older later, (∀ i ∈ older, i < s.tasks.length) ∧
      run c asked.2 asked.1 = asked.1.follow c (older ++ (asked.2 ++ later))

theorem startsInOrder_run : Runner.StartsInOrder State.run := fun c s demands =>
  s.run_asked c demands

namespace Build

variable {α β : Type} {c : Loading.Setting Fetch.World} {w : Fetch.World}

/-- The action keeps what holds of a state and its log. -/
def Keeps (c : Loading.Setting Fetch.World) (w : Fetch.World) (x : Build α) : Prop :=
  ∀ s log, Kept c w s log → ∃ log', Kept c w (x.run s).2 log'

theorem Keeps.pure (a : α) : Keeps c w (pure a) := fun _ log h => ⟨log, h⟩

theorem Keeps.get : Keeps c w get := fun _ log h => ⟨log, h⟩

theorem Keeps.bind {x : Build α} {f : α → Build β} (hx : Keeps c w x)
    (hf : ∀ a, Keeps c w (f a)) : Keeps c w (x >>= f) := by
  intro s log h
  have hkept := hx s log h
  rw [Action.run_bind]
  generalize x.run s = y at hkept ⊢
  obtain ⟨r, s'⟩ := y
  obtain ⟨log', h'⟩ := hkept
  cases r with
  | ok a => exact hf a s' log' h'
  | error e => exact ⟨log', h'⟩

/-- What was found without the state may be used for the rest. -/
theorem Keeps.lift {x : Except Fault α} {f : α → Build β} (hf : ∀ a, x = .ok a → Keeps c w (f a)) :
    Keeps c w (liftM x >>= f) := by
  intro s log h
  rw [Action.run_bind, Action.run_liftM]
  cases x with
  | ok a => exact hf a rfl s log h
  | error e => exact ⟨log, h⟩

theorem Keeps.tell {notices : List Notice} (hn : ∀ n ∈ notices, n.loaded? = none) :
    Keeps c w (tell notices) := fun _ log h => ⟨log, h.tell hn⟩

section

variable {run : Runner} (hrun : run.StartsInOrder)

include hrun

theorem Keeps.together (demands : List Demand) : Keeps c w (together run c demands) := by
  intro s log h
  obtain ⟨older, later, -, heq⟩ := hrun c s demands
  change ∃ log', Kept c w (run c (s.ask none demands).2 (s.ask none demands).1) log'
  rw [heq]
  exact ⟨_, (h.ask demands).follow _⟩

theorem Keeps.modules (urls : List String) : Keeps c w (modules run c urls) :=
  (Keeps.together hrun _).bind fun _ => .pure _

theorem Keeps.libraries (o : CompilerOptions) : Keeps c w (libraries run c o) :=
  .lift fun _ _ => (Keeps.together hrun _).bind fun _ => .pure _

theorem Keeps.runtime (rootUrl : String) (o : CompilerOptions) :
    Keeps c w (runtime run c rootUrl o) := by
  unfold Build.runtime
  cases o.runtimeSource? with
  | none => exact .pure o
  | some source =>
    refine .lift fun url _ => (Keeps.modules hrun [url]).bind fun paths => ?_
    cases paths with
    | nil => exact .pure _
    | cons path paths => exact .pure _

end

/-- Nothing is told to be loaded when a configuration is read. -/
theorem loaded?_of_load {t : FileTree} {directory : String} {r : Option ProjectConfig × List Notice}
    (h : ProjectConfig.load t directory = .ok r) : ∀ n ∈ r.2, n.loaded? = none := by
  unfold ProjectConfig.load at h
  dsimp only at h
  split at h
  · split at h
    · cases h
      simp [Notice.loaded?]
    · cases h
      simp [Notice.loaded?]
    · cases h
  · cases h
    simp

theorem Keeps.settle {π : Type} (p : Plan π) (root rootUrl : String) :
    Keeps c w (p.settle root rootUrl) := by
  unfold Plan.settle
  refine Keeps.get.bind fun s => .lift fun entries _ => .lift fun r hr => ?_
  refine (Keeps.tell (loaded?_of_load hr)).bind fun _ => ?_
  cases r.1 with
  | none => exact .pure _
  | some config => exact fun s log h => ⟨log, by rwa [Action.run_liftM]⟩

end Build

/-- What a build goes by when it asks for libraries. -/
structure Opened where
  rootUrl : String
  settled : Settlement
  setting : Loading.Setting Fetch.World

/-- What a build goes by when it loads its entries. -/
structure Prepared where
  rootUrl : String
  /-- The URLs of the entry files. -/
  entries : List String
  setting : Loading.Setting Fetch.World
  options : CompilerOptions

namespace Plan

variable {π : Type}

/-- The build up to its libraries: everything is settled, and the store has the manifest. -/
def opened (p : Plan π) : Build Opened := do
  let root ← (FilePath.resolve p.root).mapError Fault.foreign
  let rootUrl := (← (FilePath.toUrl root).mapError Fault.foreign) ++ "/"
  let settled ← p.settle root rootUrl
  let c ← (p.setting settled.importMap : Except Fault _)
  let store ← ((← get).store.add Program.manifest.1 Program.manifest.2).mapError
    fun e => Fault.foreign e.toForeign
  modify fun s => { s with store := store }
  return ⟨rootUrl, settled, c⟩

/-- The build from its libraries to its entries. -/
def prepare (run : Runner) (q : Opened) : Build Prepared := do
  Build.libraries run q.setting q.settled.options
  let options ← Build.runtime run q.setting q.rootUrl q.settled.options
  return ⟨q.rootUrl, q.settled.entries, q.setting, options⟩

/-- The build up to its entries: their URLs, with libraries and the runtime of JSX loaded. -/
def prepared (run : Runner) (p : Plan π) : Build Prepared := do
  let root ← (FilePath.resolve p.root).mapError Fault.foreign
  let rootUrl := (← (FilePath.toUrl root).mapError Fault.foreign) ++ "/"
  let settled ← p.settle root rootUrl
  let c ← (p.setting settled.importMap : Except Fault _)
  let store ← ((← get).store.add Program.manifest.1 Program.manifest.2).mapError
    fun e => Fault.foreign e.toForeign
  modify fun s => { s with store := store }
  Build.libraries run c settled.options
  let options ← Build.runtime run c rootUrl settled.options
  return ⟨rootUrl, settled.entries, c, options⟩

/-- The rest of the build. -/
def finished (run : Runner) (p : Plan π) (q : Prepared) : Build (Program π) := do
  let rootNames ← Build.modules run q.setting q.entries
  let store := (← get).store
  Build.tell [Build.loadedNotice store.size rootNames.length]
  p.compile rootNames q.options ⟨store, q.rootUrl, p.libraryDir⟩

theorem prepared_eq (run : Runner) (p : Plan π) : p.prepared run = p.opened >>= prepare run := by
  simp only [prepared, opened, prepare, bind_assoc, pure_bind]

theorem buildWith_eq (run : Runner) (p : Plan π) :
    p.buildWith run = p.prepared run >>= p.finished run := by
  simp only [buildWith, prepared, finished, bind_assoc, pure_bind]

/-- What holds of loads holds when libraries are asked for. -/
theorem kept_of_opened {p : Plan π} {w : Fetch.World} {q : Opened} {s : State Fetch.World}
    (h : p.opened.run (.start w) = (.ok q, s)) : ∃ log, Kept q.setting w s log := by
  unfold opened at h
  simp only [Action.run_liftM_bind_eq_ok_iff] at h
  obtain ⟨root, -, rootUrl, -, h⟩ := h
  obtain ⟨settled, s₁, hsettle, h⟩ := Action.run_bind_eq_ok_iff.1 h
  simp only [Action.run_liftM_bind_eq_ok_iff, Action.run_get_bind, Action.run_modify_bind] at h
  obtain ⟨c, -, store, hadd, h⟩ := h
  cases h
  have hstart : Kept c w (.start w) [] :=
    ⟨Loading.chronicle_start c w,
      (Loading.Reached.start : Loading.Reached c w (fun _ => True) _ _).family⟩
  obtain ⟨log₁, h₁⟩ := Build.Keeps.settle p root (rootUrl ++ "/") _ _ hstart
  rw [hsettle] at h₁
  have h₂ := h₁.play [.add Program.manifest.1 Program.manifest.2]
  have hmove : s₁.play c [.add Program.manifest.1 Program.manifest.2] =
      { s₁ with store := store } := by
    change s₁.move c (.add Program.manifest.1 Program.manifest.2) = _
    cases ha : s₁.store.add Program.manifest.1 Program.manifest.2 with
    | error e =>
      rw [ha] at hadd
      cases hadd
    | ok store' =>
      rw [ha] at hadd
      cases hadd
      rw [State.move, ha]
  rw [hmove] at h₂
  exact ⟨_, h₂⟩

/-- What holds of loads holds when the entries are asked for. -/
theorem kept_of_prepared {run : Runner} (hrun : run.StartsInOrder) {p : Plan π} {w : Fetch.World}
    {q : Prepared} {s₀ : State Fetch.World}
    (h : (p.prepared run).run (.start w) = (.ok q, s₀)) : ∃ log, Kept q.setting w s₀ log := by
  rw [prepared_eq] at h
  obtain ⟨q₁, s₁, hopened, h⟩ := Action.run_bind_eq_ok_iff.1 h
  obtain ⟨log₁, h₁⟩ := kept_of_opened hopened
  obtain ⟨_, s₂, hlibraries, h⟩ := Action.run_bind_eq_ok_iff.1 h
  obtain ⟨options, s₃, hruntime, h⟩ := Action.run_bind_eq_ok_iff.1 h
  cases h
  obtain ⟨log₂, h₂⟩ := Build.Keeps.libraries hrun q₁.settled.options _ _ h₁
  rw [hlibraries] at h₂
  obtain ⟨log₃, h₃⟩ := Build.Keeps.runtime hrun q₁.rootUrl q₁.settled.options _ _ h₂
  rw [hruntime] at h₃
  exact ⟨log₃, h₃⟩

/-- The names and the host of a program are those that it was compiled with. -/
theorem compile_eq_ok {p : Plan π} {rootNames : List String} {options : CompilerOptions}
    {host : Host} {s s' : State Fetch.World} {program : Program π}
    (h : (p.compile rootNames options host).run s = (.ok program, s')) :
    program.rootNames = rootNames ∧ program.host = host := by
  unfold compile at h
  cases hf : p.frontend with
  | none =>
    rw [hf] at h
    cases h
    exact ⟨rfl, rfl⟩
  | some f =>
    rw [hf] at h
    obtain ⟨_, s₁, -, h⟩ := Action.run_bind_eq_ok_iff.1 h
    cases hr : (Diagnostic.report host (f.diagnostics (f.create rootNames options host))).2 with
    | some e =>
      rw [hr] at h
      cases h
    | none =>
      rw [hr] at h
      cases h
      exact ⟨rfl, rfl⟩

/-- The rest of a build runs the loads of the entries, and ends with the fault of the first that has
failed. -/
theorem finished_eq_error (run : Runner) (p : Plan π) (q : Prepared) (s₀ : State Fetch.World)
    {e : Fault} : let asked := s₀.ask none (q.entries.map fun u => .module u u)
    let s := run q.setting asked.2 asked.1
    s.failure? asked.2 = some e → (p.finished run q).run s₀ = (.error e, s) := by
  intro asked s he
  have hrun : (Build.together run q.setting (q.entries.map fun u => .module u u)).run s₀ =
      (.error e, s) := by
    change (s.results asked.2, s) = _
    rw [State.results, he]
  exact Action.run_bind_of_error (Action.run_bind_of_error hrun)

/-- If none has failed, it ends with a program of what was loaded, or with no program. -/
theorem finished_eq_ok {run : Runner} {p : Plan π} {q : Prepared} {s₀ s' : State Fetch.World}
    {program : Program π} (h : (p.finished run q).run s₀ = (.ok program, s')) :
    let asked := s₀.ask none (q.entries.map fun u => .module u u)
    let s := run q.setting asked.2 asked.1
    s.failure? asked.2 = none ∧ program.store = s.store ∧
      ∃ paths, s.results asked.2 = .ok paths ∧ program.rootNames = paths.filterMap id := by
  intro asked s
  obtain ⟨rootNames, s₁, hmodules, h⟩ := Action.run_bind_eq_ok_iff.1 h
  obtain ⟨paths, s₂, htogether, hnames⟩ := Action.run_bind_eq_ok_iff.1 hmodules
  have hresults : s.results asked.2 = .ok paths ∧ s₂ = s := by
    change (s.results asked.2, s) = (.ok paths, s₂) at htogether
    exact ⟨congrArg Prod.fst htogether, (congrArg Prod.snd htogether).symm⟩
  obtain ⟨hresults, rfl⟩ := hresults
  cases hnames
  rw [Action.run_get_bind] at h
  obtain ⟨_, s₃, -, h⟩ := Action.run_bind_eq_ok_iff.1 h
  obtain ⟨hroot, hhost⟩ := compile_eq_ok h
  refine ⟨?_, by rw [Program.store, hhost], paths, hresults, hroot⟩
  cases hf : s.failure? asked.2 with
  | none => rfl
  | some e =>
    rw [State.results, hf] at hresults
    cases hresults

/-- Where each of some tasks has the path of its URL, so have all of them. -/
theorem map_eq_of_loaded {f : String → Except Fault String} {g : Nat → Option String}
    {urls : List String} {m : Nat} {places : List Nat}
    (hplaces : places = List.range' m urls.length) (h : ∀ n url, urls[n]? = some url →
      ∃ path, f url = .ok path ∧ g (m + n) = some path) :
    urls.map f = ((places.map g).filterMap id).map .ok := by
  subst hplaces
  induction urls generalizing m with
  | nil => rfl
  | cons url urls ih =>
    obtain ⟨path, hf, hg⟩ := h 0 url rfl
    have hrest := ih (m := m + 1) fun n u hn => by
      rw [Nat.add_assoc, Nat.add_comm 1 n]
      exact h (n + 1) u hn
    rw [Nat.add_zero] at hg
    rw [List.map_cons, hf, hrest, List.length_cons, List.range'_succ, List.map_cons, hg]
    rfl

/-- Where the load of each module has ended with its path, the results are the paths. -/
theorem names_of_results {s : State Fetch.World} {urls : List String} {m : Nat} {places : List Nat}
    (hplaces : places = List.range' m urls.length) {paths : List (Option String)}
    (hresults : s.results places = .ok paths) (h : ∀ n url, urls[n]? = some url →
      ∃ path, virtualPath url = .ok path ∧ s.outcome? (m + n) = some (.loaded path)) :
    urls.map virtualPath = (paths.filterMap id).map .ok := by
  unfold State.results at hresults
  split at hresults
  · cases hresults
  · cases hresults
    refine map_eq_of_loaded hplaces fun n url hn => ?_
    obtain ⟨path, hpath, ho⟩ := h n url hn
    exact ⟨path, hpath, by rw [ho]⟩

theorem exists_url_of_name {urls names : List String}
    (hmap : urls.map virtualPath = names.map .ok) {path : String} (hpath : path ∈ names) :
    ∃ (n : Nat) (url : String), urls[n]? = some url ∧ virtualPath url = .ok path := by
  have hmem : .ok path ∈ urls.map virtualPath := hmap ▸ List.mem_map_of_mem hpath
  obtain ⟨url, hurl, hpath'⟩ := List.mem_map.1 hmem
  obtain ⟨n, hn⟩ := List.mem_iff_getElem?.1 hurl
  exact ⟨n, url, hn, hpath'⟩

/-- **main theorem**: what has become of the entries when their loads have ended. A program has the
paths of all of them, and each path has its text, unless an earlier load had reserved it in vain when
the entries began. An entry whose path was free then, and is not settled in the end, ends the build
with the fault of an entry. -/
theorem entry_settled_or_reserved {run : Runner} (hrun : run.StartsInOrder) {p : Plan π}
    {w : Fetch.World} {q : Prepared} {s₀ : State Fetch.World}
    (h : (p.prepared run).run (.start w) = (.ok q, s₀)) :
    let asked := s₀.ask none (q.entries.map fun u => .module u u)
    let s := run q.setting asked.2 asked.1
    ∃ older, (∀ i ∈ older, i < s₀.tasks.length) ∧
      let s₁ := asked.1.follow q.setting older
      ((s.failure? asked.2).isSome = true ∨ s.allFinished asked.2 = true) →
        (∀ program s', (p.buildWith run).run (.start w) = (.ok program, s') →
          program.store = s.store ∧ q.entries.map virtualPath = program.rootNames.map .ok ∧
          ∀ path ∈ program.rootNames, program.store.isSettled path = true ∨
            s₁.store.text? path = some none) ∧
        ∀ url ∈ q.entries, (∀ path, virtualPath url = .ok path →
            s₁.store.contains path = false ∧ s.store.isSettled path = false) →
          ∃ url' ∈ q.entries, ∃ cause,
            ((p.buildWith run).run (.start w)).1 = .error (.module url' cause) := by
  intro asked s
  obtain ⟨log, hkept⟩ := kept_of_prepared hrun h
  obtain ⟨older, later, holder, heq⟩ :=
    hrun q.setting s₀ (q.entries.map fun u => .module u u)
  refine ⟨older, holder, ?_⟩
  intro s₁ hended
  have hs : s = s₁.follow q.setting (asked.2 ++ later) := by
    rw [← State.follow_append]
    exact heq
  have hbuild : (p.buildWith run).run (.start w) = (p.finished run q).run s₀ := by
    rw [buildWith_eq]
    exact Action.run_bind_of_ok h
  have hloaded : s.failure? asked.2 = none → ∀ n url, q.entries[n]? = some url →
      ∃ path, virtualPath url = .ok path ∧
        s.outcome? (s₀.tasks.length + n) = some (.loaded path) ∧
        (s.store.isSettled path = true ∨ s₁.store.text? path = some none) := by
    intro hok n url hn
    have hall : s.allFinished asked.2 = true := by
      refine hended.resolve_left ?_
      rw [hok]
      simp
    obtain ⟨path, hpath, ho, hsettled⟩ :=
      hkept.settled_or_reserved rfl rfl hs hok hall hn
    exact ⟨path, hpath, ho, hsettled.imp_left (s.store.isSettled_iff path).2⟩
  constructor
  · intro program s' hprogram
    rw [hbuild] at hprogram
    obtain ⟨hok, hstore, paths, hresults, hnames⟩ := finished_eq_ok hprogram
    have hmap : q.entries.map virtualPath = program.rootNames.map .ok := by
      rw [hnames]
      refine names_of_results (m := s₀.tasks.length) (by simp [State.ask]) hresults ?_
      intro n url hn
      obtain ⟨path, hpath, ho, -⟩ := hloaded hok n url hn
      exact ⟨path, hpath, ho⟩
    refine ⟨hstore, hmap, fun path hpath => ?_⟩
    obtain ⟨n, url, hn, hpath'⟩ := exists_url_of_name hmap hpath
    obtain ⟨path', hpath'', -, hend⟩ := hloaded hok n url hn
    rw [hpath', Except.ok.injEq] at hpath''
    rw [hstore, hpath'']
    exact hend
  · intro url hurl hbroken
    obtain ⟨n, hn⟩ := List.mem_iff_getElem?.1 hurl
    cases hf : s.failure? asked.2 with
    | none =>
      obtain ⟨path, hpath, -, hend⟩ := hloaded hf n url hn
      obtain ⟨hfree, hopen⟩ := hbroken path hpath
      rcases hend with hsettled | hreserved
      · rw [hsettled] at hopen
        cases hopen
      · rw [ModuleStore.contains_of_text? hreserved] at hfree
        cases hfree
    | some e =>
      obtain ⟨url', hurl', cause, rfl⟩ := hkept.fault_of_failed rfl heq hf
      exact ⟨url', hurl', cause, by rw [hbuild, finished_eq_error run p q s₀ hf]⟩

/-- The program of a build, if the loads of its entries have ended. -/
def endedProgram? (p : Plan π) (w : Fetch.World) : Option (Program π) :=
  match (p.prepared State.run).run (.start w) with
  | (.error _, _) => none
  | (.ok q, s₀) =>
    let asked := s₀.ask none (q.entries.map fun u => .module u u)
    if (State.run q.setting asked.2 asked.1).allFinished asked.2 then
      ((p.finished State.run q).run s₀).1.toOption
    else none

theorem exists_of_endedProgram? {p : Plan π} {w : Fetch.World} {program : Program π}
    (h : p.endedProgram? w = some program) : ∃ q s₀ s,
      (p.prepared State.run).run (.start w) = (.ok q, s₀) ∧
      (let asked := s₀.ask none (q.entries.map fun u => .module u u);
        (State.run q.setting asked.2 asked.1).allFinished asked.2 = true) ∧
      p.build w = (.ok program, s) := by
  unfold endedProgram? at h
  rcases hprepared : (p.prepared State.run).run (.start w) with ⟨r, s₀⟩
  rw [hprepared] at h
  cases r with
  | error e => cases h
  | ok q =>
    dsimp only at h
    split_ifs at h with hended
    rcases hfinished : (p.finished State.run q).run s₀ with ⟨r, s⟩
    rw [hfinished] at h
    cases r with
    | error e => cases h
    | ok program' =>
      obtain rfl : program' = program := Option.some.inj h
      refine ⟨q, s₀, s, rfl, hended, ?_⟩
      rw [build, buildWith_eq, Action.run_bind_of_ok hprepared, hfinished]

/-! ## An entry without a text -/

/-- A plan for the project in `/proj`, which is the source of its own JSX runtime. -/
def ownRuntime : Plan Unit where
  root := "/proj"
  entryGlob := defaultEntryGlob
  importMap := .empty
  overrides := .ofList [("lib", .arr []), ("jsxImportSource", .str "./jsx")]
  libraryDir := defaultLibraryDir
  bundledDir := "/bundled"
  cache := .inDirectory "/cache"
  frontend := none

/-- The project has one entry file, which is no text. The runtime imports it. -/
def unreadableEntry : Fetch.World where
  files := ⟨[(["proj".toList], .directory), (["proj".toList, "main.ts".toList], .file [0xff]),
    (["proj".toList, "jsx".toList], .directory),
    (["proj".toList, "jsx".toList, "jsx-runtime".toList],
      .file (Utf8.encode "import \"../main.ts\";\n"))], []⟩
  routes := []
  now := 0
  requests := []
  log := []

set_option maxRecDepth 100000 in
/-- The load of the runtime reserves the path of the entry file, which it cannot read. The load of
the entry is answered from the reservation, and the build goes on. -/
theorem build_ownRuntime : ∃ q s₀ program s,
    (ownRuntime.prepared State.run).run (.start unreadableEntry) = (.ok q, s₀) ∧
    (let asked := s₀.ask none (q.entries.map fun u => .module u u);
      (State.run q.setting asked.2 asked.1).allFinished asked.2 = true) ∧
    ownRuntime.build unreadableEntry = (.ok program, s) ∧
    program.rootNames = ["/proj/main.ts"] ∧
    program.store.text? "/proj/main.ts" = some none := by
  have h : ((ownRuntime.endedProgram? unreadableEntry).map fun program =>
      (program.rootNames, program.store.text? "/proj/main.ts")) =
      some (["/proj/main.ts"], some none) := by decide +kernel
  obtain ⟨program, hprogram, hfound⟩ := Option.map_eq_some_iff.1 h
  obtain ⟨hnames, htext⟩ := Prod.mk.inj hfound
  obtain ⟨q, s₀, s, hprepared, hended, hbuild⟩ := exists_of_endedProgram? hprogram
  exact ⟨q, s₀, program, s, hprepared, hended, hbuild, hnames, htext⟩

/-- A program may have a root file that is not settled. -/
theorem build_without_entry : ¬ ∀ (p : Plan Unit) w program s, p.build w = (.ok program, s) →
    ∀ path ∈ program.rootNames, program.store.isSettled path = true := by
  intro hall
  obtain ⟨-, -, program, s, -, -, hbuild, hnames, htext⟩ := build_ownRuntime
  have hsettled := hall ownRuntime unreadableEntry program s hbuild "/proj/main.ts"
    (hnames ▸ List.mem_singleton.2 rfl)
  obtain ⟨text, h⟩ := (program.store.isSettled_iff _).1 hsettled
  rw [htext] at h
  cases h

theorem entry_settled_or_reserved_ownRuntime : ∃ q s₀ program s',
    (ownRuntime.prepared State.run).run (.start unreadableEntry) = (.ok q, s₀) ∧
      ownRuntime.build unreadableEntry = (.ok program, s') ∧
      program.rootNames = ["/proj/main.ts"] ∧
      let asked := s₀.ask none (q.entries.map fun u => .module u u)
      ∃ older, (∀ i ∈ older, i < s₀.tasks.length) ∧
        ∀ path ∈ program.rootNames, program.store.isSettled path = true ∨
          (asked.1.follow q.setting older).store.text? path = some none := by
  obtain ⟨q, s₀, program, s', h, hended, hbuild, hnames, -⟩ := build_ownRuntime
  obtain ⟨older, holder, hall⟩ := entry_settled_or_reserved startsInOrder_run h
  exact ⟨q, s₀, program, s', h, hbuild, hnames, older, holder,
    ((hall (.inr hended)).1 program s' hbuild).2.2⟩

end Plan

end ModuleGraph
