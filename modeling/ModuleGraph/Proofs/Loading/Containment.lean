import ModuleGraph.Proofs.Loading.Confluence
import ModuleGraph.Proofs.Loading.Progress
/-!
# Containment of failures

A module that cannot be fetched costs its importers nothing. If a graph of modules loads when every
fetch succeeds, then whichever fetches fail, the load of the entry comes to an end with the entry's
path, and every module is loaded that can still be reached and fetched. Whatever goes wrong, the
fault of a load names the URL that was asked for.

Results:
* `LoadsAll.plans`: the plans of the files do not depend on the fetches that fail;
* `module_of_failed`: the only fault that leaves the load of a module;
* `failure_contained`: **main theorem**: no failure of a fetch reaches the importer.
-/

namespace ModuleGraph

/-- The request is for a module, not for a library. -/
def Request.isModule : Request → Bool
  | .module _ => true
  | .library _ => false

namespace Loading

variable {σ : Type}

/-- The same setting where every fetch succeeds. -/
def Setting.serving (c : Setting σ) (sources : String → Fetch.Source) : Setting σ :=
  { c with fetch := fun url w => (.ok (sources url), w) }

/-- The modules that can be reached from the entry are among `urls`, ask for no library and have
paths of their own, and in some run where every fetch succeeds all of them are loaded. -/
structure LoadsAll (c : Setting σ) (sources : String → Fetch.Source) (entry : String)
    (urls : List String) : Prop where
  finite : ∀ url, (c.graph fun url => .ok (sources url)).Reach [entry] url → url ∈ urls
  libraryFree : ∀ url path name, (c.graph fun url => .ok (sources url)).Reach [entry] url →
    virtualPath url = .ok path → ¬ Rewrite.Asks path (sources url).text (.library name)
  apart : (c.graph fun url => .ok (sources url)).Apart [entry]
  loads : ∃ (world : σ) (moves : List Move), (∀ m ∈ moves, m.AsksFor [entry]) ∧
    (c.serving sources).Loaded (fun url => .ok (sources url)) [entry]
      ((State.start world).play (c.serving sources) moves)

/-- What can be reached through some of the texts can be reached through all of them. -/
theorem Graph.Reach.mono {c : Setting σ} {fetch fetch' : String → Except Fault Fetch.Source}
    {entries : List String} (hsub : ∀ url source, fetch url = .ok source → fetch' url = .ok source)
    {url : String} (h : (c.graph fetch).Reach entries url) :
    (c.graph fetch').Reach entries url := by
  induction h with
  | entry h => exact .entry h
  | @named url next path source r h hp hf hr hn ih =>
    exact .named (r := r) ih hp (hsub url source hf) hr hn

namespace LoadsAll

variable {c : Setting σ} {sources : String → Fetch.Source}
  {fetch : String → Except Fault Fetch.Source} {entry : String} {urls : List String}

theorem reach (hsub : ∀ url source, fetch url = .ok source → source = sources url) {url : String}
    (hreach : (c.graph fetch).Reach [entry] url) :
    (c.graph fun url => .ok (sources url)).Reach [entry] url :=
  hreach.mono fun url source hf => by rw [hsub url source hf]

theorem hasLibraries (h : LoadsAll c sources entry urls)
    (hsub : ∀ url source, fetch url = .ok source → source = sources url) :
    (c.graph fetch).HasLibraries [entry] := by
  intro u path source name url file hreach hp hf hr
  rw [hsub u source hf] at hr
  exact absurd hr (h.libraryFree u path name (reach hsub hreach) hp)

/-- The plans of the files do not depend on the fetches that fail. -/
theorem plans (h : LoadsAll c sources entry urls)
    (hsub : ∀ url source, fetch url = .ok source → source = sources url) :
    c.Plans fetch [entry] := by
  obtain ⟨world, moves, hmoves, hloaded⟩ := h.loads
  have hlib : ((c.serving sources).graph fun url => .ok (sources url)).HasLibraries [entry] :=
    fun _ _ _ _ url _ _ _ _ _ _ _ => ⟨sources url, rfl⟩
  have hrun : Run (c.serving sources) (fun url => .ok (sources url)) [entry] world _ _ :=
    ⟨(reached_play (c.serving sources) world hmoves).mono fun _ => Move.AsksFor.opens,
      fun _ _ => rfl, hlib⟩
  have hplans := hrun.plans hloaded h.apart
  intro url path source hreach hp hf
  exact hplans url path source (reach hsub hreach) hp (by rw [hsub url source hf])

end LoadsAll

/-- The only fault that leaves the load of a module names the URL that was asked for. -/
theorem Chronicle.module_of_failed {c : Setting σ} {world : σ} {s : State σ} {log : List Deed}
    (h : Chronicle c world s log) {j : Nat} {t : Task} {url asUrl : String} {e : Fault}
    (ht : s.tasks[j]? = some t) (hd : t.demand = .module url asUrl)
    (he : t.phase = .finished (.failed e)) : ∃ cause, e = .module url cause := by
  have hstory := h.stories j t ht
  rw [hd, he] at hstory
  have hurl : ∀ {k urls}, (Demand.module url asUrl).aim c = .ok (k, urls) → k.url = url := fun ha =>
    ((aimAt_eq_ok_iff ..).1 ha).1
  have hyields : ∀ {path}, ¬ (Demand.module url asUrl).Yields path (.failed e) := by
    rintro path (h | ⟨⟨_, _, h⟩, -⟩)
    · cases h
    · cases h
  generalize own j log = l at hstory
  generalize ho : Phase.finished (.failed e) = p at hstory
  cases hstory with
  | ready => cases ho
  | fetching ha hurls hs => cases ho
  | rewriting ha hs => cases ho
  | @refused e' ha =>
    simp only [Demand.verdict, Phase.finished.injEq, Outcome.failed.injEq] at ho
    obtain ⟨cause, -, rfl⟩ := (aimAt_eq_error_iff ..).1 ha
    exact ⟨cause, ho⟩
  | answered ha hs hy =>
    cases ho
    exact absurd hy hyields
  | lost ha htried hs =>
    simp only [Demand.verdict, Phase.finished.injEq, Outcome.failed.injEq] at ho
    exact ⟨_, hurl ha ▸ ho⟩
  | dropped ha hs =>
    simp only [Demand.verdict, Phase.finished.injEq, Outcome.failed.injEq] at ho
    exact ⟨_, hurl ha ▸ ho⟩
  | settled ha hs hy =>
    cases ho
    exact absurd hy hyields

/-- A load from outside ends with its path if the module can be fetched. -/
theorem Run.loaded_of_root {c : Setting σ} {fetch : String → Except Fault Fetch.Source}
    {entries : List String} {world : σ} {s : State σ} {log : List Deed}
    (h : Run c fetch entries world s log) (hs : s.Unraised log) {j : Nat} {t : Task} {o : Outcome}
    {url path : String} {source : Fetch.Source} (ht : s.tasks[j]? = some t)
    (hd : t.demand = .module url url) (ho : t.phase = .finished o)
    (hp : virtualPath url = .ok path) (hf : fetch url = .ok source) : o = .loaded path := by
  have ha : t.demand.aim c = .ok (⟨url, path⟩, [url]) := by
    rw [hd]
    exact (aimAt_eq_ok_iff ..).2 ⟨rfl, hp, rfl⟩
  have hyields : ∀ {p}, t.demand.Yields p o → p = path → o = .loaded path := by
    rintro p (h | ⟨⟨_, _, h⟩, -⟩) rfl
    · exact h
    · rw [hd] at h
      cases h
  have hclaimed : ∀ {k urls}, .claimed j k urls ∈ log → t.demand.aim c = .ok (k, urls) →
      o = .loaded path := by
    intro k urls hk ha'
    rw [ha, Except.ok.injEq, Prod.mk.injEq] at ha'
    obtain ⟨rfl, rfl⟩ := ha'
    obtain ⟨text, hfilled⟩ := hs j t o path source (h.drafted_of_finished hk ht ho hf) ht ho
    obtain ⟨t', o', ht', ho', hy⟩ := h.chronicle.finished_of_filled hfilled
    rw [ht, Option.some.injEq] at ht'
    subst ht'
    rw [ho, Phase.finished.injEq] at ho'
    exact hyields (ho' ▸ hy) rfl
  have hstory := h.chronicle.stories j t ht
  have hmem : ∀ {x}, x ∈ own j log → x ∈ log := fun hx => (mem_own.1 hx).1
  rw [ho] at hstory
  generalize own j log = l at hstory hmem
  cases hstory with
  | refused ha' =>
    rw [ha] at ha'
    cases ha'
  | answered ha' _ hy =>
    rw [ha, Except.ok.injEq, Prod.mk.injEq] at ha'
    exact hyields hy (by rw [← ha'.1])
  | lost ha' _ _ => exact hclaimed (hmem List.mem_cons_self) ha'
  | dropped ha' _ => exact hclaimed (hmem List.mem_cons_self) ha'
  | settled ha' _ _ => exact hclaimed (hmem List.mem_cons_self) ha'

/-! ## The load of one module -/

/-- The state in which the module at `url` is asked for, and nothing else has been. -/
def State.entering (world : σ) (url : String) : State σ :=
  ((State.start world).ask none [.module url url]).1

/-- The first task is the only one that was asked for from outside. -/
theorem State.tasks_of_entering (c : Setting σ) (world : σ) (url : String) (places : List Nat) :
    ∃ t rest, ((State.entering world url).follow c places).tasks = t :: rest ∧
      t.demand = .module url url ∧ t.parent = none ∧ ∀ u ∈ rest, u.parent ≠ none := by
  obtain ⟨new, hparents, hnew⟩ := (State.entering world url).parents_follow c places
  have hfirst : (State.entering world url).tasks[0]? = some ⟨none, .module url url, .ready⟩ := rfl
  obtain ⟨t, ht, hd⟩ := (State.entering world url).persists_play c (places.map .step) hfirst
  rw [← State.follow_eq_play] at ht
  generalize ((State.entering world url).follow c places).tasks = tasks at hparents ht
  cases tasks with
  | nil => cases ht
  | cons t' rest =>
    rw [List.getElem?_cons_zero, Option.some.injEq] at ht
    subst ht
    have hcons : t'.parent :: rest.map Task.parent = none :: new := hparents
    rw [List.cons.injEq] at hcons
    refine ⟨t', rest, rfl, hd, hcons.1, fun u hu hnone => hnew ?_⟩
    rw [← hcons.2, ← hnone]
    exact List.mem_map_of_mem hu

namespace LoadsAll

variable {c : Setting σ} {sources : String → Fetch.Source}
  {fetch : String → Except Fault Fetch.Source} {entry : String} {urls : List String}

/-- Any schedule of the load of the entry is a run over the graph. -/
theorem run (h : LoadsAll c sources entry urls) (hanswers : c.Answers fetch)
    (hsub : ∀ url source, fetch url = .ok source → source = sources url) (world : σ)
    (places : List Nat) : Run c fetch [entry] world ((State.entering world entry).follow c places)
      ((State.start world).log c (.ask (.module entry entry) :: places.map .step)) := by
  refine ⟨?_, hanswers, h.hasLibraries hsub⟩
  have hmoves : ∀ m ∈ Move.ask (.module entry entry) :: places.map Move.step,
      m.AsksFor [entry] := by
    intro m hm
    rcases List.mem_cons.1 hm with rfl | hm
    · exact ⟨entry, List.mem_singleton_self _, rfl⟩
    · obtain ⟨i, -, rfl⟩ := List.mem_map.1 hm
      exact trivial
  have hreached := reached_play c world hmoves
  rw [State.follow_eq_play]
  exact hreached.mono fun _ => Move.AsksFor.opens

/-- Every schedule comes to an end. -/
theorem length_wakes_le (h : LoadsAll c sources entry urls) (hanswers : c.Answers fetch)
    (hsub : ∀ url source, fetch url = .ok source → source = sources url) (world : σ)
    (places : List Nat) : ((State.entering world entry).wakes c places).length ≤
      5 * (1 + ∑ url ∈ urls.toFinset, (c.graph fetch).weight url) := by
  have hrun := h.run hanswers hsub world places
  obtain ⟨t, rest, htasks, -, hp, hrest⟩ := State.tasks_of_entering c world entry places
  have hfirst : ∀ i, (State.entering world entry).left i ≤ 5 := by
    intro i
    apply State.left_le _
    intro k us errors hphase
    obtain ⟨u, hu, hfetching⟩ := State.tasks_of_phase? hphase
    have hready : u = ⟨none, .module entry entry, .ready⟩ :=
      List.mem_singleton.1 (List.mem_of_getElem? hu)
    rw [hready] at hfetching
    cases hfetching
  have hroots : (((State.entering world entry).follow c places).tasks.map Task.parent).count none =
      1 := by
    rw [htasks, List.map_cons, hp, List.count_cons_self, List.count_eq_zero.2]
    intro hmem
    obtain ⟨u, hu, hnone⟩ := List.mem_map.1 hmem
    exact hrest u hu hnone
  have hlength := hrun.length_tasks_le (h.plans hsub) fun url hreach =>
    h.finite url (reach hsub hreach)
  rw [hroots] at hlength
  exact Nat.le_trans (State.length_wakes_le c _ places hfirst) (Nat.mul_le_mul_left 5 hlength)

/-- Once the load of the entry has ended, it has ended with the entry's path, and every module has
its text that can still be reached and fetched. -/
theorem loaded (h : LoadsAll c sources entry urls) (hanswers : c.Answers fetch)
    (hsub : ∀ url source, fetch url = .ok source → source = sources url) {path : String}
    (hentry : fetch entry = .ok (sources entry)) (hpath : virtualPath entry = .ok path) (world : σ)
    (places : List Nat) :
    let s := (State.entering world entry).follow c places
    (s.outcome? 0).isSome = true → s.results [0] = .ok [some path] ∧
      ∀ url p source, (c.graph fetch).Reach [entry] url → virtualPath url = .ok p →
        fetch url = .ok source → s.IsSettled p := by
  intro s hended
  have hrun : Run c fetch [entry] world s _ := h.run hanswers hsub world places
  have hs := (hrun.calm (h.plans hsub)).unraised
  have hapart : (c.graph fetch).Apart [entry] := fun u v p hu hv =>
    h.apart u v p (reach hsub hu) (reach hsub hv)
  obtain ⟨t, rest, htasks, hd, hp, hrest⟩ := State.tasks_of_entering c world entry places
  have ht : s.tasks[0]? = some t := by
    rw [htasks]
    rfl
  obtain ⟨o, ho⟩ : ∃ o, t.phase = .finished o := by
    rw [← t.isSome_outcome?_iff]
    rwa [State.outcome?, ht] at hended
  have hroots : s.RootsFinished := by
    intro u hu hnone
    rw [htasks] at hu
    rcases List.mem_cons.1 hu with rfl | hu
    · exact u.isSome_outcome?_iff.2 ⟨o, ho⟩
    · exact absurd hnone (hrest u hu)
  have hasked : s.HasAsked [entry] := by
    intro url hurl
    rw [List.mem_singleton.1 hurl]
    exact ⟨0, t, ht, hd⟩
  constructor
  · have houtcome : s.outcome? 0 = some (.loaded path) := by
      rw [State.outcome?, ht, Option.bind_some, Task.outcome?, ho,
        hrun.loaded_of_root hs ht hd ho hpath hentry]
    simp [State.results, State.failure?, houtcome]
  · intro url p source hreach hp hf
    exact hrun.settled_of_reach hapart hs (hrun.finished hs hroots) (hasked.seeks c) hreach hp hf

end LoadsAll

/-- **main theorem**: in a graph that loads when every fetch succeeds, whichever fetches fail but
that of the entry, every schedule comes to an end, and at its end the load of the entry has. It has
ended with the entry's path then, and every module has its text that can still be reached and
fetched. Over any graph, the only fault that leaves the load of a module names the URL that was
asked for. -/
theorem failure_contained (c : Setting σ) (world : σ) :
    (∀ (sources : String → Fetch.Source) (fetch : String → Except Fault Fetch.Source)
      (entry path : String) (urls : List String), c.Answers fetch →
      (∀ url source, fetch url = .ok source → source = sources url) →
      fetch entry = .ok (sources entry) → virtualPath entry = .ok path →
      LoadsAll c sources entry urls → ∃ bound, ∀ places : List Nat,
        let s := (State.entering world entry).follow c places
        ((State.entering world entry).wakes c places).length ≤ bound ∧
          (s.isQuiet = true → (s.outcome? 0).isSome = true) ∧
          ((s.outcome? 0).isSome = true → s.results [0] = .ok [some path] ∧ s.IsSettled path ∧
            ∀ url p source, (c.graph fetch).Reach [entry] url → virtualPath url = .ok p →
              fetch url = .ok source → s.IsSettled p)) ∧
    ∀ (moves : List Move) (j : Nat) (t : Task) (url asUrl : String) (e : Fault),
      ((State.start world).play c moves).tasks[j]? = some t → t.demand = .module url asUrl →
      t.phase = .finished (.failed e) → ∃ cause, e = .module url cause := by
  constructor
  · intro sources fetch entry path urls hanswers hsub hentry hpath hall
    refine ⟨5 * (1 + ∑ url ∈ urls.toFinset, (c.graph fetch).weight url), fun places => ?_⟩
    intro s
    refine ⟨hall.length_wakes_le hanswers hsub world places, fun hquiet => ?_, fun hended => ?_⟩
    · have hrun : Run c fetch [entry] world s _ := hall.run hanswers hsub world places
      obtain ⟨t, rest, htasks, -⟩ := State.tasks_of_entering c world entry places
      have ht : s.tasks[0]? = some t := by
        rw [htasks]
        rfl
      rw [State.outcome?, ht, Option.bind_some, t.isSome_outcome?_iff]
      exact hrun.reached.finished_of_isQuiet hquiet 0 t ht
    · obtain ⟨hresults, hsettled⟩ :=
        hall.loaded hanswers hsub hentry hpath world places hended
      exact ⟨hresults, hsettled entry path (sources entry)
        (.entry (List.mem_singleton_self entry)) hpath hentry, hsettled⟩
  · intro moves j t url asUrl e ht hd he
    have hreached : Reached c world (fun _ => True) ((State.start world).play c moves)
        ((State.start world).log c moves) := reached_play c world fun _ _ => trivial
    exact hreached.chronicle.module_of_failed ht hd he

/-- A file that names another one, which names a module that nobody has. -/
def chainGone : Setting Unit :=
  .ofTexts [("file:///a.ts", "import \"./b.ts\";"), ("file:///b.ts", "import \"./gone.ts\";")]

def chainGoneFetch (url : String) : Except Fault Fetch.Source := (chainGone.fetch url ()).1

/-- The files are there, and every other module would be empty. -/
def chainGoneSources (url : String) : Fetch.Source :=
  match chainGoneFetch url with
  | .ok source => source
  | .error _ => ⟨"", url, .empty⟩

def chainGoneUrls : List String := ["file:///a.ts", "file:///b.ts", "file:///gone.ts"]

/-- Every module is loaded by the one that names it. -/
def chainGoneMoves : List Move :=
  .ask (.module "file:///a.ts" "file:///a.ts") :: [0, 0, 0, 1, 1, 1, 2, 2, 2, 2, 1, 0].map .step

set_option maxRecDepth 100000 in
theorem loadsAll_chainGone :
    LoadsAll chainGone chainGoneSources "file:///a.ts" chainGoneUrls := by
  have hclosed : (chainGone.graph fun url => .ok (chainGoneSources url)).isClosed chainGoneUrls =
      true := by decide +kernel
  have hmem : ∀ {url}, (chainGone.graph fun url => .ok (chainGoneSources url)).Reach
      ["file:///a.ts"] url → url ∈ chainGoneUrls := fun h =>
    h.mem hclosed (by decide)
  have hmodules : ∀ url ∈ chainGoneUrls, (virtualPath url).toOption.all (fun path =>
      (Rewrite.requests path (chainGoneSources url).text).toOption.any fun rs =>
        rs.all Request.isModule) = true := by decide +kernel
  have hpaths : ∀ u ∈ chainGoneUrls, ∀ v ∈ chainGoneUrls,
      virtualPath u = virtualPath v → u = v := by decide +kernel
  have hasks : ∀ m ∈ chainGoneMoves, m.AsksFor ["file:///a.ts"] := by decide +kernel
  have hsettled : ∀ url ∈ chainGoneUrls, (virtualPath url).toOption.all
      ((State.start ()).play (chainGone.serving chainGoneSources) chainGoneMoves).store.isSettled =
        true := by decide +kernel
  refine ⟨fun url => hmem, fun url path name hreach hp hr => ?_, fun u v path hu hv hp hp' => ?_,
    (), chainGoneMoves, hasks, fun url path hreach hp => ?_⟩
  · have hurl := hmodules url (hmem hreach)
    rw [hp, Except.toOption, Option.all_some] at hurl
    cases hrs : Rewrite.requests path (chainGoneSources url).text with
    | error m =>
      rw [hrs] at hurl
      cases hurl
    | ok rs =>
      have hall : rs.all Request.isModule = true := by
        rw [hrs] at hurl
        exact hurl
      cases List.all_eq_true.1 hall _ ((Rewrite.asks_iff_of_requests hrs _).1 hr)
  · exact hpaths u (hmem hu) v (hmem hv) (hp.trans hp'.symm)
  · have hurl := hsettled url (hmem hreach)
    generalize (State.start ()).play (chainGone.serving chainGoneSources) chainGoneMoves = s
      at hurl ⊢
    rw [hp] at hurl
    exact (s.store.isSettled_iff path).1 hurl

set_option maxRecDepth 100000 in
/-- The files load although nobody has the last module; the load of that module fails. -/
theorem failure_contained_chainGone :
    (∃ bound, ∀ places : List Nat,
      let s := (State.entering () "file:///a.ts").follow chainGone places
      ((State.entering () "file:///a.ts").wakes chainGone places).length ≤ bound ∧
        (s.isQuiet = true → (s.outcome? 0).isSome = true) ∧
        ((s.outcome? 0).isSome = true → s.results [0] = .ok [some "/a.ts"] ∧
          s.IsSettled "/a.ts" ∧
          ∀ url p source, (chainGone.graph chainGoneFetch).Reach ["file:///a.ts"] url →
            virtualPath url = .ok p → chainGoneFetch url = .ok source → s.IsSettled p)) ∧
    ∃ t e cause, ((State.start ()).play chainGone
        (.ask (.module "file:///gone.ts" "file:///gone.ts") :: [0, 0].map .step)).tasks[0]? =
          some t ∧ t.phase = .finished (.failed e) ∧ e = .module "file:///gone.ts" cause := by
  have hsub : ∀ url source, chainGoneFetch url = .ok source → source = chainGoneSources url := by
    intro url source h
    rw [chainGoneSources, h]
  refine ⟨(failure_contained chainGone ()).1 chainGoneSources chainGoneFetch "file:///a.ts" "/a.ts"
    chainGoneUrls (fun url w => rfl) hsub ?_ ?_ loadsAll_chainGone, ?_⟩
  · have hok : (chainGoneFetch "file:///a.ts").toOption.isSome = true := by decide +kernel
    cases h : chainGoneFetch "file:///a.ts" with
    | ok source => rw [hsub _ source h]
    | error e =>
      rw [h] at hok
      cases hok
  · decide +kernel
  · generalize hs : (State.start ()).play chainGone
      (.ask (.module "file:///gone.ts" "file:///gone.ts") :: [0, 0].map .step) = s
    have hdemand : (s.tasks[0]?.map Task.demand) =
        some (.module "file:///gone.ts" "file:///gone.ts") := by
      rw [← hs]
      decide +kernel
    have hfailed : (s.failure? [0]).isSome = true := by
      rw [← hs]
      decide +kernel
    obtain ⟨t, ht, hd⟩ := Option.map_eq_some_iff.1 hdemand
    obtain ⟨e, he⟩ := Option.isSome_iff_exists.1 hfailed
    obtain ⟨i, hi, t', ht', hphase⟩ := State.failed_of_failure? he
    rw [List.mem_singleton.1 hi, ht, Option.some.injEq] at ht'
    subst ht'
    subst hs
    obtain ⟨cause, hcause⟩ := (failure_contained chainGone ()).2 _ 0 t _ _ e ht hd hphase
    exact ⟨t, e, cause, ht, hphase, hcause⟩

end Loading

end ModuleGraph
