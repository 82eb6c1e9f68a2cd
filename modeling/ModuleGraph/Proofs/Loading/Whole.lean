import ModuleGraph.Proofs.Loading.Confluence
/-!
# Runs over a whole graph

Where every reachable module can be fetched, no task has to fall back on another URL. From outside a
run may be asked for libraries as well as for modules, and files may be added to it. All such runs
that are asked for the same and have come to an end have the same store.

Results:
* `Run.claim_of_fetching`: a task fetches the URL that it has claimed a path for;
* `Run.unfailing`: what was asked for from outside does not fail;
* `Covers.complete`: what a run shows of the graph in which no file was given up;
* `Covers.text?_eq`: **main theorem**: every complete run has the same store.
-/

namespace ModuleGraph.Loading

variable {σ : Type}

/-! ## What is asked for from outside -/

namespace Demand

/-- A module that is asked for under its own path, or a library. -/
inductive IsRoot : Demand → Prop
  | module (url : String) : IsRoot (.module url url)
  | library (name : String) : IsRoot (.library name)

/-- The URL that a demand from outside is after, if it is after any. -/
def url? (libraryDir : String) : Demand → Option String
  | .module url _ => some url
  | .library name => (Library.primaryUrl libraryDir name).toOption
  | _ => none

/-- The demand does not fail for want of a path to claim. -/
def IsSafe (c : Setting σ) (d : Demand) : Prop :=
  ∀ e, d.aim c = .error e → ∀ e', d.verdict e ≠ .failed e'

theorem url?_library_eq_some_iff {libraryDir name url : String} :
    (library name).url? libraryDir = some url ↔ Library.primaryUrl libraryDir name = .ok url := by
  rw [url?]
  cases Library.primaryUrl libraryDir name <;> simp [Except.toOption]

/-- A library is looked for at its own URL, and then among those that are bundled. -/
theorem aim_library {c : Setting σ} {name url : String}
    (h : Library.primaryUrl c.libraryDir name = .ok url) :
    (library name).aim c = match Library.fallbackUrl c.bundledDir name with
      | .ok fallback => aimAt url url [fallback]
      | .error p => .error (.foreign (.ofUrl p)) := by
  unfold Demand.aim
  simp only [h]
  cases Library.fallbackUrl c.bundledDir name <;> rfl

/-- A demand that is safe claims the path of the URL that it is after. -/
theorem IsSafe.aim {c : Setting σ} {d : Demand} (hsafe : d.IsSafe c) (hroot : d.IsRoot)
    {url path : String} (hurl : d.url? c.libraryDir = some url) (hp : virtualPath url = .ok path) :
    ∃ k urls, d.aim c = .ok (k, urls) ∧ k.path = path := by
  cases hroot with
  | module u =>
    obtain rfl : u = url := Option.some.inj hurl
    exact ⟨⟨u, path⟩, [u], (aimAt_eq_ok_iff ..).2 ⟨rfl, hp, rfl⟩, rfl⟩
  | library name =>
    have haim := aim_library (url?_library_eq_some_iff.1 hurl)
    cases hfallback : Library.fallbackUrl c.bundledDir name with
    | ok fallback =>
      rw [hfallback] at haim
      exact ⟨⟨url, path⟩, _, haim.trans ((aimAt_eq_ok_iff ..).2 ⟨rfl, hp, rfl⟩), rfl⟩
    | error p =>
      rw [hfallback] at haim
      exact absurd rfl (hsafe _ haim _)

end Demand

/-- A demand of a task that has ended well is safe. -/
theorem Chronicle.isSafe_of_done {c : Setting σ} {world : σ} {s : State σ} {log : List Deed}
    (h : Chronicle c world s log) {j : Nat} {t : Task} (ht : s.tasks[j]? = some t)
    (hdone : t.Done) : t.demand.IsSafe c := by
  obtain ⟨o, ho, hne⟩ := hdone
  intro e ha e' he'
  exact hne e' ((h.eq_verdict ht ho ha).trans he')

theorem Chronicle.not_added_of_claimed {c : Setting σ} {world : σ} {s : State σ} {log : List Deed}
    (h : Chronicle c world s log) {i : Nat} {k : Claim} {urls : List String}
    (hk : .claimed i k urls ∈ log) (text : String) : .added k.path text ∉ log := by
  intro hadded
  have hnodup : (log.filterMap Deed.taken?).Nodup := by
    rw [h.taken]
    exact s.store.paths_nodup
  cases eq_of_nodup_filterMap hnodup hk hadded (x := k.path) rfl rfl

/-- A file was given up only if its path is still reserved. -/
theorem Chronicle.unraised_of_settled {c : Setting σ} {world : σ} {s : State σ} {log : List Deed}
    (h : Chronicle c world s log) (hsettled : ∀ path, s.store.text? path ≠ some none) :
    s.Unraised log := by
  intro i t o path source hd ht ho
  have htaken := h.taken_of_mem hd
  rw [ModuleStore.contains_iff_text?] at htaken
  obtain ⟨text?, htext⟩ := Option.isSome_iff_exists.1 htaken
  cases text? with
  | none => exact absurd htext (hsettled path)
  | some text =>
    obtain ⟨_, k, urls, -, -, hk, hpath⟩ := h.claim hd rfl
    rcases (h.texts path text).1 htext with hadded | ⟨j, hfilled⟩
    · exact absurd (show .added k.path text ∈ log from hpath ▸ hadded)
        (h.not_added_of_claimed hk text)
    · obtain rfl := h.place_unique hd hfilled rfl rfl rfl
      exact ⟨text, hfilled⟩

namespace Run

variable {c : Setting σ} {fetch : String → Except Fault Fetch.Source} {entries : List String}
  {world : σ} {s : State σ} {log : List Deed}

/-- Every reachable module was fetched in the end, unless its file was added. -/
theorem fetched_of_reach (h : Run c fetch entries world s log)
    (hapart : (c.graph fetch).Apart entries) (hs : s.Unraised log) (hall : s.AllFinished)
    (hasked : s.Seeks c entries) {url path : String} {source : Fetch.Source}
    (hreach : (c.graph fetch).Reach entries url) (hp : virtualPath url = .ok path)
    (hf : fetch url = .ok source) (hnot : ∀ text, .added path text ∉ log) :
    ∃ i r, .fetched i path url r ∈ log := by
  have hcontains := h.contains_of_reach hapart hs hall hasked hreach hp
  obtain ⟨i, k, urls, hk, rfl⟩ := (h.claimed_of_contains hcontains).resolve_right
    fun ⟨text, hadded⟩ => hnot text hadded
  obtain ⟨hreach', hp'⟩ := h.reach_of_claimed hk
  obtain rfl : k.url = url := hapart k.url url k.path hreach' hreach hp' hp
  obtain ⟨t, _, _, ht, _⟩ := h.chronicle.claim hk rfl
  obtain ⟨o, ho⟩ := hall i t ht
  exact ⟨i, _, (h.fetched_of_drafted hk (h.drafted_of_finished hk ht ho hf)).2⟩

/-- What was asked for from outside does not fail. -/
theorem unfailing (h : Run c fetch entries world s log) (hwhole : (c.graph fetch).Whole entries)
    (hs : s.Unraised log) {j : Nat} {t : Task} (ht : s.tasks[j]? = some t)
    (hroot : t.demand.IsRoot) (hsafe : t.demand.IsSafe c) (e : Fault) :
    t.phase ≠ .finished (.failed e) := by
  intro ho
  have hstory := h.chronicle.stories j t ht
  rw [ho] at hstory
  have hmem : ∀ {x}, x ∈ own j log → x ∈ log := fun hx => (mem_own.1 hx).1
  have hyields : ∀ {path}, ¬ t.demand.Yields path (.failed e) := by
    rintro path (hloaded | ⟨⟨source, target, hd⟩, -⟩)
    · cases hloaded
    · rw [hd] at hroot
      cases hroot
  generalize hl : own j log = l at hstory hmem
  generalize hout : Outcome.failed e = out at hstory
  cases hstory with
  | refused ha => exact hsafe _ ha e hout.symm
  | answered ha hs hy => exact hyields (hout ▸ hy)
  | @lost k tried urls cause ha htried hs =>
    obtain ⟨hreach, hpath, -⟩ := (h.known ht).aim h.libraries ha
    obtain ⟨source, hsource⟩ : ∃ source, fetch k.url = .ok source :=
      hwhole k.url k.path hreach hpath
    obtain ⟨fallbacks, hall, -⟩ := Demand.aim_urls ha
    cases tried with
    | nil => exact htried rfl
    | cons x tried =>
      have hx := h.fetch_of_mem (hmem (List.mem_cons_of_mem _ List.mem_cons_self))
      rw [List.map_cons, List.cons_append, List.cons.injEq] at hall
      rw [hall.1, hsource] at hx
      cases hx
  | @dropped k source tried url urls cause ha hreserved =>
    obtain ⟨text, hfilled⟩ := hs j t _ k.path source
      (hmem (drafted_mem_drafting_iff.2 ⟨rfl, rfl⟩)) ht ho
    rw [(h.chronicle.texts k.path text).2 (.inr ⟨j, hfilled⟩)] at hreserved
    cases hreserved
  | settled ha hs hy => exact hyields (hout ▸ hy)

end Run

/-! ## Complete runs -/

/-- The move advances a task, asks for one of the demands, or adds one of the files. -/
def Move.Among (demands : List Demand) (files : List (String × String)) : Move → Prop
  | .step _ => True
  | .ask d => d ∈ demands
  | .add path text => (path, text) ∈ files

/-- The URLs that demands from outside are after. -/
def Setting.roots (c : Setting σ) (demands : List Demand) : List String :=
  demands.filterMap (·.url? c.libraryDir)

/-- Every module that is reachable from what is asked for can be fetched, no two of them have one
path, and files that are added are those of the graph. -/
structure Setting.Covers (c : Setting σ) (fetch : String → Except Fault Fetch.Source)
    (demands : List Demand) (files : List (String × String)) : Prop where
  roots : ∀ d ∈ demands, d.IsRoot
  brings : ∀ f ∈ files, c.Brings fetch f.1 f.2
  whole : (c.graph fetch).Whole (c.roots demands)
  apart : (c.graph fetch).Apart (c.roots demands)

/-- Everything was asked for and added, and what was asked for has ended. -/
structure State.Completes (s : State σ) (log : List Deed) (demands : List Demand)
    (files : List (String × String)) : Prop where
  asked : ∀ d ∈ demands, ∃ t ∈ s.tasks, t.parent = none ∧ t.demand = d
  added : ∀ f ∈ files, .added f.1 f.2 ∈ log
  ended : s.RootsFinished

namespace Setting.Covers

variable {c : Setting σ} {fetch : String → Except Fault Fetch.Source} {demands : List Demand}
  {files : List (String × String)} {world : σ} {s : State σ} {log : List Deed}

section

variable (hc : c.Covers fetch demands files)

include hc

theorem known {d : Demand} (hd : d ∈ demands) : (c.graph fetch).Known (c.roots demands) d := by
  have hmem : ∀ {url}, d.url? c.libraryDir = some url → url ∈ c.roots demands :=
    fun hurl => List.mem_filterMap.2 ⟨d, hd, hurl⟩
  have hroot := hc.roots d hd
  cases hroot with
  | module url => exact .entry (hmem rfl)
  | library name =>
    refine .library fun url path hurl hp => ?_
    have hroot : url ∈ c.roots demands := hmem (Demand.url?_library_eq_some_iff.2 hurl)
    exact ⟨hroot, hc.whole url path (.entry hroot) hp⟩

theorem opens {m : Move} (hm : m.Among demands files) : c.Opens fetch (c.roots demands) m := by
  cases m with
  | step i => trivial
  | ask d => exact hc.known hm
  | add path text => exact hc.brings (path, text) hm

variable (hf : c.Answers fetch) (h : Reached c world (Move.Among demands files) s log)

include hf h

theorem run : Run c fetch (c.roots demands) world s log :=
  ⟨h.mono fun _ => hc.opens, hf, hc.whole.hasLibraries⟩

omit hc hf in
theorem demand_of_root {j : Nat} {t : Task} (ht : s.tasks[j]? = some t) (hp : t.parent = none) :
    t.demand ∈ demands := by
  rcases h.origin ht with ⟨-, hm⟩ | ⟨p, -, -, -, hp', -⟩
  · exact hm
  · rw [hp] at hp'
    cases hp'

/-- Where no file is given up, no task fails. -/
theorem unfailing (hsafe : ∀ d ∈ demands, d.IsSafe c) (hcalm : Calm s log) {t : Task}
    (ht : t ∈ s.tasks) (e : Fault) : t.phase ≠ .finished (.failed e) := by
  obtain ⟨j, hj⟩ := List.mem_iff_getElem?.1 ht
  cases hp : t.parent with
  | some p => exact hcalm.unharmed j p t e hj hp
  | none =>
    have hd := demand_of_root h hj hp
    exact (hc.run hf h).unfailing hc.whole hcalm.unraised hj (hc.roots _ hd) (hsafe _ hd) e

omit hf h in
theorem seeks (hsafe : ∀ d ∈ demands, d.IsSafe c)
    (hasked : ∀ d ∈ demands, ∃ t ∈ s.tasks, t.parent = none ∧ t.demand = d) :
    s.Seeks c (c.roots demands) := by
  intro url hurl path hp
  obtain ⟨d, hd, hurl⟩ := List.mem_filterMap.1 hurl
  obtain ⟨k, urls, ha, hpath⟩ := (hsafe d hd).aim (hc.roots d hd) hurl hp
  obtain ⟨t, ht, -, rfl⟩ := hasked d hd
  obtain ⟨j, hj⟩ := List.mem_iff_getElem?.1 ht
  exact ⟨j, t, k, urls, hj, ha, hpath⟩

/-- A run that comes to an end and gives up no file has loaded everything. -/
theorem loaded (hsafe : ∀ d ∈ demands, d.IsSafe c) (hs : s.Unraised log)
    (hend : s.Completes log demands files) : c.Loaded fetch (c.roots demands) s := by
  have hrun := hc.run hf h
  intro url path hreach hp
  obtain ⟨source, hsource⟩ := hc.whole url path hreach hp
  exact hrun.settled_of_reach hc.apart hs (hrun.finished hs hend.ended)
    (hc.seeks hsafe hend.asked) hreach hp hsource

/-- What a run shows of the graph: if what it was asked for has ended well and it leaves no path
without a text, then the demands are safe, everything is loaded, and every file has a plan. -/
theorem complete (hend : s.Completes log demands files)
    (hdone : ∀ t ∈ s.tasks, t.parent = none → t.Done)
    (hsettled : ∀ path, s.store.text? path ≠ some none) :
    (∀ d ∈ demands, d.IsSafe c) ∧ c.Loaded fetch (c.roots demands) s ∧
      c.Plans fetch (c.roots demands) := by
  have hrun := hc.run hf h
  have hsafe : ∀ d ∈ demands, d.IsSafe c := by
    intro d hd
    obtain ⟨t, ht, hp, rfl⟩ := hend.asked d hd
    obtain ⟨j, hj⟩ := List.mem_iff_getElem?.1 ht
    exact hrun.chronicle.isSafe_of_done hj (hdone t ht hp)
  have hloaded := hc.loaded hf h hsafe (hrun.chronicle.unraised_of_settled hsettled) hend
  exact ⟨hsafe, hloaded, hrun.plans hloaded hc.apart⟩

/-- A path that is taken is that of a reachable module or of a file that was added. -/
theorem contains_iff (hsafe : ∀ d ∈ demands, d.IsSafe c) (hs : s.Unraised log)
    (hend : s.Completes log demands files) (path : String) : s.store.contains path = true ↔
      (∃ url, (c.graph fetch).Reach (c.roots demands) url ∧ virtualPath url = .ok path) ∨
        ∃ text, (path, text) ∈ files := by
  have hrun := hc.run hf h
  rw [hrun.contains_iff hc.apart hs (hrun.finished hs hend.ended) (hc.seeks hsafe hend.asked)]
  refine or_congr_right (exists_congr fun text => ⟨fun hadded => ?_, hend.added (path, text)⟩)
  rcases h.place_or_added hadded with ⟨i, hi⟩ | ⟨_, _, heq, hm⟩
  · cases hi
  · cases heq
    exact hm

end

/-- **main theorem**: every run that is asked for the same, adds the same files and comes to an end
has the same store, if one of them has loaded everything. None of its tasks fails on the way. -/
theorem text?_eq (hc : c.Covers fetch demands files) (hf : c.Answers fetch)
    (h : Reached c world (Move.Among demands files) s log) (hend : s.Completes log demands files)
    (hdone : ∀ t ∈ s.tasks, t.parent = none → t.Done)
    (hsettled : ∀ path, s.store.text? path ≠ some none) {world' : σ} {s' : State σ}
    {log' : List Deed} (h' : Reached c world' (Move.Among demands files) s' log') :
    (∀ t ∈ s'.tasks, ∀ e, t.phase ≠ .finished (.failed e)) ∧
      (s'.Completes log' demands files → ∀ path, s.store.text? path = s'.store.text? path) := by
  obtain ⟨hsafe, hloaded, hplans⟩ := hc.complete hf h hend hdone hsettled
  have hrun := hc.run hf h
  have hrun' := hc.run hf h'
  have hs := hrun.chronicle.unraised_of_settled hsettled
  have hcalm' := hrun'.calm hplans
  refine ⟨fun t ht e => hc.unfailing hf h' hsafe hcalm' ht e, fun hend' path => ?_⟩
  have hloaded' := hc.loaded hf h' hsafe hcalm'.unraised hend'
  by_cases hadded : ∃ text, (path, text) ∈ files
  · obtain ⟨text, hmem⟩ := hadded
    rw [(hrun.chronicle.texts path text).2 (.inl (hend.added _ hmem)),
      (hrun'.chronicle.texts path text).2 (.inl (hend'.added _ hmem))]
  by_cases hreach : ∃ url, (c.graph fetch).Reach (c.roots demands) url ∧ virtualPath url = .ok path
  · obtain ⟨url, hreach, hp⟩ := hreach
    obtain ⟨source, hsource⟩ := hc.whole url path hreach hp
    obtain ⟨rs, text, hrs, htext, -, heq⟩ := hrun.planned_text hloaded hc.apart hreach hp hsource
    obtain ⟨rs', text', hrs', htext', -, heq'⟩ :=
      hrun'.planned_text hloaded' hc.apart hreach hp hsource
    rw [hrs, Except.ok.injEq] at hrs'
    subst hrs'
    rw [htext, htext', Utf8.encode_injective (heq.trans heq'.symm)]
  · have hnone : ¬ ((∃ url, (c.graph fetch).Reach (c.roots demands) url ∧
        virtualPath url = .ok path) ∨ ∃ text, (path, text) ∈ files) := not_or.2 ⟨hreach, hadded⟩
    rw [(s.store.text?_eq_none_iff path).2, (s'.store.text?_eq_none_iff path).2]
    · rwa [← Bool.not_eq_true, hc.contains_iff hf h' hsafe hcalm'.unraised hend']
    · rwa [← Bool.not_eq_true, hc.contains_iff hf h hsafe hs hend]

end Setting.Covers

end ModuleGraph.Loading
