import ModuleGraph.Proofs.FilePath.Normal
import ModuleGraph.Proofs.Project.Build
import ModuleGraph.Proofs.Project.Configuration
/-!
# The paths of entries

A build is told its entries as URLs: those of the files that its pattern finds, and those of what the
configuration of the project exports. Each of them was made from a path, and the module that is loaded
for it is stored under that path, so the root names of a program are the paths of its entry files.

Results:
* `entries_eq_ok_iff`: the entries of a plan are the files that are found;
* `entries_of_prepared`: the entries of a build are these and then URLs of other paths;
* `virtualPath_of_ended`: the root names of a program are the keys of its entries;
* `paths_survive_urls`: **main theorem**: paths survive the trip through URLs, and the root names of a
  program are the paths of its entries.
-/

namespace ModuleGraph

open Loading (Kept State)
open FilePath (IsNormal IsEntryName Keeps atPlace)

theorem exists_forall₂ {α β : Type} {R : α → β → Prop} {bs : List β} (h : ∀ b ∈ bs, ∃ a, R a b) :
    ∃ as, List.Forall₂ R as bs := by
  induction bs with
  | nil => exact ⟨[], .nil⟩
  | cons b bs ih =>
    obtain ⟨a, ha⟩ := h b List.mem_cons_self
    obtain ⟨as, has⟩ := ih fun c hc => h c (List.mem_cons_of_mem b hc)
    exact ⟨a :: as, .cons ha has⟩

namespace Settlement

theorem exists_addEntry (entries : List String) (url : String) :
    ∃ more, addEntry entries url = entries ++ more ∧ ∀ u ∈ more, u = url := by
  rw [addEntry]
  split_ifs
  · exact ⟨[], (List.append_nil _).symm, by simp⟩
  · exact ⟨[url], rfl, by simp⟩

/-- More entries stand behind those that there are. -/
theorem exists_foldl_addEntry (entries urls : List String) :
    ∃ more, urls.foldl addEntry entries = entries ++ more ∧ ∀ u ∈ more, u ∈ urls := by
  induction urls generalizing entries with
  | nil => exact ⟨[], (List.append_nil _).symm, by simp⟩
  | cons url urls ih =>
    obtain ⟨first, hfirst, hurl⟩ := exists_addEntry entries url
    obtain ⟨more, hmore, hmem⟩ := ih (addEntry entries url)
    refine ⟨first ++ more, ?_, fun u hu => ?_⟩
    · rw [List.foldl_cons, hmore, hfirst, List.append_assoc]
    · rcases List.mem_append.1 hu with hu | hu
      · rw [hurl u hu]
        exact List.mem_cons_self
      · exact List.mem_cons_of_mem url (hmem u hu)

/-- What a configuration adds are URLs of paths. -/
theorem entries_of_layered {s s' : Settlement} {root rootUrl : String} {c : ProjectConfig}
    (h : s.layered root rootUrl c = .ok s') : ∃ more, s'.entries = s.entries ++ more ∧
      ∀ u ∈ more, ∃ path, FilePath.toUrl path = .ok u := by
  unfold layered at h
  obtain ⟨_, -, h⟩ := Action.bind_eq_ok_iff.1 h
  obtain ⟨exported, hexported, h⟩ := Action.bind_eq_ok_iff.1 h
  cases h
  obtain ⟨more, hmore, hmem⟩ := exists_foldl_addEntry s.entries exported
  refine ⟨more, hmore, fun u hu => ?_⟩
  obtain ⟨path, -, hpath⟩ :=
    exists_of_forall₂ (Action.mapM_eq_ok_iff.1 hexported).flip (hmem u hu)
  exact ⟨_, Action.mapError_eq_ok_iff.1 hpath⟩

end Settlement

namespace Plan

variable {π : Type} {p : Plan π} {w : Fetch.World} {run : Runner} {q : Prepared}
  {s₀ : State Fetch.World}

/-- The plan's own entries are the files that its pattern finds, one after the other. -/
theorem entries_eq_ok_iff {files : FileTree} {root : String} {own : List String} :
    p.entries files root = .ok own ↔
      ∃ places, files.filesMatching (FilePath.components root.toList) p.entryGlob = .ok places ∧
        List.Forall₂ (fun place url => FilePath.toUrl (atPlace place) = .ok url) places own := by
  unfold entries
  rw [Action.bind_eq_ok_iff]
  simp only [Action.mapError_eq_ok_iff, Action.mapM_eq_ok_iff]
  rfl

/-- The entries that are settled on are the plan's own, and then URLs of other paths. -/
theorem entries_of_settle {root rootUrl : String} {s s' : State Fetch.World} {settled : Settlement}
    (h : (p.settle root rootUrl).run s = (.ok settled, s')) :
    ∃ own more, p.entries s.world.files root = .ok own ∧ settled.entries = own ++ more ∧
      ∀ u ∈ more, ∃ path, FilePath.toUrl path = .ok u := by
  unfold settle at h
  rw [Action.run_get_bind] at h
  simp only [Action.run_liftM_bind_eq_ok_iff] at h
  obtain ⟨own, hown, ⟨config, notices⟩, -, h⟩ := h
  obtain ⟨_, s₁, -, h⟩ := Action.run_bind_eq_ok_iff.1 h
  cases config with
  | none =>
    cases h
    exact ⟨own, [], hown, (List.append_nil _).symm, by simp⟩
  | some c =>
    rw [Action.run_liftM] at h
    obtain ⟨more, hmore, hmem⟩ := Settlement.entries_of_layered (congrArg Prod.fst h)
    exact ⟨own, more, hown, hmore, hmem⟩

theorem entries_of_prepared (h : (p.prepared run).run (.start w) = (.ok q, s₀)) :
    ∃ root own more, FilePath.resolve p.root = .ok root ∧ p.entries w.files root = .ok own ∧
      q.entries = own ++ more ∧ ∀ u ∈ more, ∃ path, FilePath.toUrl path = .ok u := by
  rw [prepared_eq] at h
  obtain ⟨q₁, s₁, hopened, h⟩ := Action.run_bind_eq_ok_iff.1 h
  obtain ⟨_, s₂, -, h⟩ := Action.run_bind_eq_ok_iff.1 h
  obtain ⟨options, s₃, -, h⟩ := Action.run_bind_eq_ok_iff.1 h
  cases h
  unfold opened at hopened
  simp only [Action.run_liftM_bind_eq_ok_iff] at hopened
  obtain ⟨root, hroot, rootUrl, -, h⟩ := hopened
  obtain ⟨settled, s, hsettle, h⟩ := Action.run_bind_eq_ok_iff.1 h
  simp only [Action.run_liftM_bind_eq_ok_iff, Action.run_get_bind, Action.run_modify_bind] at h
  obtain ⟨c, -, store, -, h⟩ := h
  cases h
  obtain ⟨own, more, hown, hentries, hmore⟩ := entries_of_settle hsettle
  exact ⟨root, own, more, Action.mapError_eq_ok_iff.1 hroot, hown, hentries, hmore⟩

/-! ## Paths -/

/-- What the entries of a build have to do with paths: each is the URL of a normal path that leads
back to it, and the first of these paths are those of the files that the plan's pattern finds. -/
structure EntryPaths (p : Plan π) (w : Fetch.World) (entries paths : List String) : Prop where
  keeps : List.Forall₂ (fun path url => IsNormal path ∧ Keeps path url) paths entries
  found : ∀ root places, FilePath.resolve p.root = .ok root →
    w.files.filesMatching (FilePath.components root.toList) p.entryGlob = .ok places →
    (∀ place ∈ places, ∀ name ∈ place, IsEntryName name) → places.map atPlace <+: paths

theorem EntryPaths.map_virtualPath {entries paths : List String}
    (h : EntryPaths p w entries paths) : entries.map virtualPath = paths.map .ok := by
  have hkeeps := h.keeps
  clear h
  induction hkeeps with
  | nil => rfl
  | cons hpath _ ih => rw [List.map_cons, List.map_cons, hpath.2.key, ih]

/-- The URLs of places keep their paths. -/
theorem keeps_of_places {places : List (List (List Char))} {own : List String}
    (hnames : ∀ place ∈ places, ∀ name ∈ place, IsEntryName name)
    (h : List.Forall₂ (fun place url => FilePath.toUrl (atPlace place) = .ok url) places own) :
    List.Forall₂ (fun path url => IsNormal path ∧ Keeps path url) (places.map atPlace) own := by
  induction h with
  | nil => exact .nil
  | @cons place url places own hurl _ ih =>
    obtain ⟨path, hpath, hnormal, hkeeps⟩ := FilePath.exists_keeps hurl
    rw [FilePath.resolve_atPlace (hnames place List.mem_cons_self), Except.ok.injEq] at hpath
    subst hpath
    exact .cons ⟨hnormal, hkeeps⟩ (ih fun c hc => hnames c (List.mem_cons_of_mem place hc))

/-- The entries of every build have their paths. -/
theorem exists_entryPaths (h : (p.prepared run).run (.start w) = (.ok q, s₀)) :
    ∃ paths, EntryPaths p w q.entries paths := by
  obtain ⟨root, own, more, hroot, hown, hentries, hmore⟩ := entries_of_prepared h
  obtain ⟨places, hplaces, hurls⟩ := entries_eq_ok_iff.1 hown
  have hall : ∀ url ∈ q.entries, ∃ path, IsNormal path ∧ Keeps path url := by
    intro url hurl
    obtain ⟨path, hpath⟩ : ∃ path, FilePath.toUrl path = .ok url := by
      rw [hentries, List.mem_append] at hurl
      rcases hurl with hurl | hurl
      · obtain ⟨place, -, hplace⟩ := exists_of_forall₂ hurls.flip hurl
        exact ⟨_, hplace⟩
      · exact hmore url hurl
    obtain ⟨path', -, hnormal, hkeeps⟩ := FilePath.exists_keeps hpath
    exact ⟨path', hnormal, hkeeps⟩
  obtain ⟨paths, hpaths⟩ := exists_forall₂ hall
  refine ⟨paths, hpaths, fun root' places' hroot' hplaces' hnames => ?_⟩
  rw [hroot, Except.ok.injEq] at hroot'
  subst hroot'
  rw [hplaces, Except.ok.injEq] at hplaces'
  subst hplaces'
  rw [hentries] at hpaths
  have hunique : Relator.LeftUnique fun path url => IsNormal path ∧ Keeps path url :=
    fun _ _ _ h h' => h.2.unique h'.2
  rw [List.left_unique_forall₂' hunique (keeps_of_places hnames hurls)
    (List.forall₂_take_append paths own more hpaths)]
  exact List.take_prefix _ _

/-- The root names of a program are the keys of its entries, once their loads have ended. -/
theorem virtualPath_of_ended (hrun : run.StartsInOrder)
    (h : (p.prepared run).run (.start w) = (.ok q, s₀)) {asked : State Fetch.World × List Nat}
    (hasked : asked = s₀.ask none (q.entries.map fun u => .module u u))
    {s : State Fetch.World} (hs : s = run q.setting asked.2 asked.1)
    (hended : (s.failure? asked.2).isSome = true ∨ s.allFinished asked.2 = true)
    {program : Program π} {s' : State Fetch.World}
    (hprogram : (p.buildWith run).run (.start w) = (.ok program, s')) :
    q.entries.map virtualPath = program.rootNames.map .ok := by
  subst hasked hs
  obtain ⟨log, hkept⟩ := kept_of_prepared hrun h
  obtain ⟨older, later, -, heq⟩ := hrun q.setting s₀ (q.entries.map fun u => .module u u)
  rw [buildWith_eq, Action.run_bind_of_ok h] at hprogram
  obtain ⟨hok, -, paths, hresults, hnames⟩ := finished_eq_ok hprogram
  have hall := hended.resolve_left (by rw [hok]; exact Bool.false_ne_true)
  rw [hnames]
  refine names_of_results (m := s₀.tasks.length) (by simp [State.ask]) hresults ?_
  intro n url hn
  rw [State.follow_append] at heq
  obtain ⟨path, hpath, ho, -⟩ := hkept.settled_or_reserved rfl rfl heq hok hall hn
  exact ⟨path, hpath, ho⟩

/-- **Paths survive the trip through URLs.** The URL of a normal path leads back to it, as the key of
a module and as the place of a file, whatever characters its names are made of. So different paths
have different URLs and different keys, and the root names of a program are the paths of its
entries: of the files that are found, and of what the configuration exports. -/
theorem paths_survive_urls :
    (∀ path, IsNormal path → ∃ url, Keeps path url) ∧
    (∀ path path' url url', IsNormal path → IsNormal path' → path ≠ path' →
      FilePath.toUrl path = .ok url → FilePath.toUrl path' = .ok url' →
      url ≠ url' ∧ virtualPath url ≠ virtualPath url') ∧
    ∀ {π : Type} (p : Plan π) (run : Runner), run.StartsInOrder →
      ∀ w q s₀, (p.prepared run).run (.start w) = (.ok q, s₀) →
      ∃ paths, EntryPaths p w q.entries paths ∧
        let asked := s₀.ask none (q.entries.map fun u => .module u u)
        let s := run q.setting asked.2 asked.1
        ((s.failure? asked.2).isSome = true ∨ s.allFinished asked.2 = true) →
          ∀ program s', (p.buildWith run).run (.start w) = (.ok program, s') →
            program.rootNames = paths := by
  refine ⟨fun path h => ⟨_, h.keeps⟩, fun path path' url url' h h' hne hurl hurl' => ?_,
    fun p run hrun w q s₀ h => ?_⟩
  · have hkey : virtualPath url ≠ virtualPath url' := by
      have hsame := h.keeps.written
      have hsame' := h'.keeps.written
      rw [hurl, Except.ok.injEq] at hsame
      rw [hurl', Except.ok.injEq] at hsame'
      rw [hsame, hsame', h.keeps.key, h'.keeps.key, ne_eq, Except.ok.injEq]
      exact hne
    exact ⟨fun heq => hkey (heq ▸ rfl), hkey⟩
  · obtain ⟨paths, hpaths⟩ := exists_entryPaths h
    refine ⟨paths, hpaths, fun hended program s' hprogram => ?_⟩
    have hnames := virtualPath_of_ended hrun h rfl rfl hended hprogram
    rw [hpaths.map_virtualPath] at hnames
    exact (List.map_injective_iff.2 (fun _ _ hpath => Except.ok.inj hpath) hnames).symm

/-- A plan for the project in `/proj`, without libraries. -/
def bare : Plan Unit := { ownRuntime with overrides := .ofList [("lib", .arr [])] }

/-- A name with an escape and with marks of URLs. -/
def oddName : List Char := "50%25 ?#;é.ts".toList

/-- The project has one entry file. -/
def oddlyNamed : Fetch.World where
  files := ⟨[(["proj".toList], .directory), (["proj".toList, oddName], .file [])], []⟩
  routes := []
  now := 0
  requests := []
  log := []

set_option maxRecDepth 100000 in
/-- Two paths of which one is the other with its escape undone have different keys, and the program
with the former as its only entry has it as its only root name. -/
theorem paths_survive_urls_oddlyNamed :
    let path := atPlace ["proj".toList, oddName]
    let path' := "/proj/50% ?#;é.ts"
    (IsNormal path ∧ IsNormal path' ∧ path ≠ path') ∧
    (∃ url url', Keeps path url ∧ Keeps path' url' ∧ virtualPath url ≠ virtualPath url') ∧
    ∃ q s₀ program s', (bare.prepared State.run).run (.start oddlyNamed) = (.ok q, s₀) ∧
      bare.build oddlyNamed = (.ok program, s') ∧ program.rootNames = [path] ∧
      EntryPaths bare oddlyNamed q.entries program.rootNames := by
  intro path path'
  have hname (cs : List Char) (h : '/' ∉ cs ∧ cs ≠ [] ∧ cs ≠ ['.'] ∧ cs ≠ ['.', '.'] ∧ '\x00' ∉ cs) :
      IsEntryName cs := ⟨⟨h.1, h.2.1, h.2.2.1⟩, h.2.2.2.1, h.2.2.2.2⟩
  have hnormal : IsNormal path := by
    refine FilePath.isNormal_atPlace fun name h => ?_
    rcases List.mem_pair.1 h with rfl | rfl
    · exact hname _ (by decide)
    · exact hname _ (by decide)
  have hnormal' : IsNormal path' := by
    refine FilePath.isNormal_iff.2 ⟨["proj".toList, "50% ?#;é.ts".toList], fun name h => ?_, rfl⟩
    rcases List.mem_pair.1 h with rfl | rfl
    · exact hname _ (by decide)
    · exact hname _ (by decide)
  have hne : path ≠ path' := by decide
  obtain ⟨hkeeps, hdiffer, hbuild⟩ := paths_survive_urls
  obtain ⟨url, hurl⟩ := hkeeps path hnormal
  obtain ⟨url', hurl'⟩ := hkeeps path' hnormal'
  refine ⟨⟨hnormal, hnormal', hne⟩, ⟨url, url', hurl, hurl',
    (hdiffer _ _ _ _ hnormal hnormal' hne hurl.written hurl'.written).2⟩, ?_⟩
  have h : ((bare.endedProgram? oddlyNamed).map Program.rootNames) = some [path] := by decide +kernel
  obtain ⟨program, hprogram, hnames⟩ := Option.map_eq_some_iff.1 h
  obtain ⟨q, s₀, s', hprepared, hended, hran⟩ := exists_of_endedProgram? hprogram
  obtain ⟨paths, hpaths, hroot⟩ := hbuild bare State.run startsInOrder_run _ q s₀ hprepared
  refine ⟨q, s₀, program, s', hprepared, hran, hnames, ?_⟩
  rw [hroot (.inr hended) program s' hran]
  exact hpaths

end Plan

end ModuleGraph
