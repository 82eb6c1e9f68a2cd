import Mathlib.Data.List.Forall2
import ModuleGraph.Project.Build
import ModuleGraph.Proofs.Action
import ModuleGraph.Proofs.ImportMap
/-!
# The targets of a configuration

The import map of a configuration is seen from the URL of its file: each target is joined with that
URL, and the keys stay. A target matters to the specifiers that its entry decides about, and the map
can be seen from a URL exactly if every target can be joined with it.

Results:
* `ImportMap.Joined.decides_iff`: a target matters to the specifiers that its entry decides about;
* `ProjectConfig.exists_importMap_iff`: when the import map can be seen from the URL of its file.
-/

namespace ModuleGraph

/-! ## Partners in two lists -/

theorem exists_of_forall₂ {α β : Type} {R : α → β → Prop} {as : List α} {bs : List β}
    (h : List.Forall₂ R as bs) {a : α} (ha : a ∈ as) : ∃ b ∈ bs, R a b := by
  induction h with
  | nil => exact absurd ha List.not_mem_nil
  | cons hab _ ih =>
    rcases List.mem_cons.1 ha with rfl | ha
    · exact ⟨_, List.mem_cons_self, hab⟩
    · obtain ⟨b, hb, hR⟩ := ih ha
      exact ⟨b, List.mem_cons_of_mem _ hb, hR⟩

theorem map_fst_eq_of_forall₂ {α β : Type} {R : String × α → String × β → Prop}
    {es : List (String × α)} {fs : List (String × β)} (h : List.Forall₂ R es fs)
    (hR : ∀ e f, R e f → f.1 = e.1) : fs.map Prod.fst = es.map Prod.fst := by
  induction h with
  | nil => rfl
  | cons hef _ ih => rw [List.map_cons, List.map_cons, hR _ _ hef, ih]

/-! ## Import maps with other targets -/

/-- The partner of a longest entry is a longest entry, where partners have one key. -/
theorem IsLongest.partner {α β : Type} {P : String → Prop} {R : String × α → String × β → Prop}
    {es : List (String × α)} {fs : List (String × β)} (h : List.Forall₂ R es fs)
    (hR : ∀ e f, R e f → f.1 = e.1) {e : String × α} (he : IsLongest P es e) :
    ∃ f, R e f ∧ IsLongest P fs f := by
  obtain ⟨f, hf, hef⟩ := exists_of_forall₂ h he.mem
  refine ⟨f, hef, hf, (hR e f hef).symm ▸ he.candidate, fun f' hf' hP => ?_⟩
  obtain ⟨e', he', hef'⟩ := exists_of_forall₂ h.flip hf'
  rw [hR e f hef, hR e' f' hef']
  exact he.longest e' he' (hR e' f' hef' ▸ hP)

/-- The entries of the second mapping are those of the first one, each with its target as seen from
`base`. -/
def Mapping.Joined (base : String) (m m' : Mapping) : Prop :=
  List.Forall₂ (fun e e' => e'.1 = e.1 ∧ Url.join base e.2 = .ok e'.2) m.entries m'.entries

/-- The entries of the second import map are those of the first one, in the same scopes, each with its
target as seen from `base`. -/
structure ImportMap.Joined (base : String) (m m' : ImportMap) : Prop where
  imports : Mapping.Joined base m.imports m'.imports
  scopes : List.Forall₂ (fun s s' => s'.1 = s.1 ∧ Mapping.Joined base s.2 s'.2)
    m.scopes.entries m'.scopes.entries

namespace Mapping.Joined

variable {base specifier : String} {m m' : Mapping} (h : Mapping.Joined base m m')

include h

theorem decides_iff {e' : String × String} : m'.Decides specifier e' ↔
    ∃ e, m.Decides specifier e ∧ e'.1 = e.1 ∧ Url.join base e.2 = .ok e'.2 := by
  constructor
  · intro he'
    obtain ⟨e, hjoined, he⟩ := IsLongest.partner (List.Forall₂.flip h) (fun _ _ h => h.1.symm) he'
    exact ⟨e, he, hjoined⟩
  · rintro ⟨e, he, hkey, htarget⟩
    obtain ⟨f, ⟨hfkey, hftarget⟩, hf⟩ := IsLongest.partner h (fun _ _ h => h.1) he
    have hsame : e' = f := Prod.ext (hkey.trans hfkey.symm)
      (Except.ok.inj (htarget.symm.trans hftarget))
    rwa [hsame]

theorem lacks_iff : m'.Lacks specifier ↔ m.Lacks specifier := by
  constructor
  · intro hl e he
    obtain ⟨e', he', hkey, -⟩ := exists_of_forall₂ h he
    exact hkey ▸ hl e' he'
  · intro hl e' he'
    obtain ⟨e, he, hkey, -⟩ := exists_of_forall₂ (List.Forall₂.flip h) he'
    exact hkey ▸ hl e he

end Mapping.Joined

namespace ImportMap.Joined

variable {base source specifier : String} {m m' : ImportMap} (h : ImportMap.Joined base m m')

include h

theorem governs {scope : String × Mapping} (hs : m.Governs source scope) :
    ∃ scope', m'.Governs source scope' ∧ Mapping.Joined base scope.2 scope'.2 := by
  obtain ⟨scope', ⟨-, hjoined⟩, hs'⟩ := IsLongest.partner h.scopes (fun _ _ h => h.1) hs
  exact ⟨scope', hs', hjoined⟩

theorem governs_back {scope' : String × Mapping} (hs : m'.Governs source scope') :
    ∃ scope, m.Governs source scope ∧ Mapping.Joined base scope.2 scope'.2 := by
  obtain ⟨scope, ⟨-, hjoined⟩, hs'⟩ :=
    IsLongest.partner (List.Forall₂.flip h.scopes) (fun _ _ h => h.1.symm) hs
  exact ⟨scope, hs', hjoined⟩

/-- The entry that decides is the one that decided before, with its own target as seen from
`base`. -/
theorem decides_iff {e' : String × String} : m'.Decides source specifier e' ↔
    ∃ e, m.Decides source specifier e ∧ e'.1 = e.1 ∧ Url.join base e.2 = .ok e'.2 := by
  constructor
  · rintro (⟨hs', he'⟩ | ⟨hs', he'⟩)
    · obtain ⟨scope, hs, hjoined⟩ := h.governs_back hs'
      obtain ⟨e, he, htarget⟩ := hjoined.decides_iff.1 he'
      exact ⟨e, .inScope hs he, htarget⟩
    · obtain ⟨e, he, htarget⟩ := h.imports.decides_iff.1 he'
      refine ⟨e, .atTop (fun scope hs => ?_) he, htarget⟩
      obtain ⟨scope', hscope', hjoined⟩ := h.governs hs
      exact hjoined.lacks_iff.1 (hs' scope' hscope')
  · rintro ⟨e, ⟨hs, he⟩ | ⟨hs, he⟩, htarget⟩
    · obtain ⟨scope', hs', hjoined⟩ := h.governs hs
      exact .inScope hs' (hjoined.decides_iff.2 ⟨e, he, htarget⟩)
    · refine .atTop (fun scope' hs' => ?_) (h.imports.decides_iff.2 ⟨e, he, htarget⟩)
      obtain ⟨scope, hscope, hjoined⟩ := h.governs_back hs'
      exact hjoined.lacks_iff.2 (hs scope hscope)

end ImportMap.Joined

/-! ## The import map of a configuration -/

namespace ProjectConfig

/-- The import map as the configuration states it. -/
def declared (c : ProjectConfig) : ImportMap := ⟨c.imports.getD .empty, c.scopes.getD .empty⟩

/-- The targets of the configuration's import map. -/
def targets (c : ProjectConfig) : List String :=
  c.declared.imports.entries.map Prod.snd ++
    c.declared.scopes.entries.flatMap fun e => e.2.entries.map Prod.snd

theorem resolveMapping_eq_ok_iff {base : String} {m m' : Mapping} :
    resolveMapping base m = .ok m' ↔ Mapping.Joined base m m' := by
  have hentry : ∀ e e' : String × String, ((Url.join base e.2).map fun target => (e.1, target)) =
      .ok e' ↔ e'.1 = e.1 ∧ Url.join base e.2 = .ok e'.2 := by
    rintro e ⟨key, target⟩
    cases Url.join base e.2 with
    | error p => simp [Except.map]
    | ok target' => simp [Except.map, eq_comm]
  rw [resolveMapping, Action.map_eq_ok_iff]
  simp only [Action.mapM_eq_ok_iff, hentry]
  constructor
  · rintro ⟨es, hes, rfl⟩
    have hkeys := map_fst_eq_of_forall₂ hes fun _ _ h => h.1
    rw [Mapping.Joined, Table.entries_ofList (hkeys ▸ m.distinct)]
    exact hes
  · intro h
    exact ⟨m'.entries, h, Table.ofList_entries m'⟩

theorem exists_of_resolveMapping_eq_error {base : String} {m : Mapping} {p : Url.Problem}
    (h : resolveMapping base m = .error p) :
    ∃ target ∈ m.entries.map Prod.snd, Url.join base target = .error p := by
  obtain ⟨e, he, hjoin⟩ := Action.exists_of_mapM_eq_error (Action.eq_error_of_map h)
  exact ⟨e.2, List.mem_map_of_mem he, Action.eq_error_of_map hjoin⟩

theorem importMap_eq_ok_iff {c : ProjectConfig} {url : String} {m : ImportMap} :
    c.importMap url = .ok m ↔ ImportMap.Joined url c.declared m := by
  have hscope : ∀ s s' : String × Mapping, ((resolveMapping url s.2).map fun mapping =>
      (s.1, mapping)) = .ok s' ↔ s'.1 = s.1 ∧ Mapping.Joined url s.2 s'.2 := by
    rintro s ⟨key, mapping⟩
    rw [← resolveMapping_eq_ok_iff]
    cases resolveMapping url s.2 with
    | error p => simp [Except.map]
    | ok target' => simp [Except.map, eq_comm]
  rw [importMap, Action.bind_eq_ok_iff]
  simp only [Action.bind_eq_ok_iff, Action.mapM_eq_ok_iff, hscope, resolveMapping_eq_ok_iff]
  constructor
  · rintro ⟨imports, himports, scopes, hscopes, h⟩
    cases h
    have hkeys := map_fst_eq_of_forall₂ hscopes fun _ _ h => h.1
    have hentries := Table.entries_ofList (hkeys ▸ (c.scopes.getD .empty).distinct)
    refine ⟨himports, ?_⟩
    change List.Forall₂ _ _ (Table.ofList scopes).entries
    rw [hentries]
    exact hscopes
  · intro h
    refine ⟨m.imports, h.imports, m.scopes.entries, h.scopes, ?_⟩
    rw [Table.ofList_entries]
    rfl

/-- What is wrong with an import map is wrong with one of its targets. -/
theorem exists_of_importMap_eq_error {c : ProjectConfig} {url : String} {p : Url.Problem}
    (h : c.importMap url = .error p) : ∃ target ∈ c.targets, Url.join url target = .error p := by
  rw [importMap, Action.bind_eq_error_iff] at h
  rcases h with h | ⟨imports, -, h⟩
  · obtain ⟨target, hmem, hjoin⟩ := exists_of_resolveMapping_eq_error h
    exact ⟨target, List.mem_append_left _ hmem, hjoin⟩
  · rcases Action.bind_eq_error_iff.1 h with h | ⟨scopes, -, h⟩
    · obtain ⟨s, hs, hscope⟩ := Action.exists_of_mapM_eq_error h
      obtain ⟨target, hmem, hjoin⟩ :=
        exists_of_resolveMapping_eq_error (Action.eq_error_of_map hscope)
      exact ⟨target, List.mem_append_right _ (List.mem_flatMap.2 ⟨s, hs, hmem⟩), hjoin⟩
    · cases h

/-- The import map can be seen from a URL exactly if each of its targets can. -/
theorem exists_importMap_iff {c : ProjectConfig} {url : String} :
    (∃ m, c.importMap url = .ok m) ↔ ∀ target ∈ c.targets, ∃ u, Url.join url target = .ok u := by
  constructor
  · rintro ⟨m, hm⟩ target htarget
    have hjoined := importMap_eq_ok_iff.1 hm
    rcases List.mem_append.1 htarget with htarget | htarget
    · obtain ⟨e, he, rfl⟩ := List.mem_map.1 htarget
      obtain ⟨e', -, -, hjoin⟩ := exists_of_forall₂ hjoined.imports he
      exact ⟨e'.2, hjoin⟩
    · obtain ⟨s, hs, htarget⟩ := List.mem_flatMap.1 htarget
      obtain ⟨s', -, -, hscope⟩ := exists_of_forall₂ hjoined.scopes hs
      obtain ⟨e, he, rfl⟩ := List.mem_map.1 htarget
      obtain ⟨e', -, -, hjoin⟩ := exists_of_forall₂ hscope he
      exact ⟨e'.2, hjoin⟩
  · intro hall
    cases hm : c.importMap url with
    | ok m => exact ⟨m, rfl⟩
    | error p =>
      obtain ⟨target, htarget, hjoin⟩ := exists_of_importMap_eq_error hm
      obtain ⟨u, hu⟩ := hall target htarget
      rw [hjoin] at hu
      cases hu

end ProjectConfig

end ModuleGraph
