import ModuleGraph.Proofs.Loading.Importers
/-!
# The graph that loads run over

Where each URL has one answer for good, the modules make a graph: a text asks for targets and
libraries, and these name URLs. Whatever the order in which tasks advance, they stay on the part of
the graph that is reachable from the entries.

Results:
* `Run.known`: every task was asked for an entry, or for what a reachable text asks for;
* `Run.claimed_of_contains`: a path that is taken is claimed, or its file was added;
* `Run.reach_of_claimed`, `Run.fetch_of_drafted`: what is claimed is reachable, and what is
  taken into a draft is the text of the module that was claimed;
* `Run.drafted_of_finished`: a module that can be fetched is, if its path is claimed.
-/

namespace ModuleGraph

namespace Rewrite

/-- The text under `path` asks for `r`, by a directive or by a specifier. -/
def Asks (path text : String) (r : Request) : Prop :=
  r ∈ directives text ∨ ∃ rs, specifiers (Utf8.encode text)
    (Syntax.parse (.ofFileName path) text) = .ok rs ∧ r ∈ rs

theorem asks_iff_of_requests {path text : String} {rs : List Request}
    (h : requests path text = .ok rs) (r : Request) : Asks path text r ↔ r ∈ rs := by
  obtain ⟨ss, hss, rfl⟩ := (requests_eq_ok_iff ..).1 h
  simp [Asks, hss]

end Rewrite

namespace Loading

variable {σ : Type}

/-- The modules that may be loaded: how names lead to URLs, and what each URL has. -/
structure Graph where
  importMap : ImportMap
  libraryDir : String
  fetch : String → Except Fault Fetch.Source

namespace Graph

/-- The request of the text from `source` leads to the URL. -/
def Names (G : Graph) (source : String) : Request → String → Prop
  | .module t, url => G.importMap.resolve source t.specifier = .ok url
  | .library name, url => Library.primaryUrl G.libraryDir name = .ok url

/-- The URL is an entry, or a text asks for it whose own URL is reachable. -/
inductive Reach (G : Graph) (entries : List String) : String → Prop
  | entry {url : String} (h : url ∈ entries) : Reach G entries url
  | named {url next path : String} {source : Fetch.Source} {r : Request}
      (h : Reach G entries url) (hp : virtualPath url = .ok path)
      (hf : G.fetch url = .ok source) (hr : Rewrite.Asks path source.text r)
      (hn : G.Names source.url r next) : Reach G entries next

/-- The request leads to one of these URLs, if to any. -/
def staysIn (G : Graph) (urls : List String) (source : String) : Request → Bool
  | .module t =>
    match G.importMap.resolve source t.specifier with
    | .ok url => urls.contains url
    | .error _ => true
  | .library name =>
    match Library.primaryUrl G.libraryDir name with
    | .ok url => urls.contains url
    | .error _ => true

/-- Everything that the texts of these URLs ask for is among them. -/
def isClosed (G : Graph) (urls : List String) : Bool :=
  urls.all fun url =>
    match virtualPath url, G.fetch url with
    | .ok path, .ok source =>
      match Rewrite.requests path source.text with
      | .ok rs => rs.all (G.staysIn urls source.url)
      | .error _ => false
    | _, _ => true

theorem Names.mem {G : Graph} {urls : List String} {source url : String} {r : Request}
    (h : G.Names source r url) (hr : G.staysIn urls source r = true) : url ∈ urls := by
  cases r with
  | module t =>
    have heq : G.importMap.resolve source t.specifier = .ok url := h
    unfold staysIn at hr
    dsimp only at hr
    rw [heq] at hr
    exact List.contains_iff_mem.1 hr
  | library name =>
    have heq : Library.primaryUrl G.libraryDir name = .ok url := h
    unfold staysIn at hr
    dsimp only at hr
    rw [heq] at hr
    exact List.contains_iff_mem.1 hr

/-- What is reachable is among URLs that are closed and have the entries. -/
theorem Reach.mem {G : Graph} {entries urls : List String} (hclosed : G.isClosed urls = true)
    (hentries : ∀ url ∈ entries, url ∈ urls) {url : String} (h : G.Reach entries url) :
    url ∈ urls := by
  induction h with
  | entry h => exact hentries _ h
  | @named url next path source r h hp hf hr hn ih =>
    have hurl := List.all_eq_true.1 hclosed url ih
    simp only [hp, hf] at hurl
    cases hrs : Rewrite.requests path source.text with
    | error m => simp [hrs] at hurl
    | ok rs =>
      simp only [hrs] at hurl
      exact hn.mem (List.all_eq_true.1 hurl r ((Rewrite.asks_iff_of_requests hrs r).1 hr))

/-- No two reachable URLs have one path. -/
def Apart (G : Graph) (entries : List String) : Prop :=
  ∀ u v path, G.Reach entries u → G.Reach entries v → virtualPath u = .ok path →
    virtualPath v = .ok path → u = v

/-- Libraries that are asked for come from the library directory. -/
def HasLibraries (G : Graph) (entries : List String) : Prop :=
  ∀ u path source name url file, G.Reach entries u → virtualPath u = .ok path →
    G.fetch u = .ok source → Rewrite.Asks path source.text (.library name) →
    Library.primaryUrl G.libraryDir name = .ok url → virtualPath url = .ok file →
    ∃ text, G.fetch url = .ok text

/-- A task over the graph was asked for an entry, or for what a reachable text asks for. A library
that is an entry comes from the library directory. -/
inductive Known (G : Graph) (entries : List String) : Demand → Prop
  | entry {url : String} (h : url ∈ entries) : Known G entries (.module url url)
  | library {name : String} (h : ∀ url path, Library.primaryUrl G.libraryDir name = .ok url →
      virtualPath url = .ok path → url ∈ entries ∧ ∃ source, G.fetch url = .ok source) :
      Known G entries (.library name)
  | asked {url path : String} {source : Fetch.Source} {r : Request} (h : G.Reach entries url)
      (hp : virtualPath url = .ok path) (hf : G.fetch url = .ok source)
      (hr : Rewrite.Asks path source.text r) : Known G entries (State.demandOf source.url r)

end Graph

/-- The graph of a setting in which each URL has one answer for good. -/
def Setting.graph (c : Setting σ) (fetch : String → Except Fault Fetch.Source) : Graph :=
  ⟨c.importMap, c.libraryDir, fetch⟩

/-- Each URL has one answer, whatever the world. -/
def Setting.Answers (c : Setting σ) (fetch : String → Except Fault Fetch.Source) : Prop :=
  ∀ url w, (c.fetch url w).1 = fetch url

/-- The move advances a task, or asks for an entry under its own path. -/
def Move.AsksFor (entries : List String) : Move → Prop
  | .step _ => True
  | .ask d => ∃ url ∈ entries, d = .module url url
  | .add .. => False

instance (entries : List String) : DecidablePred (Move.AsksFor entries)
  | .step _ => inferInstanceAs (Decidable True)
  | .ask d => inferInstanceAs (Decidable (∃ url ∈ entries, d = .module url url))
  | .add .. => inferInstanceAs (Decidable False)

/-- The file that is added is that of the graph, if the graph has one under its path, and it asks for
nothing. -/
def Setting.Brings (_ : Setting σ) (fetch : String → Except Fault Fetch.Source)
    (path text : String) : Prop :=
  ∀ url source, virtualPath url = .ok path → fetch url = .ok source →
    source.text = text ∧ Rewrite.requests path text = .ok []

/-- The move advances a task, asks for what is known, or adds a file of the graph. -/
def Setting.Opens (c : Setting σ) (fetch : String → Except Fault Fetch.Source)
    (entries : List String) : Move → Prop
  | .step _ => True
  | .ask d => (c.graph fetch).Known entries d
  | .add path text => c.Brings fetch path text

theorem Move.AsksFor.opens {c : Setting σ} {fetch : String → Except Fault Fetch.Source}
    {entries : List String} {m : Move} (h : m.AsksFor entries) : c.Opens fetch entries m := by
  cases m with
  | step i => trivial
  | ask d =>
    obtain ⟨url, hurl, rfl⟩ := h
    exact .entry hurl
  | add path text => exact h.elim

section

variable {c : Setting σ} {fetch : String → Except Fault Fetch.Source} {entries : List String}

/-- A known task is after the path of a reachable URL. It has other URLs to try only if they are
not needed. -/
theorem Graph.Known.aim {d : Demand} (h : (c.graph fetch).Known entries d)
    (hlib : (c.graph fetch).HasLibraries entries) {k : Claim} {urls : List String}
    (ha : d.aim c = .ok (k, urls)) : (c.graph fetch).Reach entries k.url ∧
      virtualPath k.url = .ok k.path ∧ (urls = [k.url] ∨ ∃ source, fetch k.url = .ok source) := by
  cases h with
  | @entry url hurl =>
    obtain ⟨rfl, hpath, rfl⟩ := (aimAt_eq_ok_iff ..).1 ha
    exact ⟨.entry hurl, hpath, .inl rfl⟩
  | library hname =>
    obtain ⟨hurl, hpath, -⟩ := (aim_library_eq_ok_iff ..).1 ha
    obtain ⟨hentry, hfetch⟩ := hname k.url k.path hurl hpath
    exact ⟨.entry hentry, hpath, .inr hfetch⟩
  | @asked url path source r hreach hp hf hr =>
    cases r with
    | module t =>
      obtain ⟨hresolve, hpath, rfl⟩ := (aim_target_eq_ok_iff ..).1 ha
      exact ⟨.named hreach hp hf hr hresolve, hpath, .inl rfl⟩
    | library name =>
      obtain ⟨hurl, hpath, -⟩ := (aim_library_eq_ok_iff ..).1 ha
      have hnext : (c.graph fetch).Reach entries k.url :=
        .named (r := .library name) hreach hp hf hr hurl
      exact ⟨hnext, hpath, .inr (hlib url path source name k.url k.path hreach hp hf hr hurl hpath)⟩

end

/-- A task that has no path to claim ends as its demand has it. -/
theorem Chronicle.eq_verdict {c : Setting σ} {world : σ} {s : State σ} {log : List Deed}
    (h : Chronicle c world s log) {j : Nat} {t : Task} {o : Outcome} {e : Fault}
    (ht : s.tasks[j]? = some t) (ho : t.phase = .finished o) (ha : t.demand.aim c = .error e) :
    o = t.demand.verdict e := by
  have hstory := h.stories j t ht
  rw [ho] at hstory
  have haim : ∀ {a}, t.demand.aim c ≠ .ok a := by
    intro a ha'
    rw [ha] at ha'
    cases ha'
  generalize own j log = l at hstory
  cases hstory with
  | refused ha' =>
    rw [ha, Except.error.injEq] at ha'
    rw [ha']
  | answered ha' hs hy => exact absurd ha' haim
  | lost ha' htried hs => exact absurd ha' haim
  | dropped ha' hs => exact absurd ha' haim
  | settled ha' hs hy => exact absurd ha' haim

/-! ## Where tasks come from -/

/-- What a draft has asked for is asked for by its text. -/
theorem State.DraftOk.asks_of_mem {s : State σ} {i : Nat} {k : Claim} {d : Draft}
    (h : s.DraftOk i k d) {demand : Demand} (hd : demand ∈ s.asked i) :
    ∃ r, Rewrite.Asks k.path d.source.text r ∧ demand = State.demandOf d.source.url r := by
  cases hrest : d.rest with
  | some tree =>
    rw [(h.asked_first tree hrest).2, State.firstDemands, List.mem_map] at hd
    obtain ⟨r, hr, rfl⟩ := hd
    exact ⟨r, .inl hr, rfl⟩
  | none =>
    obtain ⟨rs, hrs, hasked⟩ := h.asked_all hrest
    rw [hasked, List.mem_map] at hd
    obtain ⟨r, hr, rfl⟩ := hd
    exact ⟨r, (Rewrite.asks_iff_of_requests hrs r).2 hr, rfl⟩

theorem mem_asked {s : State σ} {j i : Nat} {t : Task} (ht : s.tasks[j]? = some t)
    (hp : t.parent = some i) : t.demand ∈ s.asked i :=
  List.mem_filterMap.2 ⟨t, List.mem_of_getElem? ht, if_pos hp⟩

/-- Every task was asked for from outside, or the text asks for it that the task which has asked
took into a draft. -/
theorem Reached.origin {c : Setting σ} {world : σ} {allowed : Move → Prop} {s : State σ}
    {log : List Deed} (h : Reached c world allowed s log) {j : Nat} {t : Task}
    (ht : s.tasks[j]? = some t) : t.parent = none ∧ allowed (.ask t.demand) ∨
      ∃ p path source r, t.parent = some p ∧ .drafted p path source ∈ log ∧
        Rewrite.Asks path source.text r ∧ t.demand = State.demandOf source.url r := by
  induction h generalizing j t with
  | start => simp [State.start] at ht
  | @move s log m h hm ih =>
    have hold : ∀ {v : Task}, s.tasks[j]? = some v → t.parent = v.parent → t.demand = v.demand →
        t.parent = none ∧ allowed (.ask t.demand) ∨ ∃ p path source r, t.parent = some p ∧
          .drafted p path source ∈ log ++ s.moveDeeds c m ∧ Rewrite.Asks path source.text r ∧
          t.demand = State.demandOf source.url r := by
      intro v hv hpar hd
      rw [hpar, hd]
      rcases ih hv with hroot | ⟨p, path, source, r, hp, hdrafted, hr, hdemand⟩
      · exact .inl hroot
      · exact .inr ⟨p, path, source, r, hp, List.mem_append_left _ hdrafted, hr, hdemand⟩
    cases m with
    | add path text =>
      rw [State.tasks_add] at ht
      exact hold ht rfl rfl
    | ask d =>
      rcases State.tasks_of_ask ht with ht' | ⟨-, rfl⟩
      · exact hold ht' rfl rfl
      · exact .inl ⟨rfl, hm⟩
    | step i =>
      have hturn := s.step_turn c i
      have hnext : Reached c world allowed (s.move c (.step i)) (log ++ s.moveDeeds c (.step i)) :=
        h.move hm
      rcases hturn.origin ht with ⟨v, hv, hpar, hd, -⟩ | ⟨hle, -, hpar⟩
      · exact hold hv hpar hd
      · -- The task that advances has asked for it, and has a draft.
        have hlt := (List.getElem?_eq_some_iff.1 ht).1
        obtain ⟨u, k, d, hu, hphase⟩ :=
          State.Family.rewriting_of_asking hturn (Nat.lt_of_le_of_lt hle hlt)
        have hdraft := hnext.family.drafts i k d
          (by rw [State.move, State.phase?_of_tasks hu, hphase])
        obtain ⟨r, hr, hdemand⟩ := hdraft.asks_of_mem (mem_asked ht hpar)
        exact .inr ⟨i, k.path, d.source, r, hpar, hnext.chronicle.drafted_of_rewriting hu hphase, hr,
          hdemand⟩

/-- A story in which a text is taken into a draft begins with the way to this draft. -/
theorem Story.drafting_of_mem {c : Setting σ} {store : ModuleStore} {i : Nat} {d : Demand}
    {p : Phase} {ds : List Deed} (h : Story c store i d p ds) {path : String}
    {source : Fetch.Source} (hd : .drafted i path source ∈ ds) :
    ∃ (k : Claim) (tried : List (String × Fault)) (url : String) (urls : List String)
      (rest : List Deed), d.aim c = .ok (k, tried.map Prod.fst ++ url :: urls) ∧ k.path = path ∧
      ds = drafting i k (tried.map Prod.fst ++ url :: urls) tried url source ++ rest := by
  cases h with
  | ready => cases hd
  | refused ha => cases hd
  | answered ha hs ho => cases hd
  | fetching ha hurls hs => simp [opening] at hd
  | lost ha htried hs => simp [opening] at hd
  | rewriting ha hs =>
    obtain ⟨rfl, rfl⟩ := drafted_mem_drafting_iff.1 hd
    exact ⟨_, _, _, _, [], ha, rfl, (List.append_nil _).symm⟩
  | dropped ha hs =>
    obtain ⟨rfl, rfl⟩ := drafted_mem_drafting_iff.1 hd
    exact ⟨_, _, _, _, [], ha, rfl, (List.append_nil _).symm⟩
  | settled ha hs ho =>
    rw [List.mem_append, drafted_mem_drafting_iff] at hd
    obtain ⟨rfl, rfl⟩ := hd.resolve_right (by simp)
    exact ⟨_, _, _, _, _, ha, rfl, rfl⟩

/-- What is taken into a draft is the text of a URL that the task has claimed its path for, and the
URLs before that one have none. -/
theorem Chronicle.fetched_of_drafted {c : Setting σ} {world : σ} {s : State σ} {log : List Deed}
    (h : Chronicle c world s log) {i : Nat} {t : Task} {path : String} {source : Fetch.Source}
    (ht : s.tasks[i]? = some t) (hd : .drafted i path source ∈ log) :
    ∃ (k : Claim) (tried : List (String × Fault)) (url : String) (urls : List String),
      t.demand.aim c = .ok (k, tried.map Prod.fst ++ url :: urls) ∧ k.path = path ∧
      .claimed i k (tried.map Prod.fst ++ url :: urls) ∈ log ∧
      (∀ x ∈ tried, .fetched i path x.1 (.error x.2) ∈ log) ∧
      .fetched i path url (.ok source) ∈ log := by
  obtain ⟨k, tried, url, urls, rest, ha, rfl, hlog⟩ :=
    (h.stories i t ht).drafting_of_mem (mem_own.2 ⟨hd, rfl⟩)
  have hmem : ∀ {x}, x ∈ drafting i k (tried.map Prod.fst ++ url :: urls) tried url source →
      x ∈ log := fun hx => (mem_own.1 (hlog ▸ List.mem_append_left _ hx)).1
  refine ⟨k, tried, url, urls, ha, rfl, hmem ?_, fun x hx => hmem ?_, hmem ?_⟩
  · simp [drafting, opening]
  · simp [drafting, opening, hx]
  · simp [drafting]

/-- Where the tasks of a state come from, and the deeds that led to it. -/
structure Traced (c : Setting σ) (fetch : String → Except Fault Fetch.Source)
    (entries : List String) (s : State σ) (log : List Deed) : Prop where
  roots : ∀ (j : Nat) (t : Task), s.tasks[j]? = some t → t.parent = none →
    (c.graph fetch).Known entries t.demand
  askers : ∀ (j p : Nat) (t : Task), s.tasks[j]? = some t → t.parent = some p →
    ∃ path source r, .drafted p path source ∈ log ∧ Rewrite.Asks path source.text r ∧
      t.demand = State.demandOf source.url r
  actors : ∀ d ∈ log, (∃ i, d.place? = some i) ∨
    ∃ path text, d = .added path text ∧ c.Brings fetch path text

/-- What is done by nobody is that a file is added. -/
theorem Reached.place_or_added {c : Setting σ} {world : σ} {allowed : Move → Prop} {s : State σ}
    {log : List Deed} (h : Reached c world allowed s log) {d : Deed} (hd : d ∈ log) :
    (∃ i, d.place? = some i) ∨ ∃ path text, d = .added path text ∧ allowed (.add path text) := by
  induction h with
  | start => cases hd
  | @move s log m h hm ih =>
    rcases List.mem_append.1 hd with hd | hd
    · exact ih hd
    · cases m with
      | add path text =>
        rw [State.moveDeeds] at hd
        split at hd
        · cases hd
        · exact .inr ⟨path, text, List.mem_singleton.1 hd, hm⟩
      | ask d => cases hd
      | step i => exact .inl ⟨i, (s.step_turn c i).place d hd⟩

/-- What moves of one kind reach is reached by moves of a wider kind. -/
theorem Reached.mono {c : Setting σ} {world : σ} {allowed allowed' : Move → Prop} {s : State σ}
    {log : List Deed} (h : Reached c world allowed s log) (hm : ∀ m, allowed m → allowed' m) :
    Reached c world allowed' s log := by
  induction h with
  | start => exact .start
  | move _ hm' ih => exact ih.move (hm _ hm')

/-- Every state that is reached by asking for what is known can be traced. -/
theorem Reached.traced {c : Setting σ} {world : σ} {fetch : String → Except Fault Fetch.Source}
    {entries : List String} {s : State σ} {log : List Deed}
    (h : Reached c world (c.Opens fetch entries) s log) : Traced c fetch entries s log where
  roots := by
    intro j t ht hp
    rcases h.origin ht with ⟨-, hm⟩ | ⟨p, -, -, -, hp', -⟩
    · exact hm
    · rw [hp] at hp'
      cases hp'
  askers := by
    intro j p t ht hp
    rcases h.origin ht with ⟨hp', -⟩ | ⟨p', path, source, r, hp', hdrafted, hr, hd⟩
    · rw [hp] at hp'
      cases hp'
    · rw [hp, Option.some.injEq] at hp'
      exact ⟨path, source, r, hp' ▸ hdrafted, hr, hd⟩
  actors := fun _ => h.place_or_added

/-! ## Runs over a graph -/

/-- A run that asks for what is known, where each URL has one answer for good. -/
structure Run (c : Setting σ) (fetch : String → Except Fault Fetch.Source) (entries : List String)
    (world : σ) (s : State σ) (log : List Deed) : Prop where
  reached : Reached c world (c.Opens fetch entries) s log
  answers : c.Answers fetch
  libraries : (c.graph fetch).HasLibraries entries

/-- The URLs that were tried in vain before the text was found are none, if the first one is the
only one or has the text. -/
theorem eq_first_of_tried {fetch : String → Except Fault Fetch.Source}
    {tried : List (String × Fault)} {first url : String} {urls fallbacks : List String}
    (htried : ∀ x ∈ tried, fetch x.1 = .error x.2)
    (hall : tried.map Prod.fst ++ url :: urls = first :: fallbacks)
    (hone : tried.map Prod.fst ++ url :: urls = [first] ∨ ∃ source, fetch first = .ok source) :
    url = first := by
  cases tried with
  | nil =>
    rw [List.map_nil, List.nil_append, List.cons.injEq] at hall
    exact hall.1
  | cons x tried =>
    rw [List.map_cons, List.cons_append, List.cons.injEq] at hall
    rcases hone with hone | ⟨source, hsource⟩
    · simp at hone
    · rw [← hall.1, htried x List.mem_cons_self] at hsource
      cases hsource

namespace Run

variable {c : Setting σ} {fetch : String → Except Fault Fetch.Source} {entries : List String}
  {world : σ} {s : State σ} {log : List Deed}

theorem chronicle (h : Run c fetch entries world s log) : Chronicle c world s log :=
  h.reached.chronicle

theorem fetch_of_mem (h : Run c fetch entries world s log) {i : Nat} {path url : String}
    {r : Except Fault Fetch.Source} (hr : .fetched i path url r ∈ log) : fetch url = r := by
  obtain ⟨w, hw⟩ := h.chronicle.replies i path url r hr
  rw [← h.answers url w, hw]

/-- What a known task takes into a draft is the text of the module that it has claimed. -/
theorem claimed_of_drafted (h : Run c fetch entries world s log) {i : Nat} {t : Task}
    {path : String} {source : Fetch.Source} (ht : s.tasks[i]? = some t)
    (hk : (c.graph fetch).Known entries t.demand) (hd : .drafted i path source ∈ log) :
    ∃ k urls, t.demand.aim c = .ok (k, urls) ∧ .claimed i k urls ∈ log ∧ k.path = path ∧
      .fetched i path k.url (.ok source) ∈ log := by
  obtain ⟨k, tried, url, urls, ha, hpath, hclaimed, htried, hfetched⟩ :=
    h.chronicle.fetched_of_drafted ht hd
  obtain ⟨fallbacks, hall, -⟩ := Demand.aim_urls ha
  have hurl : url = k.url :=
    eq_first_of_tried (fun x hx => h.fetch_of_mem (htried x hx)) hall (hk.aim h.libraries ha).2.2
  exact ⟨k, _, ha, hclaimed, hpath, hurl ▸ hfetched⟩

/-- Every task was asked for an entry, or for what a reachable text asks for. -/
theorem known (h : Run c fetch entries world s log) {j : Nat} {t : Task}
    (ht : s.tasks[j]? = some t) : (c.graph fetch).Known entries t.demand := by
  induction j using Nat.strong_induction_on generalizing t with
  | _ j ih =>
    cases hp : t.parent with
    | none => exact h.reached.traced.roots j t ht hp
    | some p =>
      obtain ⟨path, source, r, hdrafted, hr, hd⟩ := h.reached.traced.askers j p t ht hp
      obtain ⟨hlt, u, hu, -⟩ := h.reached.family.elder j p t ht hp
      have hk := ih p hlt hu
      obtain ⟨k, urls, ha, -, rfl, hfetched⟩ := h.claimed_of_drafted hu hk hdrafted
      obtain ⟨hreach, hpath, -⟩ := hk.aim h.libraries ha
      rw [hd]
      exact .asked hreach hpath (h.fetch_of_mem hfetched) hr

/-- What is claimed is reachable. -/
theorem reach_of_claimed (h : Run c fetch entries world s log) {i : Nat} {k : Claim}
    {urls : List String} (hk : .claimed i k urls ∈ log) :
    (c.graph fetch).Reach entries k.url ∧ virtualPath k.url = .ok k.path := by
  obtain ⟨t, k', urls', ht, ha, hk', hpath⟩ := h.chronicle.claim hk rfl
  obtain ⟨-, rfl, -⟩ := h.chronicle.claim_unique hk hk' hpath
  obtain ⟨hreach, hp, -⟩ := (h.known ht).aim h.libraries ha
  exact ⟨hreach, hp⟩

/-- What is taken into a draft was fetched from the URL that was claimed. -/
theorem fetched_of_drafted (h : Run c fetch entries world s log) {i : Nat} {k : Claim}
    {urls : List String} {path : String} {source : Fetch.Source} (hk : .claimed i k urls ∈ log)
    (hd : .drafted i path source ∈ log) :
    k.path = path ∧ .fetched i path k.url (.ok source) ∈ log := by
  obtain ⟨t, _, _, ht, _⟩ := h.chronicle.claim hk rfl
  obtain ⟨k', urls', ha, hk', rfl, hfetched⟩ := h.claimed_of_drafted ht (h.known ht) hd
  have hown := mem_own.2 ⟨hk, rfl⟩
  obtain ⟨k₀, urls₀, -, ha₀, hpath⟩ := (h.chronicle.stories i t ht).claim hown
  rw [ha, Except.ok.injEq, Prod.mk.injEq] at ha₀
  obtain ⟨-, rfl, -⟩ := h.chronicle.claim_unique hk hk' (by rw [ha₀.1]; exact hpath)
  exact ⟨rfl, hfetched⟩

/-- What is taken into a draft is the text of the module that was claimed. -/
theorem fetch_of_drafted (h : Run c fetch entries world s log) {i : Nat} {k : Claim}
    {urls : List String} {path : String} {source : Fetch.Source} (hk : .claimed i k urls ∈ log)
    (hd : .drafted i path source ∈ log) : k.path = path ∧ fetch k.url = .ok source :=
  (h.fetched_of_drafted hk hd).imp_right h.fetch_of_mem

/-- A path that is taken is claimed, or its file was added. -/
theorem claimed_of_contains (h : Run c fetch entries world s log) {path : String}
    (hp : s.store.contains path = true) :
    (∃ i k urls, .claimed i k urls ∈ log ∧ k.path = path) ∨ ∃ text, .added path text ∈ log := by
  rw [ModuleStore.contains_iff_mem, ← h.chronicle.taken, List.mem_filterMap] at hp
  obtain ⟨x, hx, hpath⟩ := hp
  cases x with
  | claimed i k urls => exact .inl ⟨i, k, urls, hx, by simpa [Deed.taken?] using hpath⟩
  | added p text =>
    obtain rfl : p = path := by simpa [Deed.taken?] using hpath
    exact .inr ⟨text, hx⟩
  | fetched i p url r => cases hpath
  | drafted i p source => cases hpath
  | filled i p text => cases hpath

/-- A file that was added is that of the graph. -/
theorem brings_of_added (h : Run c fetch entries world s log) {path text : String}
    (ha : .added path text ∈ log) : c.Brings fetch path text := by
  rcases h.reached.traced.actors _ ha with ⟨i, hi⟩ | ⟨p, t, heq, hbrings⟩
  · cases hi
  · cases heq
    exact hbrings

/-- The path that a task is after is taken once the task has ended. -/
theorem contains_of_finished (h : Run c fetch entries world s log) {j : Nat} {t : Task}
    {o : Outcome} {k : Claim} {urls : List String} (ht : s.tasks[j]? = some t)
    (ho : t.phase = .finished o) (ha : t.demand.aim c = .ok (k, urls)) :
    s.store.contains k.path = true := by
  have hstory := h.chronicle.stories j t ht
  rw [ho] at hstory
  have haim : ∀ {k' urls'}, t.demand.aim c = .ok (k', urls') → k' = k := by
    intro k' urls' ha'
    rw [ha, Except.ok.injEq, Prod.mk.injEq] at ha'
    exact ha'.1.symm
  generalize own j log = l at hstory
  cases hstory with
  | refused ha' =>
    rw [ha] at ha'
    cases ha'
  | answered ha' hs hy => exact haim ha' ▸ hs
  | lost ha' htried hs => exact haim ha' ▸ ModuleStore.contains_of_text? hs
  | dropped ha' hs => exact haim ha' ▸ ModuleStore.contains_of_text? hs
  | settled ha' hs hy => exact haim ha' ▸ ModuleStore.contains_of_text? hs

/-- A module that can be fetched is, once the task that has claimed its path has ended. -/
theorem drafted_of_finished (h : Run c fetch entries world s log) {i : Nat} {t : Task}
    {o : Outcome} {k : Claim} {urls : List String} {source : Fetch.Source}
    (hk : .claimed i k urls ∈ log) (ht : s.tasks[i]? = some t) (ho : t.phase = .finished o)
    (hf : fetch k.url = .ok source) : .drafted i k.path source ∈ log := by
  have hstory := h.chronicle.stories i t ht
  rw [ho] at hstory
  have hown := mem_own.2 ⟨hk, rfl⟩
  have hmem : ∀ {x}, x ∈ own i log → x ∈ log := fun hx => (mem_own.1 hx).1
  have hdrafted : ∀ {path source'}, .drafted i path source' ∈ log →
      .drafted i k.path source ∈ log := by
    intro path source' hd
    obtain ⟨rfl, hf'⟩ := h.fetch_of_drafted hk hd
    rw [hf, Except.ok.injEq] at hf'
    exact hf' ▸ hd
  generalize own i log = l at hstory hown hmem
  cases hstory with
  | refused ha => cases hown
  | answered ha hs hy => cases hown
  | @lost k' tried urls' cause ha htried hs =>
    obtain ⟨fallbacks, hall, -⟩ := Demand.aim_urls ha
    cases tried with
    | nil => exact absurd rfl htried
    | cons x tried =>
      have hx := h.fetch_of_mem (hmem (List.mem_cons_of_mem _ List.mem_cons_self))
      rw [List.map_cons, List.cons_append, List.cons.injEq] at hall
      simp only [opening, List.mem_cons, Deed.claimed.injEq, true_and, List.map_cons, reduceCtorEq,
        List.mem_map, and_false, exists_false, or_false] at hown
      rw [hall.1, ← hown.1, hf] at hx
      cases hx
  | dropped ha hs => exact hdrafted (hmem (drafted_mem_drafting_iff.2 ⟨rfl, rfl⟩))
  | settled ha hs hy =>
    exact hdrafted (hmem (List.mem_append_left _ (drafted_mem_drafting_iff.2 ⟨rfl, rfl⟩)))

end Run

end Loading

end ModuleGraph
