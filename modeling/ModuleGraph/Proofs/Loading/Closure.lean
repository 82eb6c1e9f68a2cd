import ModuleGraph.Proofs.Loading.Graph
/-!
# Loading a whole graph

Once every task has ended and no file was given up while it was rewritten, the paths in the store
are those of the reachable URLs. What such a run shows of the files, that all edits of a file can
be made, does not depend on the run.

Results:
* `Run.finished`: every task has ended once those have that somebody outside has asked for;
* `Run.contains_iff`: the store has the paths of the reachable URLs and of added files, and no other;
* `Run.planned_text`: the text under a path is the fetched text with all planned edits;
* `Run.plans`: where one run has loaded everything, every file has a plan.
-/

namespace ModuleGraph.Loading

variable {σ : Type}

theorem Task.isSome_outcome?_iff (t : Task) :
    t.outcome?.isSome = true ↔ ∃ o, t.phase = .finished o := by
  unfold outcome?
  cases t.phase <;> simp

theorem Task.outcome?_eq_some_iff (t : Task) (o : Outcome) :
    t.outcome? = some o ↔ t.phase = .finished o := by
  unfold outcome?
  cases t.phase <;> simp

/-- The fault of some tasks is that of one of them. -/
theorem State.failed_of_failure? {s : State σ} {places : List Nat} {e : Fault}
    (h : s.failure? places = some e) :
    ∃ i ∈ places, ∃ t, s.tasks[i]? = some t ∧ t.phase = .finished (.failed e) := by
  obtain ⟨i, hi, hfailed⟩ := List.exists_of_findSome?_eq_some h
  refine ⟨i, hi, ?_⟩
  cases ho : s.outcome? i with
  | none => simp [ho] at hfailed
  | some o =>
    obtain ⟨t, ht, hto⟩ := Option.bind_eq_some_iff.1 ho
    cases o with
    | loaded path => simp [ho] at hfailed
    | reported => simp [ho] at hfailed
    | failed f =>
      simp only [ho, Option.some.injEq] at hfailed
      exact ⟨t, ht, hfailed ▸ (t.outcome?_eq_some_iff _).1 hto⟩

namespace State

/-- No file was given up while it was rewritten: a task that has taken a text into a draft and has
ended has filled its path. -/
def Unraised (s : State σ) (log : List Deed) : Prop :=
  ∀ (i : Nat) (t : Task) (o : Outcome) (path : String) (source : Fetch.Source),
    .drafted i path source ∈ log → s.tasks[i]? = some t → t.phase = .finished o →
    ∃ text, .filled i path text ∈ log

/-- The log shows that no file was given up while it was rewritten. -/
def isUnraised (s : State σ) (log : List Deed) : Bool :=
  log.all fun
    | .drafted i path _ => (s.outcome? i).isNone || log.any fun
      | .filled j p _ => j = i && p = path
      | _ => false
    | _ => true

theorem unraised_of_isUnraised {s : State σ} {log : List Deed} (h : s.isUnraised log = true) :
    s.Unraised log := by
  intro i t o path source hd ht ho
  have hd' := List.all_eq_true.1 h _ hd
  have hsome : (s.outcome? i).isNone = false := by
    rw [outcome?, ht, Option.bind_some, Task.outcome?, ho]
    rfl
  simp only [hsome, Bool.false_or, List.any_eq_true] at hd'
  obtain ⟨x, hx, hfilled⟩ := hd'
  cases x with
  | filled j p text =>
    simp only [Bool.and_eq_true, decide_eq_true_eq] at hfilled
    obtain ⟨rfl, rfl⟩ := hfilled
    exact ⟨text, hx⟩
  | claimed j k urls => cases hfilled
  | fetched j p url r => cases hfilled
  | drafted j p source' => cases hfilled
  | added p text => cases hfilled

/-- Every load that somebody outside has asked for has ended. -/
def RootsFinished (s : State σ) : Prop :=
  ∀ t ∈ s.tasks, t.parent = none → t.outcome?.isSome = true

/-- Every task has ended. -/
def AllFinished (s : State σ) : Prop :=
  ∀ (j : Nat) (t : Task), s.tasks[j]? = some t → ∃ o, t.phase = .finished o

/-- All entries have been asked for. -/
def HasAsked (s : State σ) (entries : List String) : Prop :=
  ∀ url ∈ entries, ∃ (j : Nat) (t : Task), s.tasks[j]? = some t ∧ t.demand = .module url url

/-- Some task is after the path of each entry. -/
def Seeks (c : Setting σ) (s : State σ) (entries : List String) : Prop :=
  ∀ url ∈ entries, ∀ path, virtualPath url = .ok path → ∃ (j : Nat) (t : Task) (k : Claim)
    (urls : List String), s.tasks[j]? = some t ∧ t.demand.aim c = .ok (k, urls) ∧ k.path = path

theorem HasAsked.seeks {s : State σ} {entries : List String} (h : s.HasAsked entries)
    (c : Setting σ) : s.Seeks c entries := by
  intro url hurl path hp
  obtain ⟨j, t, ht, hd⟩ := h url hurl
  refine ⟨j, t, ⟨url, path⟩, [url], ht, ?_, rfl⟩
  rw [hd]
  exact (aimAt_eq_ok_iff ..).2 ⟨rfl, hp, rfl⟩

/-- The path has a text. -/
def IsSettled (s : State σ) (path : String) : Prop := ∃ text, s.store.text? path = some (some text)

end State

/-- The paths of all reachable URLs have texts. -/
def Setting.Loaded (c : Setting σ) (fetch : String → Except Fault Fetch.Source)
    (entries : List String) (s : State σ) : Prop :=
  ∀ url path, (c.graph fetch).Reach entries url → virtualPath url = .ok path → s.IsSettled path

/-- Everything that a reachable text asks for can be written into it. -/
def Setting.Plans (c : Setting σ) (fetch : String → Except Fault Fetch.Source)
    (entries : List String) : Prop :=
  ∀ url path source, (c.graph fetch).Reach entries url → virtualPath url = .ok path →
    fetch url = .ok source → ∃ rs, Rewrite.requests path source.text = .ok rs ∧
      Rewrite.Plan c.importMap c.libraryDir c.bundledDir source.url source.text rs

namespace Run

variable {c : Setting σ} {fetch : String → Except Fault Fetch.Source} {entries : List String}
  {world : σ} {s : State σ} {log : List Deed}

/-! ## The tasks of a whole run -/

/-- What was asked for by a task that has ended is done. -/
theorem done_of_parent (h : Run c fetch entries world s log) (hs : s.Unraised log) {j p : Nat}
    {t u : Task} {o : Outcome} (ht : s.tasks[j]? = some t) (hp : t.parent = some p)
    (hu : s.tasks[p]? = some u) (ho : u.phase = .finished o) : t.Done := by
  obtain ⟨path, source, r, hdrafted, -, -⟩ := h.reached.traced.askers j p t ht hp
  obtain ⟨text, hfilled⟩ := hs p u o path source hdrafted hu ho
  obtain ⟨_, -, hmade⟩ := h.reached.family.made p path text hfilled
  exact hmade.done j t ht hp

/-- Every task has ended once those have that somebody outside has asked for. -/
theorem finished (h : Run c fetch entries world s log) (hs : s.Unraised log)
    (hroots : s.RootsFinished) : s.AllFinished := by
  intro j
  induction j using Nat.strong_induction_on with
  | _ j ih =>
    intro t ht
    cases hp : t.parent with
    | none => exact t.isSome_outcome?_iff.1 (hroots t (List.mem_of_getElem? ht) hp)
    | some p =>
      obtain ⟨hlt, u, hu, -⟩ := h.reached.family.elder j p t ht hp
      obtain ⟨o, ho⟩ := ih p hlt u hu
      obtain ⟨o', ho', -⟩ := h.done_of_parent hs ht hp hu ho
      exact ⟨o', ho'⟩

/-! ## The file of a reachable URL -/

/-- The file of a URL is made of the text that the URL has. -/
theorem made_of_filled (h : Run c fetch entries world s log)
    (hapart : (c.graph fetch).Apart entries) {i : Nat} {url path text : String}
    {source : Fetch.Source} (hfilled : .filled i path text ∈ log)
    (hreach : (c.graph fetch).Reach entries url) (hp : virtualPath url = .ok path)
    (hf : fetch url = .ok source) : s.Made i path source text := by
  obtain ⟨t, k, urls, ht, ha, hk, hpath⟩ := h.chronicle.claim hfilled rfl
  obtain ⟨hreach', hp'⟩ := h.reach_of_claimed hk
  have hkp : path = k.path := hpath
  have hurl : k.url = url := hapart k.url url path hreach' hreach (hkp ▸ hp') hp
  obtain ⟨source', hdrafted, hmade⟩ := h.reached.family.made i path text hfilled
  obtain ⟨-, hf'⟩ := h.fetch_of_drafted hk hdrafted
  rw [hurl, hf, Except.ok.injEq] at hf'
  exact hf' ▸ hmade

/-- A path that is taken gets its text if the module can be fetched, unless its file was added. -/
theorem filled_of_contains (h : Run c fetch entries world s log)
    (hapart : (c.graph fetch).Apart entries) (hs : s.Unraised log) (hall : s.AllFinished)
    {url path : String} {source : Fetch.Source} (hreach : (c.graph fetch).Reach entries url)
    (hp : virtualPath url = .ok path) (hf : fetch url = .ok source)
    (hc : s.store.contains path = true) :
    (∃ i text, .filled i path text ∈ log) ∨ ∃ text, .added path text ∈ log := by
  refine (h.claimed_of_contains hc).imp_left ?_
  rintro ⟨i, k, urls, hk, rfl⟩
  obtain ⟨hreach', hp'⟩ := h.reach_of_claimed hk
  have hurl : k.url = url := hapart k.url url k.path hreach' hreach hp' hp
  obtain ⟨t, _, _, ht, _⟩ := h.chronicle.claim hk rfl
  obtain ⟨o, ho⟩ := hall i t ht
  have hdrafted := h.drafted_of_finished hk ht ho (hurl ▸ hf)
  obtain ⟨text, hfilled⟩ := hs i t o k.path source hdrafted ht ho
  exact ⟨i, text, hfilled⟩

/-! ## The paths in the store -/

/-- A library that was asked for with success has URLs. -/
theorem hasUrls_of_done (h : Run c fetch entries world s log) {j : Nat} {t : Task} {name : String}
    (ht : s.tasks[j]? = some t) (hdone : t.Done) (hd : t.demand = .library name) :
    Rewrite.HasUrls c.libraryDir c.bundledDir name := by
  obtain ⟨o, ho, hne⟩ := hdone
  -- A task without them fails with a fault that the importer does not survive.
  have hrefused : ∀ p, (Demand.library name).aim c ≠ .error (.foreign (.ofUrl p)) := by
    intro p ha
    have hverdict := h.chronicle.eq_verdict ht ho (hd ▸ ha)
    rw [hd] at hverdict
    exact hne _ hverdict
  unfold Demand.aim at hrefused
  dsimp only at hrefused
  cases hurl : Library.primaryUrl c.libraryDir name with
  | error p =>
    rw [hurl] at hrefused
    exact absurd rfl (hrefused p)
  | ok url =>
    cases hfallback : Library.fallbackUrl c.bundledDir name with
    | error p =>
      rw [hurl, hfallback] at hrefused
      exact absurd rfl (hrefused p)
    | ok fallback => exact ⟨url, fallback, hurl, hfallback⟩

/-- What a task is after that was asked for a request is the URL that the request leads to. -/
theorem contains_of_done (h : Run c fetch entries world s log) {j : Nat} {t : Task}
    {source url path : String} {r : Request} (ht : s.tasks[j]? = some t) (hdone : t.Done)
    (hr : t.demand = State.demandOf source r) (hn : (c.graph fetch).Names source r url)
    (hp : virtualPath url = .ok path) : s.store.contains path = true := by
  obtain ⟨o, ho, -⟩ := id hdone
  cases r with
  | module target =>
    have ha : t.demand.aim c = .ok (⟨url, path⟩, [url]) := by
      rw [hr]
      exact (aim_target_eq_ok_iff ..).2 ⟨hn, hp, rfl⟩
    exact h.contains_of_finished ht ho ha
  | library name =>
    obtain ⟨url', fallback, hurl, hfallback⟩ := h.hasUrls_of_done ht hdone hr
    have ha : t.demand.aim c = .ok (⟨url, path⟩, [url, fallback]) := by
      rw [hr]
      exact (aim_library_eq_ok_iff ..).2 ⟨hn, hp, fallback, hfallback, rfl⟩
    exact h.contains_of_finished ht ho ha

/-- The path of every reachable URL is taken. -/
theorem contains_of_reach (h : Run c fetch entries world s log)
    (hapart : (c.graph fetch).Apart entries) (hs : s.Unraised log) (hall : s.AllFinished)
    (hasked : s.Seeks c entries) {url path : String}
    (hreach : (c.graph fetch).Reach entries url) (hp : virtualPath url = .ok path) :
    s.store.contains path = true := by
  induction hreach generalizing path with
  | @entry url hurl =>
    obtain ⟨j, t, k, urls, ht, ha, rfl⟩ := hasked url hurl path hp
    obtain ⟨o, ho⟩ := hall j t ht
    exact h.contains_of_finished ht ho ha
  | @named url next path' source r hreach hp' hf hr hn ih =>
    rcases h.filled_of_contains hapart hs hall hreach hp' hf (ih hp') with
      ⟨i, text, hfilled⟩ | ⟨text, hadded⟩
    swap
    · -- A file that was added asks for nothing.
      obtain ⟨rfl, hrs⟩ := h.brings_of_added hadded url source hp' hf
      exact absurd ((Rewrite.asks_iff_of_requests hrs r).1 hr) List.not_mem_nil
    have hmade := h.made_of_filled hapart hfilled hreach hp' hf
    obtain ⟨rs, hrs, hasked'⟩ := hmade.asked
    have hmem : State.demandOf source.url r ∈ s.asked i := by
      rw [hasked']
      exact List.mem_map_of_mem ((Rewrite.asks_iff_of_requests hrs r).1 hr)
    obtain ⟨t, ht, hd⟩ := List.mem_filterMap.1 hmem
    obtain ⟨j, hj⟩ := List.mem_iff_getElem?.1 ht
    split at hd
    · next hpar =>
      exact h.contains_of_done hj (hmade.done j t hj hpar) (Option.some.inj hd) hn hp
    · cases hd

/-- The store has the paths of the reachable URLs and of the files that were added, and no other. -/
theorem contains_iff (h : Run c fetch entries world s log)
    (hapart : (c.graph fetch).Apart entries) (hs : s.Unraised log) (hall : s.AllFinished)
    (hasked : s.Seeks c entries) (path : String) : s.store.contains path = true ↔
      (∃ url, (c.graph fetch).Reach entries url ∧ virtualPath url = .ok path) ∨
        ∃ text, .added path text ∈ log := by
  constructor
  · refine fun hc => (h.claimed_of_contains hc).imp_left ?_
    rintro ⟨i, k, urls, hk, rfl⟩
    exact ⟨k.url, h.reach_of_claimed hk⟩
  · rintro (⟨url, hreach, hp⟩ | ⟨text, hadded⟩)
    · exact h.contains_of_reach hapart hs hall hasked hreach hp
    · exact ModuleStore.contains_of_text? ((h.chronicle.texts path text).2 (.inl hadded))

/-- The path of a reachable URL has a text if the URL has one. -/
theorem settled_of_reach (h : Run c fetch entries world s log)
    (hapart : (c.graph fetch).Apart entries) (hs : s.Unraised log) (hall : s.AllFinished)
    (hasked : s.Seeks c entries) {url path : String} {source : Fetch.Source}
    (hreach : (c.graph fetch).Reach entries url) (hp : virtualPath url = .ok path)
    (hf : fetch url = .ok source) : s.IsSettled path := by
  have hc := h.contains_of_reach hapart hs hall hasked hreach hp
  rcases h.filled_of_contains hapart hs hall hreach hp hf hc with
    ⟨i, text, hfilled⟩ | ⟨text, hadded⟩
  · exact ⟨text, (h.chronicle.texts path text).2 (.inr ⟨i, hfilled⟩)⟩
  · exact ⟨text, (h.chronicle.texts path text).2 (.inl hadded)⟩

/-! ## The texts in the store -/

/-- Where everything is loaded, every request leads to its planned edit. -/
theorem edit?_eq_planned (h : Run c fetch entries world s log)
    (hloaded : c.Loaded fetch entries s) {j : Nat} {t : Task} {source : String} {r : Request}
    (ht : s.tasks[j]? = some t) (hdone : t.Done) (hr : t.demand = State.demandOf source r) :
    t.edit? = Rewrite.planned c.importMap source r := by
  rw [h.chronicle.edit?_eq_led ht hdone hr]
  cases r with
  | library name => rfl
  | module target =>
    cases ha : (Demand.target source target).aim c with
    | error e =>
      have hnone : Rewrite.planned c.importMap source (.module target) = none := by
        apply Option.eq_none_iff_forall_ne_some.2
        intro e' he'
        obtain ⟨k, urls, ha', -⟩ := (planned_eq_some_iff c source target e').1 he'
        rw [ha] at ha'
        cases ha'
      simp only [State.led, ha, hnone]
    | ok a =>
      obtain ⟨k, urls⟩ := a
      have hsome := (planned_eq_some_iff c source target _).2 ⟨k, urls, ha, rfl⟩
      have hlost : ¬ s.hasLost log j k.path = true := by
        intro hlost
        obtain ⟨hnone, -⟩ := (s.hasLost_iff log j k.path).1 hlost
        obtain ⟨hreach, hp, -⟩ := (h.known ht).aim h.libraries (by rw [hr]; exact ha)
        obtain ⟨text, htext⟩ := hloaded k.url k.path hreach hp
        rw [htext] at hnone
        cases hnone
      simp only [State.led, ha, if_neg hlost, hsome]

/-- Where everything is loaded, a file has the planned edits. -/
theorem mem_edits_iff_planned (h : Run c fetch entries world s log)
    (hloaded : c.Loaded fetch entries s) {i : Nat} {path text : String} {source : Fetch.Source}
    {rs : List Request} (hmade : s.Made i path source text)
    (hrs : Rewrite.requests path source.text = .ok rs) (e : Edit) :
    e ∈ s.edits i ↔ e ∈ rs.filterMap (Rewrite.planned c.importMap source.url) := by
  obtain ⟨rs', hrs', hasked⟩ := hmade.asked
  rw [hrs, Except.ok.injEq] at hrs'
  subst hrs'
  obtain ⟨hzip, hleft, hright⟩ := State.zip_places hasked
  rw [State.mem_edits_iff, List.mem_filterMap]
  constructor
  · rintro ⟨j, t, ht, hp, he⟩
    obtain ⟨r, hx⟩ := hright j ((s.mem_places_iff i j).2 ⟨t, ht, hp⟩)
    obtain ⟨t', ht', -, hdemand⟩ := hzip (r, j) hx
    rw [ht, Option.some.injEq] at ht'
    subst ht'
    have hplanned := h.edit?_eq_planned hloaded ht (hmade.done j t ht hp) hdemand
    exact ⟨r, (List.of_mem_zip hx).1, hplanned.symm.trans he⟩
  · rintro ⟨r, hr, he⟩
    obtain ⟨j, hx⟩ := hleft r hr
    obtain ⟨t, ht, hp, hdemand⟩ := hzip (r, j) hx
    have hplanned := h.edit?_eq_planned hloaded ht (hmade.done j t ht hp) hdemand
    exact ⟨j, t, ht, hp, hplanned.trans he⟩

/-- Where everything is loaded, the planned edits of a file can be made. -/
theorem sound_of_made (h : Run c fetch entries world s log) (hloaded : c.Loaded fetch entries s)
    {i : Nat} {path text : String} {source : Fetch.Source} {rs : List Request}
    (hmade : s.Made i path source text) (hrs : Rewrite.requests path source.text = .ok rs) :
    Editor.Sound ⟨Utf8.encode source.text,
      rs.filterMap (Rewrite.planned c.importMap source.url)⟩ := by
  constructor
  · intro e he
    exact hmade.fits e ((h.mem_edits_iff_planned hloaded hmade hrs e).2 he)
  · obtain ⟨rs', hrs', hasked⟩ := hmade.asked
    rw [hrs, Except.ok.injEq] at hrs'
    subst hrs'
    obtain ⟨hzip, -, -⟩ := State.zip_places hasked
    rw [State.pairwise_apart_iff hasked]
    intro x hx x' hx' hne e e' he he'
    obtain ⟨t, ht, hp, hdemand⟩ := hzip x hx
    obtain ⟨t', ht', hp', hdemand'⟩ := hzip x' hx'
    have hplanned := h.edit?_eq_planned hloaded ht (hmade.done _ t ht hp) hdemand
    have hplanned' := h.edit?_eq_planned hloaded ht' (hmade.done _ t' ht' hp') hdemand'
    exact hmade.apart _ _ t t' e e' hne ht ht' hp hp' (hplanned.trans he) (hplanned'.trans he')

/-- Where everything is loaded, the text under a path is the fetched text with all planned
edits. -/
theorem planned_text (h : Run c fetch entries world s log) (hloaded : c.Loaded fetch entries s)
    (hapart : (c.graph fetch).Apart entries) {url path : String} {source : Fetch.Source}
    (hreach : (c.graph fetch).Reach entries url) (hp : virtualPath url = .ok path)
    (hf : fetch url = .ok source) : ∃ rs text, Rewrite.requests path source.text = .ok rs ∧
      s.store.text? path = some (some text) ∧
      Rewrite.Plan c.importMap c.libraryDir c.bundledDir source.url source.text rs ∧
      Utf8.encode text = Editor.patch (rs.filterMap (Rewrite.planned c.importMap source.url))
        (Utf8.encode source.text) := by
  obtain ⟨text, htext⟩ := hloaded url path hreach hp
  rcases (h.chronicle.texts path text).1 htext with hadded | ⟨i, hfilled⟩
  · -- A file that was added has no edits.
    obtain ⟨rfl, hrs⟩ := h.brings_of_added hadded url source hp hf
    refine ⟨[], source.text, hrs, htext, ⟨fun name hname => absurd hname List.not_mem_nil, ?_⟩, ?_⟩
    · exact ⟨fun e he => absurd he List.not_mem_nil, .nil⟩
    · exact (Editor.patchFrom_of_uncovered fun d hd => absurd hd List.not_mem_nil).symm
  have hmade := h.made_of_filled hapart hfilled hreach hp hf
  obtain ⟨rs, hrs, hasked⟩ := hmade.asked
  refine ⟨rs, text, hrs, htext, ⟨fun name hname => ?_, ?_⟩, ?_⟩
  · obtain ⟨hzip, hleft, -⟩ := State.zip_places hasked
    obtain ⟨j, hx⟩ := hleft _ hname
    obtain ⟨t, ht, hpar, hdemand⟩ := hzip _ hx
    exact h.hasUrls_of_done ht (hmade.done j t ht hpar) hdemand
  · exact h.sound_of_made hloaded hmade hrs
  · rw [hmade.text_eq]
    exact Editor.patch_congr (h.mem_edits_iff_planned hloaded hmade hrs) hmade.apart.coherent _

/-- Where one run has loaded everything, every file has a plan. -/
theorem plans (h : Run c fetch entries world s log) (hloaded : c.Loaded fetch entries s)
    (hapart : (c.graph fetch).Apart entries) : c.Plans fetch entries := by
  intro url path source hreach hp hf
  obtain ⟨rs, text, hrs, -, hplan, -⟩ := h.planned_text hloaded hapart hreach hp hf
  exact ⟨rs, hrs, hplan⟩

end Run

end ModuleGraph.Loading
