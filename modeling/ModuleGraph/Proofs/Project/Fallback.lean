import ModuleGraph.Proofs.Fetch.Escape
import ModuleGraph.Proofs.Loading.Libraries
import ModuleGraph.Proofs.Loading.Search
import ModuleGraph.Proofs.Project.Course
/-!
# The second source of a library

A library is fetched from the library directory, and from the bundled directory if the former has a
fault of the module graph. That is so for whatever servers and files are known to do: any status that
is no success, a breakdown of the transport or too many redirections, a file that is not there or is
no text. It is not so for an error from outside. A server comes to one by its headers alone: with a
file of types at `https://[bad`, or with a character set in which its body has no text. Then the
library is missing although the bundled directory has it.

Results:
* `LibrarySearch`: what is fetched for a library, and what for;
* `State.stored_of_answered`: a final text is stored under the path of the first source;
* `Reached.not_missing_of_text`: a library that is stored is not said to be missing;
* `Reached.falls_back`: **main theorem**: which sources are tried, in every state.
-/

namespace ModuleGraph.Loading

open Fetch (World Cache)

variable {σ : Type}

/-- The load of a library, whether its absence is a fault or not. -/
inductive Demand.IsLibrary (name : String) : Demand → Prop
  | library : IsLibrary name (.library name)
  | required : IsLibrary name (.required name)

theorem Demand.IsLibrary.aim_eq {c : Setting σ} {d : Demand} {name : String}
    (h : d.IsLibrary name) : d.aim c = (Demand.library name).aim c := by
  cases h <;> rfl

/-- How far the load of a library has come, with the replies so far. -/
inductive LibrarySearch (d : Demand) (k : Claim) (fallback : String) :
    Phase → List (String × Except Fault Fetch.Source) → Prop
  /-- Both sources are left. -/
  | unasked : LibrarySearch d k fallback (.fetching k [k.url, fallback] []) []
  /-- The library directory has a text, and the bundled directory is left alone. -/
  | primary {source : Fetch.Source} {p : Phase} (hp : p.Took source) :
      LibrarySearch d k fallback p [(k.url, .ok source)]
  /-- The library directory has a fault, and the bundled directory is next. -/
  | missed {e : Fault} (he : e.isOwn = true) :
      LibrarySearch d k fallback (.fetching k [fallback] [e.describe false]) [(k.url, .error e)]
  /-- The library directory comes to an error from outside, and that is the end. -/
  | struck {e : Fault} (he : e.isOwn = false) :
      LibrarySearch d k fallback (.finished (d.verdict (.module k.url e))) [(k.url, .error e)]
  /-- The bundled directory has a text. -/
  | bundled {e : Fault} {source : Fetch.Source} {p : Phase} (he : e.isOwn = true)
      (hp : p.Took source) :
      LibrarySearch d k fallback p [(k.url, .error e), (fallback, .ok source)]
  /-- Both have faults. -/
  | nowhere {e e' : Fault} (he : e.isOwn = true) (he' : e'.isOwn = true) :
      LibrarySearch d k fallback
        (.finished (d.verdict (nowhereFault k [e.describe false, e'.describe false])))
        [(k.url, .error e), (fallback, .error e')]
  /-- The bundled directory comes to an error from outside. -/
  | bundledStruck {e e' : Fault} (he : e.isOwn = true) (he' : e'.isOwn = false) :
      LibrarySearch d k fallback (.finished (d.verdict (.module k.url e')))
        [(k.url, .error e), (fallback, .error e')]

/-- The first of two URLs is tried alone, or both of them are. -/
theorem tried_cases {primary fallback url : String} {tried : List (String × Fault)}
    {rest : List String} (h : [primary, fallback] = tried.map Prod.fst ++ url :: rest) :
    (tried = [] ∧ url = primary ∧ rest = [fallback]) ∨
      ∃ e, tried = [(primary, e)] ∧ url = fallback ∧ rest = [] := by
  match tried with
  | [] =>
    simp only [List.map_nil, List.nil_append, List.cons.injEq] at h
    exact .inl ⟨rfl, h.1.symm, h.2.symm⟩
  | [(u, e)] =>
    simp only [List.map_cons, List.map_nil, List.cons_append, List.nil_append,
      List.cons.injEq] at h
    obtain ⟨rfl, rfl, rfl⟩ := h
    exact .inr ⟨e, rfl, rfl, rfl⟩
  | _ :: _ :: _ =>
    have hlen := congrArg List.length h
    simp at hlen

theorem Search.library {d : Demand} {k : Claim} {fallback : String} {p : Phase}
    {rs : List (String × Except Fault Fetch.Source)} (h : Search d k [k.url, fallback] p rs) :
    LibrarySearch d k fallback p rs := by
  cases h with
  | searching hurls hrest hown =>
    obtain ⟨url, rest, rfl⟩ := List.exists_cons_of_ne_nil hrest
    rcases tried_cases hurls with ⟨rfl, rfl, rfl⟩ | ⟨e, rfl, rfl, rfl⟩
    · exact .unasked
    · exact .missed (hown _ List.mem_cons_self)
  | @nowhere tried hurls hown =>
    match tried with
    | [(u, e), (u', e')] =>
      simp only [List.map_cons, List.map_nil, List.cons.injEq, and_true] at hurls
      obtain ⟨rfl, rfl⟩ := hurls
      exact .nowhere (hown _ List.mem_cons_self) (hown _ (List.mem_cons_of_mem _ List.mem_cons_self))
    | [] => cases hurls
    | [_] => simp at hurls
    | _ :: _ :: _ :: _ => simp at hurls
  | struck hurls hown he =>
    rcases tried_cases hurls with ⟨rfl, rfl, rfl⟩ | ⟨e, rfl, rfl, rfl⟩
    · exact .struck he
    · exact .bundledStruck (hown _ List.mem_cons_self) he
  | found hurls hown hp =>
    rcases tried_cases hurls with ⟨rfl, rfl, rfl⟩ | ⟨e, rfl, rfl, rfl⟩
    · exact .primary hp
    · exact .bundled (hown _ List.mem_cons_self) hp

/-- Whoever fetches a text takes it into a draft in the same step. -/
theorem Effect.drafted_of_fetched {c : Setting σ} {s : State σ} {ds : List Deed} {world : σ}
    {store : ModuleStore} {new : List String} (h : Effect c s ds world store new) {i : Nat}
    {path url : String} {source : Fetch.Source} (hd : .fetched i path url (.ok source) ∈ ds) :
    .drafted i path source ∈ ds := by
  cases h with
  | nothing => cases hd
  | claimed _ => simp at hd
  | missed _ => simp at hd
  | filled _ => simp at hd
  | added _ => simp at hd
  | drafted _ =>
    simp only [List.mem_cons, Deed.fetched.injEq, Except.ok.injEq, reduceCtorEq, List.not_mem_nil,
      or_false] at hd
    obtain ⟨rfl, rfl, rfl, rfl⟩ := hd
    exact List.mem_cons_of_mem _ List.mem_cons_self

theorem Reached.drafted_of_fetched {c : Setting σ} {world : σ} {allowed : Move → Prop}
    {s : State σ} {log : List Deed} (h : Reached c world allowed s log) {i : Nat}
    {path url : String} {source : Fetch.Source} (hd : .fetched i path url (.ok source) ∈ log) :
    .drafted i path source ∈ log := by
  induction h with
  | start => cases hd
  | @move s log m h hm ih =>
    obtain ⟨new, heff, -⟩ := s.move_effect c m
    rcases List.mem_append.1 hd with hold | hnew
    · exact List.mem_append_left _ (ih hold)
    · exact List.mem_append_right _ (heff.drafted_of_fetched hnew)

/-- A text that the task at a place has fetched is taken into its draft. -/
theorem Reached.drafted_of_reply {c : Setting σ} {world : σ} {allowed : Move → Prop} {s : State σ}
    {log : List Deed} (h : Reached c world allowed s log) {i : Nat} {t : Task}
    (ht : s.tasks[i]? = some t) {k : Claim} {urls : List String}
    (ha : t.demand.aim c = .ok (k, urls)) {url : String} {source : Fetch.Source}
    (hr : (url, .ok source) ∈ repliesTo i log) : .drafted i k.path source ∈ log := by
  obtain ⟨x, hx, hreply⟩ := List.mem_filterMap.1 hr
  obtain ⟨hmem, hplace⟩ := mem_own.1 hx
  obtain ⟨t', k', urls', ht', ha', -, hpath⟩ := h.chronicle.claim hmem hplace
  rw [ht, Option.some.injEq] at ht'
  rw [← ht', ha, Except.ok.injEq, Prod.mk.injEq] at ha'
  rw [ha'.1, ← hpath]
  cases x with
  | fetched j path url' r =>
    cases hreply
    cases hplace
    exact h.drafted_of_fetched hmem
  | claimed j k'' urls'' => cases hreply
  | drafted j path source' => cases hreply
  | filled j path text => cases hreply
  | added path text => cases hreply

/-! ## What becomes of a text -/

/-- The final text of a library is stored under the path that was claimed for it. -/
theorem State.stored_of_answered {c : Setting σ} {s : State σ} {i : Nat} {t : Task} {name : String}
    (hname : t.demand.IsLibrary name) (ht : s.tasks[i]? = some t) {k : Claim} {d : Draft}
    (hp : t.phase = .rewriting k d) (hs : s.store.text? k.path = some none) (ha : s.Answered d)
    (hrest : d.rest = none) {text : String} (htext : d.editor.toText = .ok text) :
    (s.step c i).store.text? k.path = some (some text) ∧
      (s.step c i).outcome? i = some (.loaded k.path) := by
  have hfill := ModuleStore.fill_of_reserved hs text
  have hstep : s.step c i = State.conclude { s with
      store := s.store.filled k.path text
      notices := s.notices ++ [Notice.event (.fileLoaded d.source.url k.path text.length
        (Text.startsWith k.path c.libraryLocation))] } i (.ok k.path) := by
    simp [step, ht, hp, resume, ha.unharmed, ha.finished, advance, hrest, htext, settle, hfill, tell]
  have hc := hstep ▸ conclude_concluded (s := { s with
      store := s.store.filled k.path text
      notices := s.notices ++ [Notice.event (.fileLoaded d.source.url k.path text.length
        (Text.startsWith k.path c.libraryLocation))] }) ht (.ok k.path)
  obtain ⟨o, ho, hself⟩ := hc.self ht
  have hloaded : o = .loaded k.path := by
    rcases ho with ho | ⟨⟨source, target, htarget⟩, -⟩
    · exact ho
    · rw [htarget] at hname
      cases hname
  refine ⟨?_, ?_⟩
  · rw [hc.store, ModuleStore.text?_filled, if_pos rfl]
  · rw [outcome?, hself, hloaded]
    rfl

/-- A library whose path has a text is not said to be missing. -/
theorem Reached.not_missing_of_text {c : Setting σ} {world : σ} {allowed : Move → Prop}
    {s : State σ} {log : List Deed} (h : Reached c world allowed s log) {name text : String}
    {k : Claim} {urls : List String} (ha : (Demand.library name).aim c = .ok (k, urls))
    (htext : s.store.text? k.path = some (some text)) : name ∉ s.missing := by
  intro hmissing
  obtain ⟨t, hmem, hreported⟩ := List.mem_filterMap.1 (h.missing_perm.mem_iff.1 hmissing)
  obtain ⟨i, ht⟩ := List.mem_iff_getElem?.1 hmem
  unfold Task.missing? at hreported
  split at hreported
  · next hd hp =>
    cases hreported
    have hends := h.chronicle.library_ends ht hd hp
    obtain ⟨hurl, -, fallback, hfallback, -⟩ := (aim_library_eq_ok_iff ..).1 ha
    have hproblem : Library.problem? c.libraryDir c.bundledDir name = none :=
      (Library.problem?_eq_none_iff ..).2 ⟨_, _, hurl, hfallback⟩
    rw [hproblem] at hends
    rcases hends with ⟨_, _, _, hloaded, _⟩ | ⟨-, hreserved⟩
    · cases hloaded
    · rw [(hreserved k urls ha).2] at htext
      cases htext
  · cases hreported

/-! ## Which source is tried -/

/-- Where the first of two sources has no text, the second one is next exactly if what was there is a
fault of the module graph. -/
theorem State.seeks_second_iff {c : Setting σ} {s : State σ} {i : Nat} {t : Task} {k : Claim}
    {url fallback : String} (ht : s.tasks[i]? = some t)
    (hp : t.phase = .fetching k [url, fallback] []) {e : Fault}
    (hr : (c.fetch url s.world).1 = .error e) :
    (∃ said, (s.step c i).phase? i = some (.fetching k [fallback] [said])) ↔ e.isOwn = true := by
  constructor
  · intro ⟨said, hsaid⟩
    cases he : e.isOwn with
    | true => rfl
    | false =>
      rw [State.phase?_of_outside ht hp hr he] at hsaid
      cases hsaid
  · intro he
    exact ⟨e.describe false, State.phase?_of_missed ht hp (List.cons_ne_nil _ _) hr he⟩

/-- What the load of a library at a place does, from the claim of its path to its end. -/
structure FallsBack (c : Setting World) (cache : Cache) (s : State World) (log : List Deed) (i : Nat)
    (t : Task) (name : String) (k : Claim) (fallback : String) : Prop where
  /-- A path that is free is claimed, and there are two sources for it. -/
  claims : t.phase = .ready → s.store.contains k.path = false →
    (s.step c i).phase? i = some (.fetching k [k.url, fallback] [])
  /-- The sources are tried in their order, the second one only after a fault of the first. -/
  tries : .claimed i k [k.url, fallback] ∈ log →
    LibrarySearch t.demand k fallback t.phase (repliesTo i log) ∧
      fetchesFor k.path log = (repliesTo i log).map Prod.fst
  /-- Where the first source has no text, the second one is next unless there was an error from
  outside. -/
  goesOn : t.phase = .fetching k [k.url, fallback] [] →
    (∀ source, (c.fetch k.url s.world).1 ≠ .ok source) →
      ((∃ said, (s.step c i).phase? i = some (.fetching k [fallback] [said])) ↔
        ¬ cache.Escapes s.world k.url)
  /-- After an error from outside the path stays without a text. -/
  givesUp : t.phase = .fetching k [k.url, fallback] [] → cache.Escapes s.world k.url →
    ∃ e, e.isOwn = false ∧ (c.fetch k.url s.world).1 = .error e ∧
      (s.step c i).outcome? i = some (t.demand.verdict (.module k.url e)) ∧
      (s.step c i).store.text? k.path = some none
  /-- The text of a bundled file is what is rewritten. -/
  reads : ∀ said path text, t.phase = .fetching k [fallback] said →
    Fetch.protocol fallback = .ok .local → FilePath.ofUrl fallback = .ok path →
    s.world.files.text path = .ok text →
    ∃ places, (s.step c i).phase? i =
      some (.rewriting k (State.firstDraft k ⟨text, fallback, .empty⟩ places))
  /-- A text that was fetched is the one that is rewritten. -/
  rewrites : ∀ url source, (url, .ok source) ∈ repliesTo i log → .drafted i k.path source ∈ log
  /-- The final text is stored under the path of the first source, whichever had the text. -/
  stores : ∀ d text, t.phase = .rewriting k d → s.Answered d → d.rest = none →
    d.editor.toText = .ok text → (s.step c i).store.text? k.path = some (some text) ∧
      (s.step c i).outcome? i = some (.loaded k.path)
  /-- A library that is stored is not said to be missing. -/
  told : ∀ text, s.store.text? k.path = some (some text) → name ∉ s.missing

/-- **main theorem**: a library that the library directory does not have is fetched from the bundled
directory, whatever the reason, except for errors from outside. -/
theorem Reached.falls_back {c : Setting World} {cache : Cache} (hf : FetchesOver c cache)
    {world : World} {allowed : Move → Prop} {s : State World} {log : List Deed}
    (h : Reached c world allowed s log) {i : Nat} {t : Task} (ht : s.tasks[i]? = some t)
    {name : String} (hname : t.demand.IsLibrary name) {k : Claim} {fallback : String}
    (ha : (Demand.library name).aim c = .ok (k, [k.url, fallback])) :
    FallsBack c cache s log i t name k fallback := by
  have hchron := h.chronicle
  have haim : t.demand.aim c = .ok (k, [k.url, fallback]) := hname.aim_eq.trans ha
  have hreserved : ∀ {p : Phase}, t.phase = p → p.claim? = some k →
      s.store.text? k.path = some none := fun hp hk =>
    (hchron.claimed_of_claim? ht (hp ▸ hk)).1
  have hout : ∀ {e}, (c.fetch k.url s.world).1 = .error e →
      (e.isOwn = false ↔ cache.Escapes s.world k.url) := by
    intro e hr
    rw [hf] at hr
    rw [← Cache.escapes_iff, hr, endsOutside_error]
  constructor
  case claims =>
    intro hp hs
    exact State.phase?_of_free ht hp haim hs
  case tries =>
    intro hk
    refine ⟨(h.search ht hk).library, ?_⟩
    rw [hchron.fetchesFor_eq hk, repliesTo, List.map_filterMap]
    refine List.filterMap_congr fun x _ => ?_
    cases x <;> rfl
  case goesOn =>
    intro hp hnone
    cases hr : (c.fetch k.url s.world).1 with
    | ok source => exact absurd hr (hnone source)
    | error e => rw [State.seeks_second_iff ht hp hr, ← hout hr, Bool.not_eq_false]
  case givesUp =>
    intro hp hescape
    obtain ⟨e, hr, he⟩ := Cache.escapes_iff.2 hescape
    rw [← hf] at hr
    refine ⟨e, he, hr, State.outcome?_of_phase? (State.phase?_of_outside ht hp hr he), ?_⟩
    rw [(s.step_turn c i).store_of_fetching ht hp]
    exact hreserved hp rfl
  case reads =>
    intro said path text hp hway hpath htext
    have hr : (c.fetch fallback s.world).1 = .ok ⟨text, fallback, .empty⟩ := by
      rw [hf, Fetch.run_fetch_of_file cache hway hpath htext]
    exact ⟨_, State.phase?_of_text ht hp hr⟩
  case rewrites =>
    intro url source hr
    exact h.drafted_of_reply ht haim hr
  case stores =>
    intro d text hp hd hrest htext
    exact State.stored_of_answered hname ht hp (hreserved hp rfl) hd hrest htext
  case told =>
    intro text htext
    exact h.not_missing_of_text ha htext

/-! ## A server that is down, and one with a header that is no URL -/

/-- The library `dom` in the library directory. -/
def domUrl : String := "https://libs.example/dts/lib.dom.d.ts"

/-- The library `dom` in the bundled directory. -/
def domFallback : String := "file:///bundled/lib.dom.d.ts.txt"

/-- A cache whose entries are named by letters and digits of what follows the scheme. -/
def legibleCache : Cache :=
  ⟨"/cache", Cache.freshnessWindow, fun url =>
    .ofList (((url.toList.drop 8).take 20).filter Char.isAlphanum), .usual⟩

/-- Loads over a library directory that is served and a bundled directory. -/
def twoSources : Setting World where
  importMap := .empty
  libraryDir := "https://libs.example/dts"
  bundledDir := "file:///bundled"
  libraryLocation := "/https/libs.example/dts"
  fetch url w := (Fetch.fetch legibleCache url).run w

/-- The library directory gives this reply, and the bundled directory has the library. -/
def bundledDom (reply : Fetch.Reply) : World where
  files := ⟨[(["bundled".toList], .directory), (["bundled".toList, "lib.dom.d.ts.txt".toList],
    .file (Utf8.encode "interface X {}\n"))], []⟩
  routes := [(domUrl, reply)]
  now := 1700000000000000
  requests := []
  log := []

set_option maxRecDepth 100000 in
/-- A response with a types header that is no URL leaves the library missing: the bundled file, which
can be read, is never fetched. -/
theorem bundled_unread :
    ¬ ∀ (w : World) (moves : List Move) (text : String),
      (∀ source, (twoSources.fetch domUrl w).1 ≠ .ok source) →
      w.files.text "/bundled/lib.dom.d.ts.txt" = .ok text →
      let s := (State.start w).play twoSources (.ask (.library "dom") :: moves)
      s.isQuiet = true → domFallback ∈ fetchesFor "/https/libs.example/dts/lib.dom.d.ts"
        ((State.start w).log twoSources (.ask (.library "dom") :: moves)) := by
  intro hall
  let w := bundledDom
    (.response 200 [("X-TypeScript-Types", "https://[bad")] (Utf8.encode "declare const d: 1;\n"))
  have hnone : ((twoSources.fetch domUrl w).1.toOption.map Fetch.Source.text) = none := by
    decide +kernel
  have htext : (w.files.text "/bundled/lib.dom.d.ts.txt").toOption = some "interface X {}\n" := by
    decide +kernel
  have hend : ((State.start w).play twoSources
        [.ask (.library "dom"), .step 0, .step 0]).isQuiet = true ∧
      domFallback ∉ fetchesFor "/https/libs.example/dts/lib.dom.d.ts"
        ((State.start w).log twoSources [.ask (.library "dom"), .step 0, .step 0]) := by
    decide +kernel
  refine hend.2 (hall w _ _ (fun source hsource => ?_) (Cache.eq_ok_of_toOption htext) hend.1)
  cases hnone.symm.trans (congrArg (fun r => r.toOption.map Fetch.Source.text) hsource)

/-- What a phase that fetches has claimed, and the URLs that may still have the text. -/
def Phase.sources? : Phase → Option (Claim × List String)
  | .fetching k urls _ => some (k, urls)
  | _ => none

theorem Phase.exists_of_sources? {p : Phase} {k : Claim} {urls : List String}
    (h : p.sources? = some (k, urls)) : ∃ said, p = .fetching k urls said := by
  cases p with
  | fetching k' urls' said =>
    cases h
    exact ⟨said, rfl⟩
  | _ => cases h

set_option maxRecDepth 100000 in
/-- A server that is down leads to the bundled file, whose text is what is rewritten. -/
theorem falls_back_unavailable :
    let s := (State.start (bundledDom (.response 503 [] []))).play twoSources
      [.ask (.library "dom"), .step 0, .step 0]
    ∃ k places, k.url = domUrl ∧ (s.step twoSources 0).phase? 0 =
      some (.rewriting k (State.firstDraft k ⟨"interface X {}\n", domFallback, .empty⟩ places)) := by
  intro s
  have hreached : Reached twoSources (bundledDom (.response 503 [] [])) (fun _ => True) s _ :=
    reached_play _ _ fun _ _ => trivial
  have htask : s.tasks[0]?.map (fun t => (t.demand, t.phase.sources?)) = some (.library "dom",
      some (⟨domUrl, "/https/libs.example/dts/lib.dom.d.ts"⟩, [domFallback])) := by
    decide +kernel
  obtain ⟨t, ht, hboth⟩ := Option.map_eq_some_iff.1 htask
  obtain ⟨hd, hp⟩ := Prod.mk.inj hboth
  have haim : ((Demand.library "dom").aim twoSources).toOption =
      some (⟨domUrl, "/https/libs.example/dts/lib.dom.d.ts"⟩, [domUrl, domFallback]) := by
    decide +kernel
  have hfalls := hreached.falls_back (fun _ _ => rfl) ht (hd ▸ .library)
    (Cache.eq_ok_of_toOption haim)
  have hway : (Fetch.protocol domFallback).toOption = some .local := by decide +kernel
  have hpath : (FilePath.ofUrl domFallback).toOption = some "/bundled/lib.dom.d.ts.txt" := by
    decide +kernel
  have htext : (s.world.files.text "/bundled/lib.dom.d.ts.txt").toOption =
      some "interface X {}\n" := by decide +kernel
  obtain ⟨said, hphase⟩ := Phase.exists_of_sources? hp
  obtain ⟨places, hrewriting⟩ := hfalls.reads said _ _ hphase (Cache.eq_ok_of_toOption hway)
    (Cache.eq_ok_of_toOption hpath) (Cache.eq_ok_of_toOption htext)
  exact ⟨_, places, rfl, hrewriting⟩

end ModuleGraph.Loading
