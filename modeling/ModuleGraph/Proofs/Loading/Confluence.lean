import ModuleGraph.Proofs.Loading.Calm
/-!
# Confluence of loading

Where every reachable module can be fetched and no two of them have one path, the order in which
the tasks advance does not matter. One run in which no file is given up shows that every file has a
plan; with the plans no file is given up in any other run, and all of them end in the same store.

Results:
* `Complete.hasAsked`: what was asked for is there at the end of a run;
* `Run.holds`: a run that has loaded everything ends in the store of the graph;
* `confluence`: **main theorem**: every complete run ends in the store of the graph;
* `texts_of_rewrites`: **main theorem**: where every text can be rewritten in one go, every complete
  run has the texts that this leads to.
-/

namespace ModuleGraph.Loading

variable {σ : Type}

/-- The moves ask for all entries and for nothing else, and what they ask for has ended. -/
structure Complete (c : Setting σ) (entries : List String) (world : σ) (moves : List Move) :
    Prop where
  asks : ∀ m ∈ moves, m.AsksFor entries
  all : ∀ url ∈ entries, .ask (.module url url) ∈ moves
  ended : ((State.start world).play c moves).RootsFinished

/-- The store has the paths of the reachable URLs and no other, and under each path the text of the
URL in which every stretch that has a path names it. -/
structure Graph.HeldBy (G : Graph) (entries : List String) (store : ModuleStore) : Prop where
  paths : ∀ path, store.contains path = true ↔
    ∃ url, G.Reach entries url ∧ virtualPath url = .ok path
  texts : ∀ url path source, G.Reach entries url → virtualPath url = .ok path →
    G.fetch url = .ok source → ∃ rs text, Rewrite.requests path source.text = .ok rs ∧
      store.text? path = some (some text) ∧
      Editor.Sound ⟨Utf8.encode source.text,
        rs.filterMap (Rewrite.planned G.importMap source.url)⟩ ∧
      Utf8.encode text = Editor.patch (rs.filterMap (Rewrite.planned G.importMap source.url))
        (Utf8.encode source.text)

/-- Every reachable module can be fetched. -/
def Graph.Whole (G : Graph) (entries : List String) : Prop :=
  ∀ url path, G.Reach entries url → virtualPath url = .ok path → ∃ source, G.fetch url = .ok source

theorem Graph.Whole.hasLibraries {G : Graph} {entries : List String} (h : G.Whole entries) :
    G.HasLibraries entries := by
  intro u path source name url file hreach hp hf hr hurl hfile
  exact h url file (.named (r := .library name) hreach hp hf hr hurl) hfile

/-- A graph is held in one way only. -/
theorem Graph.HeldBy.text?_eq {G : Graph} {entries : List String} {store store' : ModuleStore}
    (hwhole : G.Whole entries) (h : G.HeldBy entries store) (h' : G.HeldBy entries store')
    (path : String) : store.text? path = store'.text? path := by
  by_cases hc : ∃ url, G.Reach entries url ∧ virtualPath url = .ok path
  · obtain ⟨url, hreach, hp⟩ := hc
    obtain ⟨source, hf⟩ := hwhole url path hreach hp
    obtain ⟨rs, text, hrs, htext, -, heq⟩ := h.texts url path source hreach hp hf
    obtain ⟨rs', text', hrs', htext', -, heq'⟩ := h'.texts url path source hreach hp hf
    rw [hrs, Except.ok.injEq] at hrs'
    subst hrs'
    rw [htext, htext', Utf8.encode_injective (heq.trans heq'.symm)]
  · have hnone : ∀ {st : ModuleStore}, G.HeldBy entries st → st.text? path = none := by
      intro st hst
      rw [ModuleStore.text?_eq_none_iff, ← Bool.not_eq_true, hst.paths]
      exact hc
    rw [hnone h, hnone h']

namespace State

theorem persists_move (c : Setting σ) (s : State σ) (m : Move) {j : Nat} {t : Task}
    (ht : s.tasks[j]? = some t) : ∃ u, (s.move c m).tasks[j]? = some u ∧ u.demand = t.demand := by
  cases m with
  | step i =>
    obtain ⟨u, hu, -, hd⟩ := (s.step_turn c i).persists ht
    exact ⟨u, hu, hd⟩
  | ask d =>
    refine ⟨t, ?_, rfl⟩
    rw [move, ask, List.getElem?_append_left (List.getElem?_eq_some_iff.1 ht).1, ht]
  | add path text =>
    refine ⟨t, ?_, rfl⟩
    rw [s.tasks_add, ht]

/-- What was asked for stays. -/
theorem persists_play (c : Setting σ) (s : State σ) (moves : List Move) {j : Nat} {t : Task}
    (ht : s.tasks[j]? = some t) :
    ∃ u, (s.play c moves).tasks[j]? = some u ∧ u.demand = t.demand := by
  induction moves generalizing s t with
  | nil => exact ⟨t, ht, rfl⟩
  | cons m moves ih =>
    obtain ⟨u, hu, hd⟩ := s.persists_move c m ht
    obtain ⟨v, hv, hd'⟩ := ih (s.move c m) hu
    exact ⟨v, hv, hd'.trans hd⟩

/-- What the moves ask for is there after them. -/
theorem exists_task_of_ask (c : Setting σ) (s : State σ) {moves : List Move} {d : Demand}
    (h : .ask d ∈ moves) : ∃ (j : Nat) (t : Task), (s.play c moves).tasks[j]? = some t ∧
      t.demand = d := by
  induction moves generalizing s with
  | nil => cases h
  | cons m moves ih =>
    rcases List.mem_cons.1 h with rfl | h
    · have hnew : (s.move c (.ask d)).tasks[s.tasks.length]? = some ⟨none, d, .ready⟩ := by
        rw [move, ask, List.getElem?_append_right (Nat.le_refl _), Nat.sub_self]
        rfl
      obtain ⟨t, ht, hd⟩ := (s.move c (.ask d)).persists_play c moves hnew
      exact ⟨s.tasks.length, t, ht, hd⟩
    · exact ih (s.move c m) h

end State

theorem Complete.hasAsked {c : Setting σ} {entries : List String} {world : σ} {moves : List Move}
    (h : Complete c entries world moves) : ((State.start world).play c moves).HasAsked entries :=
  fun url hurl => State.exists_task_of_ask c _ (h.all url hurl)

/-- Nothing is added where only entries are asked for. -/
theorem Reached.not_added {c : Setting σ} {world : σ} {entries : List String} {s : State σ}
    {log : List Deed} (h : Reached c world (Move.AsksFor entries) s log) (path text : String) :
    .added path text ∉ log := by
  intro hadded
  rcases h.place_or_added hadded with ⟨i, hi⟩ | ⟨_, _, -, hm⟩
  · cases hi
  · exact hm

/-- A run that has loaded everything ends in the store of the graph, if no file was added. -/
theorem Run.holds {c : Setting σ} {fetch : String → Except Fault Fetch.Source}
    {entries : List String} {world : σ} {s : State σ} {log : List Deed}
    (h : Run c fetch entries world s log) (hapart : (c.graph fetch).Apart entries)
    (hwhole : (c.graph fetch).Whole entries) (hs : s.Unraised log) (hall : s.AllFinished)
    (hasked : s.Seeks c entries) (hadded : ∀ path text, .added path text ∉ log) :
    c.Loaded fetch entries s ∧ (c.graph fetch).HeldBy entries s.store := by
  have hloaded : c.Loaded fetch entries s := by
    intro url path hreach hp
    obtain ⟨source, hf⟩ := hwhole url path hreach hp
    exact h.settled_of_reach hapart hs hall hasked hreach hp hf
  refine ⟨hloaded, fun path => ?_, ?_⟩
  · rw [h.contains_iff hapart hs hall hasked, or_iff_left]
    rintro ⟨text, htext⟩
    exact hadded path text htext
  intro url path source hreach hp hf
  obtain ⟨rs, text, hrs, htext, hplan, heq⟩ := h.planned_text hloaded hapart hreach hp hf
  exact ⟨rs, text, hrs, htext, hplan.sound, heq⟩

/-- **main theorem**: if every reachable module can be fetched, no two of them have one path and no
file is given up in one complete run, then no file is given up in any complete run, and all of them
end in the store of the graph, each path with the same text. -/
theorem confluence (c : Setting σ) (fetch : String → Except Fault Fetch.Source)
    (entries : List String) (world world' : σ) (moves moves' : List Move)
    (hfetch : c.Answers fetch) (hwhole : (c.graph fetch).Whole entries)
    (hapart : (c.graph fetch).Apart entries) (hm : Complete c entries world moves)
    (hraise : ((State.start world).play c moves).Unraised ((State.start world).log c moves))
    (hm' : Complete c entries world' moves') :
    let s := (State.start world).play c moves
    let s' := (State.start world').play c moves'
    (c.graph fetch).HeldBy entries s.store ∧ (c.graph fetch).HeldBy entries s'.store ∧
      s'.Unraised ((State.start world').log c moves') ∧
      ∀ path, s.store.text? path = s'.store.text? path := by
  intro s s'
  have hreached := reached_play c world hm.asks
  have hreached' := reached_play c world' hm'.asks
  have h : Run c fetch entries world s ((State.start world).log c moves) :=
    ⟨hreached.mono fun _ => Move.AsksFor.opens, hfetch, hwhole.hasLibraries⟩
  have h' : Run c fetch entries world' s' ((State.start world').log c moves') :=
    ⟨hreached'.mono fun _ => Move.AsksFor.opens, hfetch, hwhole.hasLibraries⟩
  obtain ⟨hloaded, hheld⟩ := h.holds hapart hwhole hraise (h.finished hraise hm.ended)
    (hm.hasAsked.seeks c) hreached.not_added
  have hcalm := h'.calm (h.plans hloaded hapart)
  have hall' := h'.finished hcalm.unraised hm'.ended
  obtain ⟨-, hheld'⟩ := h'.holds hapart hwhole hcalm.unraised hall' (hm'.hasAsked.seeks c)
    hreached'.not_added
  exact ⟨hheld, hheld', hcalm.unraised, hheld.text?_eq hwhole hheld'⟩

/-! ## Rewriting in one go -/

/-- Every text that is reachable can be rewritten with loads that answer at once; `final` is what
this makes of the text of a URL. -/
def Setting.Rewrites (c : Setting σ) (fetch : String → Except Fault Fetch.Source)
    (entries : List String) (final : String → String) : Prop :=
  ∀ url path source, (c.graph fetch).Reach entries url → virtualPath url = .ok path →
    fetch url = .ok source →
    (Rewrite.run c.importMap (Rewrite.atOnce c.libraryDir c.bundledDir) source.url path
      source.text).1 = .ok (final url)

theorem Setting.Rewrites.plans {c : Setting σ} {fetch : String → Except Fault Fetch.Source}
    {entries : List String} {final : String → String} (h : c.Rewrites fetch entries final) :
    c.Plans fetch entries := by
  intro url path source hreach hp hf
  obtain ⟨rs, hrs, hplan, -⟩ := Rewrite.plan_of_run (h url path source hreach hp hf)
  exact ⟨rs, hrs, hplan⟩

/-- **main theorem**: where every reachable module can be fetched, no two of them have one path, and
the text of each can be rewritten in one go, no file is given up in any complete run, and each path
has the text that rewriting it in one go leads to. -/
theorem texts_of_rewrites (c : Setting σ) (fetch : String → Except Fault Fetch.Source)
    (entries : List String) (final : String → String) (world : σ) (moves : List Move)
    (hfetch : c.Answers fetch) (hwhole : (c.graph fetch).Whole entries)
    (hapart : (c.graph fetch).Apart entries) (hrewrites : c.Rewrites fetch entries final)
    (hm : Complete c entries world moves) :
    let s := (State.start world).play c moves
    s.Unraised ((State.start world).log c moves) ∧
      ∀ url path, (c.graph fetch).Reach entries url → virtualPath url = .ok path →
        s.store.text? path = some (some (final url)) := by
  intro s
  have hreached := reached_play c world hm.asks
  have h : Run c fetch entries world s ((State.start world).log c moves) :=
    ⟨hreached.mono fun _ => Move.AsksFor.opens, hfetch, hwhole.hasLibraries⟩
  have hun := (h.calm hrewrites.plans).unraised
  obtain ⟨-, hheld⟩ := h.holds hapart hwhole hun (h.finished hun hm.ended) (hm.hasAsked.seeks c)
    hreached.not_added
  refine ⟨hun, fun url path hreach hp => ?_⟩
  obtain ⟨source, hf⟩ := hwhole url path hreach hp
  obtain ⟨rs, text, hrs, htext, -, hbytes⟩ := hheld.texts url path source hreach hp hf
  -- Both texts are the fetched text with the planned edits.
  obtain ⟨rs', hrs', -, hfinal⟩ := Rewrite.plan_of_run (hrewrites url path source hreach hp hf)
  rw [hrs, Except.ok.injEq] at hrs'
  subst hrs'
  rw [htext, Utf8.encode_injective (hbytes.trans hfinal.symm)]

/-- Two files that name each other. -/
def ring : Setting Unit :=
  .ofTexts [("file:///a.ts", "import \"./b.ts\";"), ("file:///b.ts", "import \"./a.ts\";")]

def ringFetch (url : String) : Except Fault Fetch.Source := (ring.fetch url ()).1

def ringUrls : List String := ["file:///a.ts", "file:///b.ts"]

/-- Both files are asked for at once, and advance side by side. -/
def ringSideBySide : List Move :=
  ringUrls.map (fun url => .ask (.module url url)) ++ [0, 1, 0, 1, 0, 1, 2, 3, 0, 1].map .step

/-- The second file is asked for first and asks for the other one, which is asked for from outside
when it is already fetched. -/
def ringOneByOne : List Move :=
  .ask (.module "file:///b.ts" "file:///b.ts") :: [0, 0, 0, 1, 1, 1].map .step ++
    .ask (.module "file:///a.ts" "file:///a.ts") :: [2, 3, 1, 0].map .step

set_option maxRecDepth 100000 in
theorem confluence_ring :
    let s := (State.start ()).play ring ringSideBySide
    let s' := (State.start ()).play ring ringOneByOne
    (ring.graph ringFetch).HeldBy ringUrls s.store ∧
      (ring.graph ringFetch).HeldBy ringUrls s'.store ∧
      s'.Unraised ((State.start ()).log ring ringOneByOne) ∧
      ∀ path, s.store.text? path = s'.store.text? path := by
  have hclosed : (ring.graph ringFetch).isClosed ringUrls = true := by decide +kernel
  have hmem : ∀ {url}, (ring.graph ringFetch).Reach ringUrls url → url ∈ ringUrls := fun h =>
    h.mem hclosed fun _ h => h
  have hfetched : ∀ url ∈ ringUrls, (ringFetch url).toOption.isSome = true := by decide +kernel
  have hpaths : ∀ u ∈ ringUrls, ∀ v ∈ ringUrls, virtualPath u = virtualPath v → u = v := by
    decide +kernel
  refine confluence ring ringFetch ringUrls () () ringSideBySide ringOneByOne (fun url w => rfl)
    (fun url path hreach _ => ?_) (fun u v path hu hv hp hp' => ?_) ⟨?_, ?_, ?_⟩ ?_ ⟨?_, ?_, ?_⟩
  · have hsome := hfetched url (hmem hreach)
    change ∃ source, ringFetch url = .ok source
    cases hf : ringFetch url with
    | ok source => exact ⟨source, rfl⟩
    | error e =>
      rw [hf] at hsome
      cases hsome
  · exact hpaths u (hmem hu) v (hmem hv) (hp.trans hp'.symm)
  · decide +kernel
  · decide +kernel
  · unfold State.RootsFinished
    decide +kernel
  · exact State.unraised_of_isUnraised (by decide +kernel)
  · decide +kernel
  · decide +kernel
  · unfold State.RootsFinished
    decide +kernel

end ModuleGraph.Loading
