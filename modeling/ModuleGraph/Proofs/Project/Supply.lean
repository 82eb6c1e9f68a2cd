import ModuleGraph.Proofs.Fetch.Beside
import ModuleGraph.Proofs.Loading.Alike
import ModuleGraph.Proofs.Project.Fallback
import ModuleGraph.Proofs.Url.Join
/-!
# Whichever source has a library

A library is stored under the path of its first source, wherever its text came from. So whoever loads
it cannot tell the sources apart by the files, if what its text names leads to the same URLs from
both and nothing else has to do with the first source. That does not go without saying: names are
resolved against the URL that had the text, so `./x.ts` leads to a neighbour of the first source or
to one of the bundled file.

Results:
* `State.Single.exists_turn`, `State.Single.exists_round`: a single load has the first turn;
* `Supplies.beside`: the worlds after both sources were tried;
* `Supplies.interchangeable`: **main theorem**: the runs with the first and with the second source;
* `sources_told_apart`: texts by which the sources can be told apart.
-/

namespace ModuleGraph.Loading

open Fetch (World Cache)

variable {σ : Type}

namespace State

variable {c : Setting σ} {s : State σ}

/-! ## A single load -/

theorem step_of_length_le {i : Nat} (h : s.tasks.length ≤ i) : s.step c i = s := by
  rw [step, List.getElem?_eq_none h]

/-- There is one task, and it has not ended. -/
structure Single (s : State σ) : Prop where
  lone : s.tasks.length = 1
  goesOn : ¬ s.AllFinished
  notOver : s.isOver [0] = false

/-- In every order in which a single load ends, it has the first turn that matters. -/
theorem Single.exists_turn (h : s.Single) {order : List Nat}
    (hend : (s.follow c order).AllFinished) :
    ∃ rest, s.follow c order = s.follow c (0 :: rest) := by
  induction order with
  | nil => exact absurd hend h.goesOn
  | cons i order ih =>
    by_cases hi : i = 0
    · exact ⟨order, by rw [hi]⟩
    · have hstep : s.step c i = s := step_of_length_le (by rw [h.lone]; omega)
      rw [follow_cons, hstep] at hend ⊢
      exact ih hend

/-- A round is the turn of the single task. -/
theorem Single.runFor_succ (h : s.Single) (n : Nat) :
    s.runFor c [0] (n + 1) = (s.step c 0).runFor c [0] n := by
  have hgoes := h.notOver
  rw [isOver] at hgoes
  rw [runFor, hgoes, if_neg Bool.false_ne_true, round, h.lone]
  rfl

theorem Single.exists_round (h : s.Single) {n : Nat}
    (hend : (s.runFor c [0] n).isOver [0] = true) :
    ∃ m ≤ n, s.runFor c [0] n = (s.step c 0).runFor c [0] m := by
  cases n with
  | zero => cases h.notOver.symm.trans hend
  | succ n => exact ⟨n, Nat.le_succ n, h.runFor_succ n⟩

/-! ## The load of a library -/

/-- The state in which the load of a library has the path of its first source, and these URLs are
left. -/
def seeking (world : σ) (notices : List Notice) (d : Demand) (k : Claim) (urls errors : List String) :
    State σ :=
  ⟨world, ModuleStore.empty.claimed k.path, notices, [⟨none, d, .fetching k urls errors⟩]⟩

section

variable {world : σ} {d : Demand} {k : Claim} {url : String} {urls errors : List String}
  {notices : List Notice}

theorem step_asked (world : σ) (ha : d.aim c = .ok (k, urls)) :
    ((start world).ask none [d]).1.step c 0 = seeking world [] d k urls [] := by
  have hfree : ModuleStore.empty.contains k.path = false := rfl
  simp [step, start, ask, begin_eq, ha, hfree, seeking, enter]

theorem step_seeking_of_text {source : Fetch.Source} (hr : (c.fetch url world).1 = .ok source) :
    (seeking world notices d k (url :: urls) errors).step c 0 =
      (seeking (c.fetch url world).2 notices d k (url :: urls) errors).draft 0 k source := by
  simp [step, seeking, fetchNext, hr]

theorem step_seeking_of_missed {e : Fault} (hr : (c.fetch url world).1 = .error e)
    (he : e.isOwn = true) (hurls : urls ≠ []) :
    (seeking world notices d k (url :: urls) errors).step c 0 =
      seeking (c.fetch url world).2 (notices ++ [fetchNotice url e]) d k urls
        (errors ++ [e.describe false]) := by
  simp [step, seeking, fetchNext, hr, he, hurls, enter, tell]

/-- What was left to be fetched does not matter to a draft. -/
theorem draft_seeking (source : Fetch.Source) (urls' errors' : List String) :
    (seeking world notices d k urls errors).draft 0 k source =
      (seeking world notices d k urls' errors').draft 0 k source := by
  rw [draft_eq, draft_eq]
  rfl

theorem single_asked (world : σ) (d : Demand) : ((start world).ask none [d]).1.Single where
  lone := rfl
  goesOn h := by
    obtain ⟨o, ho⟩ := h 0 _ rfl
    cases ho
  notOver := rfl

theorem single_seeking : (seeking world notices d k urls errors).Single where
  lone := rfl
  goesOn h := by
    obtain ⟨o, ho⟩ := h 0 _ rfl
    cases ho
  notOver := rfl

end

end State

/-- The run that begins with one state has the files of the one that begins with the other, which
needs a turn more until it has a text. -/
structure Interchangeable (c : Setting σ) (Q : σ → String → Prop) (s s' : State σ) : Prop where
  /-- In whatever order tasks advance once the text is there, they keep in step. -/
  inStep : ∀ order, (s'.follow c [0, 0, 0]).FetchesOnly c Q order →
    (s'.follow c ([0, 0, 0] ++ order)).store = (s.follow c ([0, 0] ++ order)).store ∧
      ((s'.follow c ([0, 0, 0] ++ order)).AllFinished ↔ (s.follow c ([0, 0] ++ order)).AllFinished)
  /-- Every run that ends goes by such an order. -/
  ends : ∀ order, (s.follow c order).AllFinished →
    ∃ rest, s.follow c order = s.follow c ([0, 0] ++ rest)
  ends' : ∀ order, (s'.follow c order).AllFinished →
    ∃ rest, s'.follow c order = s'.follow c ([0, 0, 0] ++ rest)
  /-- Where tasks are run in turn, both runs have the same files in the end. -/
  inTurn : ∀ n m, (s.runFor c [0] n).isOver [0] = true → (s'.runFor c [0] m).isOver [0] = true →
    (s'.follow c [0, 0, 0]).FetchesOnly c Q ((s'.follow c [0, 0, 0]).turns c [0] m) →
    (s'.runFor c [0] m).store = (s.runFor c [0] n).store

/-- Runs are interchangeable if their states are alike as soon as both have a text. -/
theorem interchangeable_of_alike {c : Setting σ} {R : σ → σ → Prop} {Q : σ → String → Prop}
    (hc : c.Blurs R Q) {s s' : State σ} (hs : s.Single) (hs₁ : (s.step c 0).Single)
    (hs' : s'.Single) (hs₁' : (s'.step c 0).Single) (hs₂' : ((s'.step c 0).step c 0).Single)
    (halike : ((s.step c 0).step c 0).Alike c R (((s'.step c 0).step c 0).step c 0)) :
    Interchangeable c Q s s' where
  inStep order hq := by
    have hboth := halike.follow hc hq
    exact ⟨hboth.store.symm, hboth.allFinished_iff.symm⟩
  ends order hend := by
    obtain ⟨rest, heq⟩ := hs.exists_turn hend
    rw [heq, State.follow_cons] at hend
    obtain ⟨rest', heq'⟩ := hs₁.exists_turn hend
    exact ⟨rest', heq.trans heq'⟩
  ends' order hend := by
    obtain ⟨rest, heq⟩ := hs'.exists_turn hend
    rw [heq, State.follow_cons] at hend
    obtain ⟨rest', heq'⟩ := hs₁'.exists_turn hend
    rw [heq', State.follow_cons] at hend
    obtain ⟨rest'', heq''⟩ := hs₂'.exists_turn hend
    exact ⟨rest'', heq.trans (heq'.trans heq'')⟩
  inTurn n m hover hover' hq := by
    obtain ⟨n₁, -, heq⟩ := hs.exists_round hover
    rw [heq] at hover
    obtain ⟨n₂, -, heq₂⟩ := hs₁.exists_round hover
    rw [heq₂] at hover
    obtain ⟨m₁, hm₁, heq'⟩ := hs'.exists_round hover'
    rw [heq'] at hover'
    obtain ⟨m₂, hm₂, heq₂'⟩ := hs₁'.exists_round hover'
    rw [heq₂'] at hover'
    obtain ⟨m₃, hm₃, heq₃'⟩ := hs₂'.exists_round hover'
    rw [heq₃'] at hover'
    rw [heq, heq₂, heq', heq₂', heq₃']
    -- Both runs are compared after as many rounds, since further rounds change nothing.
    have hboth := halike.runFor hc [0] hq
    have hlast := State.runFor_eq_of_isOver hover' (show m₃ ≤ m by omega)
    rw [hlast] at hboth
    have hover₂ := (hboth.isOver_eq [0]).trans hover'
    rw [← hboth.store]
    rcases Nat.le_total n₂ m with hle | hle
    · rw [State.runFor_eq_of_isOver hover hle]
    · rw [State.runFor_eq_of_isOver hover₂ hle]

/-- Two worlds that differ in the reply to one request. In the first one the first source of a
library has the text, as a script without types; in the second one it has a fault, and a file that
both worlds have, outside the cache, holds the text. -/
structure Supplies (cache : Cache) (k : Claim) (fallback module asked : String)
    (source : Fetch.Source) (w w' : World) : Prop where
  plain : cache.IsPlain
  usable : cache.Usable w.files
  files : w'.files = w.files
  now : w'.now = w.now
  replies : ∀ u, u ≠ asked → w'.replyTo u = w.replyTo u
  remote : Fetch.protocol k.url = .ok (.remote module)
  has : ((Fetch.fetch cache k.url).run w).1 = .ok source
  script : ∀ r, ((Fetch.cachedGet cache module).run w).1 = .ok r →
    r.headers.get? Fetch.typesHeader = none
  lacks : ∃ e, ((Fetch.fetch cache k.url).run w').1 = .error e ∧ e.isOwn = true
  file : ∃ path, Fetch.protocol fallback = .ok .local ∧ FilePath.ofUrl fallback = .ok path ∧
    ['.', '.'] ∉ FilePath.components path.toList ∧
    ¬ w.files.placeOf cache.directory <+: w.files.placeOf path ∧
    w.files.text path = .ok source.text

namespace Supplies

variable {c : Setting World} {cache : Cache} {k : Claim} {fallback module asked : String}
  {source : Fetch.Source} {w w' : World}

/-- After the first source was tried, the worlds differ in what is kept of it. -/
theorem beside (h : Supplies cache k fallback module asked source w w') :
    cache.Beside module asked ((Fetch.fetch cache k.url).run w).2
      ((Fetch.fetch cache k.url).run w').2 := by
  obtain ⟨e, he, -⟩ := h.lacks
  have husable' : cache.Usable w'.files := h.files ▸ h.usable
  have hstart : cache.Beside module asked w w' :=
    ⟨h.usable, husable', h.files ▸ .refl _ _, h.now, h.replies, fun v _ =>
      Cache.fresh_congr (by rw [h.files]) h.now⟩
  have hfirst : cache.Beside module asked w _ :=
    Cache.beside_fetch h.plain h.usable h.remote fun _ r _ hr => h.script r hr
  have hsecond : cache.Beside module asked w' _ :=
    Cache.beside_fetch h.plain husable' h.remote fun _ _ hok => by
      cases he.symm.trans hok
  exact hfirst.symm.trans (hstart.trans hsecond)

/-- The second source has the text then. -/
theorem fetch_fallback (h : Supplies cache k fallback module asked source w w') :
    (Fetch.fetch cache fallback).run ((Fetch.fetch cache k.url).run w').2 =
      (.ok ⟨source.text, fallback, .empty⟩, ((Fetch.fetch cache k.url).run w').2) := by
  obtain ⟨path, hway, hpath, hdots, hplace, htext⟩ := h.file
  have hwithin := Cache.StaysWithin.fetch h.plain k.url w' (h.files ▸ h.usable)
  have htext₁ : ((Fetch.fetch cache k.url).run w').2.files.text path = .ok source.text := by
    rw [← h.files] at htext hplace
    exact hwithin.files.text (h.files ▸ h.usable.sound) hwithin.usable.sound hdots hplace htext
  exact Fetch.run_fetch_of_file cache hway hpath htext₁

theorem alike_seeking {R : World → World → Prop} (hR : R w w') {notices notices' : List Notice}
    (d : Demand) (k : Claim) (urls : List String) {errors errors' : List String} :
    (State.seeking w notices d k urls errors).Alike c R
      (State.seeking w' notices' d k urls errors') := by
  refine ⟨hR, rfl, rfl, fun i => ?_⟩
  cases i with
  | zero => exact .some ⟨rfl, .same d, .fetching k urls errors errors'⟩
  | succ i => exact .none

variable {name : String} {d : Demand}

/-- **main theorem**: a library is loaded over both worlds. If everything that its text names leads to
the same URLs from both sources, and whatever else is fetched has nothing to do with the first
source, the files are the same, in whatever order tasks advance. -/
theorem interchangeable (hf : FetchesOver c cache)
    (h : Supplies cache k fallback module asked source w w') (hname : d.IsLibrary name)
    (ha : (Demand.library name).aim c = .ok (k, [k.url, fallback]))
    (hleads : ∀ t, Rewrite.Asks k.path source.text (.module t) →
      c.LeadsAlike source.url fallback t) :
    Interchangeable c (cache.Avoids module asked) ((State.start w).ask none [d]).1
      ((State.start w').ask none [d]).1 := by
  have haim : d.aim c = .ok (k, [k.url, fallback]) := hname.aim_eq.trans ha
  have hblurs : c.Blurs (cache.Beside module asked) (cache.Avoids module asked) := by
    intro w w' url hbeside havoids
    rw [hf, hf]
    exact hbeside.fetch h.plain havoids
  obtain ⟨e, he, hown⟩ := h.lacks
  have hhas : (c.fetch k.url w).1 = .ok source := by rw [hf, h.has]
  have hlacks : (c.fetch k.url w').1 = .error e := by rw [hf, he]
  have hfallback := h.fetch_fallback
  rw [← hf k.url, ← hf fallback] at hfallback
  have hbeside := h.beside
  rw [← hf, ← hf] at hbeside
  have hfirst := State.step_asked w haim
  have hfirst' := State.step_asked w' haim
  have hmissed : (State.seeking w' [] d k [k.url, fallback] []).step c 0 = _ :=
    State.step_seeking_of_missed hlacks hown (List.cons_ne_nil fallback [])
  refine interchangeable_of_alike hblurs (State.single_asked w d) ?_ (State.single_asked w' d)
    ?_ ?_ ?_
  · exact hfirst ▸ State.single_seeking
  · exact hfirst' ▸ State.single_seeking
  · rw [hfirst', hmissed]
    exact State.single_seeking
  · rw [hfirst, hfirst', hmissed, State.step_seeking_of_text hhas,
      State.step_seeking_of_text (congrArg Prod.fst hfallback), hfallback,
      State.draft_seeking ⟨source.text, fallback, .empty⟩ [k.url, fallback] []]
    have htext : source.text = Fetch.Source.text ⟨source.text, fallback, .empty⟩ := rfl
    exact (alike_seeking hbeside d k [k.url, fallback]).draft 0 k htext hleads

end Supplies

/-! ## Texts by which sources are told apart -/

theorem isNameChar_of_mem_entryName {url : String} {x : Char}
    (h : x ∈ (legibleCache.entryName url).toList) : Url.isNameChar x = true := by
  rw [legibleCache, String.toList_ofList] at h
  have halnum := (List.mem_filter.1 h).2
  rw [Url.isNameChar, halnum]
  rfl

theorem plain_legibleCache : legibleCache.IsPlain where
  directory := ⟨by decide, by decide⟩
  nonempty := by decide
  characters url x hx := by
    have hname := isNameChar_of_mem_entryName hx
    constructor
    · rintro rfl
      cases hname
    · rintro rfl
      cases hname
  short url := by
    rw [Utf8.width_ascii fun x hx =>
      (Url.isNameChar_spec (isNameChar_of_mem_entryName hx)).2.1]
    have hlen : (legibleCache.entryName url).toList.length ≤ 20 := by
      rw [legibleCache, String.toList_ofList]
      exact (List.length_filter_le _ _).trans (List.length_take_le _ _)
    exact (Nat.add_le_add_right hlen 5).trans (by decide)

/-- The bundled directory has this text for the library `dom`, and the library directory gives this
reply. Next to the latter there is one more module. -/
def domHolding (text : String) (reply : Fetch.Reply) : World where
  files := ⟨[(["bundled".toList], .directory), (["bundled".toList, "lib.dom.d.ts.txt".toList],
    .file (Utf8.encode text))], []⟩
  routes := [(domUrl, reply), ("https://libs.example/dts/x.ts", .response 200 [] (Utf8.encode "1"))]
  now := 1700000000000000
  requests := []
  log := []

/-- The library directory has the text as well. -/
def domServed (text : String) : World := domHolding text (.response 200 [] (Utf8.encode text))

/-- The library directory is down. -/
def domDown (text : String) : World := domHolding text (.response 503 [] [])

/-- The library `dom` is asked for. -/
def askDom (w : World) : State World := ((State.start w).ask none [.required "dom"]).1

/-- The library `dom` is loaded. -/
def loadDom (w : World) : State World := (askDom w).run twoSources [0]

/-- The path of the library `dom`. -/
def domClaim : Claim := ⟨domUrl, "/https/libs.example/dts/lib.dom.d.ts"⟩

theorem usable_domHolding (text : String) (reply : Fetch.Reply) :
    legibleCache.Usable (domHolding text reply).files := by
  have hempty : (⟨[], []⟩ : FileTree).Sound :=
    (Cache.usable_oneModule plain_legibleCache).sound
  have hdirectory := hempty.set (p := ["bundled".toList]) (n := .directory) (by decide) rfl
    fun _ => rfl
  have hsound : (domHolding text reply).files.Sound :=
    hdirectory.set (p := ["bundled".toList, "lib.dom.d.ts.txt".toList])
      (n := .file (Utf8.encode text)) (by decide) rfl fun h => by cases h
  refine (Cache.usable_of_missing plain_legibleCache hsound (fun q hq => ?_) rfl).1
  have hq : q ∈ [[], ["cache".toList]] := (List.mem_inits q _).2 hq
  rcases List.mem_pair.1 hq with rfl | rfl <;> rfl

/-- The library is served, and can be read from the bundled directory. -/
def isSupplied (text : String) : Bool :=
  (twoSources.fetch domUrl (domServed text)).1.toOption.map (fun s => (s.text, s.url)) =
      some (text, domUrl) &&
    ((Fetch.cachedGet legibleCache domUrl).run (domServed text)).1.toOption.map
      (fun r => r.headers.get? Fetch.typesHeader) = some none &&
    (match (twoSources.fetch domUrl (domDown text)).1 with
      | .ok _ => false
      | .error e => e.isOwn) &&
    ((domDown text).files.text "/bundled/lib.dom.d.ts.txt").toOption = some text

theorem supplies_dom {text : String} (h : isSupplied text = true) : ∃ source, source.text = text ∧
    source.url = domUrl ∧ Supplies legibleCache domClaim domFallback domUrl domUrl source
      (domServed text) (domDown text) := by
  simp only [isSupplied, Bool.and_eq_true, decide_eq_true_eq] at h
  obtain ⟨⟨⟨hserved, hscript⟩, hdown⟩, hfile⟩ := h
  obtain ⟨source, hsource, hboth⟩ := Option.map_eq_some_iff.1 hserved
  obtain ⟨htext, hurl⟩ := Prod.mk.inj hboth
  have hremote : (Fetch.protocol domUrl).toOption = some (.remote domUrl) := by decide +kernel
  have hlocal : (Fetch.protocol domFallback).toOption = some .local := by decide +kernel
  have hpath : (FilePath.ofUrl domFallback).toOption = some "/bundled/lib.dom.d.ts.txt" := by
    decide +kernel
  have hdots : ['.', '.'] ∉ FilePath.components "/bundled/lib.dom.d.ts.txt".toList ∧
      ¬ ["cache".toList] <+: FilePath.components "/bundled/lib.dom.d.ts.txt".toList := by
    decide +kernel
  refine ⟨source, htext, hurl, {
    plain := plain_legibleCache
    usable := usable_domHolding _ _
    files := rfl
    now := rfl
    replies := ?_
    remote := Cache.eq_ok_of_toOption hremote
    has := Cache.eq_ok_of_toOption hsource
    script := ?_
    lacks := ?_
    file := ⟨_, Cache.eq_ok_of_toOption hlocal, Cache.eq_ok_of_toOption hpath, hdots.1, ?_, ?_⟩ }⟩
  · intro u hu
    simp [World.replyTo, domDown, domServed, domHolding, List.lookup_cons, beq_false_of_ne hu]
  · intro r hr
    rw [hr] at hscript
    exact Option.some.inj hscript
  · split at hdown
    · cases hdown
    · next e he => exact ⟨e, he, hdown⟩
  · exact hdots.2
  · rw [htext]
    exact Cache.eq_ok_of_toOption hfile

/-- Whoever loads the library cannot tell by the files where its text came from. -/
def SourcesAgree (text : String) : Prop :=
  ∀ source : Fetch.Source, source.text = text →
    Supplies legibleCache domClaim domFallback domUrl domUrl source (domServed text)
      (domDown text) →
    (loadDom (domServed text)).isQuiet = true → (loadDom (domDown text)).isQuiet = true →
    (loadDom (domDown text)).store = (loadDom (domServed text)).store

theorem aim_dom :
    (Demand.required "dom").aim twoSources = .ok (domClaim, [domUrl, domFallback]) :=
  Cache.eq_ok_of_toOption (by decide +kernel)

/-- The load of the library once it has its path. -/
def seekDom (w : World) : State World :=
  (State.seeking w [] (.required "dom") domClaim [domUrl, domFallback] []).runFor twoSources [0] 999999

theorem loadDom_eq (w : World) : loadDom w = seekDom w := by
  have hround := (State.single_asked w (.required "dom")).runFor_succ (c := twoSources) 999999
  rw [State.step_asked w aim_dom] at hround
  exact hround

/-- Both runs end, and they leave different paths without a text. -/
def tellsSources (text : String) : Bool :=
  isSupplied text && (seekDom (domServed text)).isQuiet && (seekDom (domDown text)).isQuiet &&
    (seekDom (domServed text)).store.unsettled != (seekDom (domDown text)).store.unsettled

/-- The facts about the two runs are worked out one after the other: the run that is served the text
settles every path, and the other one does not. -/
theorem tellsSources_of_settles {text : String} (hsupplied : isSupplied text = true)
    (hserved : ((seekDom (domServed text)).isQuiet &&
      (seekDom (domServed text)).store.unsettled.isEmpty) = true)
    (hdown : ((seekDom (domDown text)).isQuiet &&
      !(seekDom (domDown text)).store.unsettled.isEmpty) = true) : tellsSources text = true := by
  rw [Bool.and_eq_true, List.isEmpty_iff] at hserved
  rw [Bool.and_eq_true, Bool.not_eq_true', List.isEmpty_eq_false_iff] at hdown
  rw [tellsSources, hsupplied, hserved.1, hdown.1, hserved.2]
  simpa using hdown.2.symm

theorem not_sourcesAgree {text : String} (h : tellsSources text = true) : ¬ SourcesAgree text := by
  simp only [tellsSources, Bool.and_eq_true, bne_iff_ne, ne_eq] at h
  obtain ⟨⟨⟨hsupplied, hserved⟩, hdown⟩, hne⟩ := h
  obtain ⟨source, htext, -, hsupplies⟩ := supplies_dom hsupplied
  simp only [← loadDom_eq] at hserved hdown hne
  intro hagree
  exact hne (congrArg ModuleStore.unsettled (hagree source htext hsupplies hserved hdown)).symm

set_option maxRecDepth 100000 in
/-- The sources are told apart by a neighbour, by the first source under another name, and by a file
that is found only where a response was kept. -/
theorem sources_told_apart : ¬ SourcesAgree "import\"./x.ts\"" ∧
    ¬ SourcesAgree "import\"https://LIBS.example/dts/lib.dom.d.ts\"" ∧
    ¬ SourcesAgree "import\"file:///cache/%2e%2e/bundled/lib.dom.d.ts.txt\"" :=
  ⟨not_sourcesAgree (tellsSources_of_settles (by decide +kernel) (by decide +kernel)
      (by decide +kernel)),
    not_sourcesAgree (tellsSources_of_settles (by decide +kernel) (by decide +kernel)
      (by decide +kernel)),
    not_sourcesAgree (tellsSources_of_settles (by decide +kernel) (by decide +kernel)
      (by decide +kernel))⟩

/-- A text that imports the neighbour of the first source by its whole URL. -/
def importNeighbour : String := "import\"https://libs.example/dts/x.ts\""

/-- The turns in which that import is loaded once the text is there. -/
def neighbourOrder : List Nat := [0, 0, 1, 1, 1, 1, 0]

set_option maxRecDepth 100000 in
/-- A module that is imported by its whole URL is stored with the library, whichever source has the
text. -/
theorem interchangeable_importNeighbour :
    isSupplied importNeighbour = true ∧
      ((askDom (domDown importNeighbour)).follow twoSources [0, 0, 0]).FetchesOnly twoSources
        (legibleCache.Avoids domUrl domUrl) neighbourOrder ∧
      ((askDom (domDown importNeighbour)).follow twoSources
        ([0, 0, 0] ++ neighbourOrder)).isQuiet = true ∧
      ((askDom (domDown importNeighbour)).follow twoSources ([0, 0, 0] ++ neighbourOrder)).store =
        ((askDom (domServed importNeighbour)).follow twoSources ([0, 0] ++ neighbourOrder)).store := by
  have hsupplied : isSupplied importNeighbour = true := by decide +kernel
  obtain ⟨source, htext, hurl, hsupplies⟩ := supplies_dom hsupplied
  have hrequests : (Rewrite.requests domClaim.path importNeighbour).toOption =
      some [.module ⟨7, 36, "https://libs.example/dts/x.ts", true⟩] := by decide +kernel
  have hleads : (twoSources.importMap.resolve domUrl "https://libs.example/dts/x.ts").toOption =
        some "https://libs.example/dts/x.ts" ∧
      (twoSources.importMap.resolve domFallback "https://libs.example/dts/x.ts").toOption =
        some "https://libs.example/dts/x.ts" := by decide +kernel
  have hsame : Interchangeable twoSources (legibleCache.Avoids domUrl domUrl)
      (askDom (domServed importNeighbour)) (askDom (domDown importNeighbour)) :=
    hsupplies.interchangeable (c := twoSources) (fun _ _ => rfl) .required aim_dom fun t ht => by
      rw [htext, Rewrite.asks_iff_of_requests (Cache.eq_ok_of_toOption hrequests),
        List.mem_singleton] at ht
      cases ht
      rw [hurl, Setting.LeadsAlike, Cache.eq_ok_of_toOption hleads.1,
        Cache.eq_ok_of_toOption hleads.2]
      exact .refl _
  have hapart : ((askDom (domDown importNeighbour)).follow twoSources [0, 0, 0]).FetchesOnly
        twoSources (legibleCache.Avoids domUrl domUrl) neighbourOrder ∧
      ((askDom (domDown importNeighbour)).follow twoSources
        ([0, 0, 0] ++ neighbourOrder)).isQuiet = true := by decide +kernel
  exact ⟨hsupplied, hapart.1, hapart.2, (hsame.inStep _ hapart.1).1⟩

end ModuleGraph.Loading
