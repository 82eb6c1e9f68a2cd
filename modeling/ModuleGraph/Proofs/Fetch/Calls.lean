import ModuleGraph.Proofs.Fetch.History
/-!
# The calls of a fetch

What a module has is told here as if nothing were kept: `World.source` is what the network and the
files have for a URL. A fetch through a cache comes to the same where every call answers what the
network has. It calls for the URLs that it looks up and for no others, the one of the module and, if
the response names a file with types, the one of that file.

Results:
* `fetchRemote_of_error`, `fetchRemote_of_script`, `fetchRemote_of_join_error`,
  `fetchRemote_of_types`: what is fetched over the network, by what the first call answers;
* `Cache.exists_calls`: the calls of a fetch over the network;
* `Cache.run_fetch`: **main theorem**: a fetch is made of calls for the URLs that it looks up.
-/

namespace ModuleGraph.Fetch

/-! ## What the network has -/

/-- The response, as if it had come at another time. -/
def CachedResponse.at (r : CachedResponse) (time : Int) : CachedResponse :=
  { r with fetchedAt := ⟨time, 0⟩ }

namespace World

/-- What a request of the URL yields. -/
def answerTo (w : World) (d : Reading) (url : String) : Except Fault CachedResponse :=
  ((request d url).run w).1

/-- What a request yields depends on the network and on the reading of bodies, and on nothing else
but the time. -/
theorem answerTo_eq {w w' : World} (h : w'.replyTo = w.replyTo) (d : Reading) (url : String) :
    w'.answerTo d url = (w.answerTo d url).map (·.at w'.now) := by
  obtain ⟨urls, outcome, -, hrun⟩ := exists_get d w.replyTo url
  rw [answerTo, answerTo, hrun w' h, hrun w rfl]
  cases outcome with
  | error e => rfl
  | ok l =>
    dsimp only
    rw [yielded, yielded]
    split
    · cases d.body l.headers l.body <;> rfl
    · rfl

/-- The module at a URL of the network, or the file with its types. -/
def remoteSource (w : World) (d : Reading) (url : String) : Except Fault Source := do
  let r ← w.answerTo d url
  match r.headers.get? typesHeader with
  | some types =>
    let target ← (Url.join r.responseUrl types).mapError urlFault
    let t ← w.answerTo d target
    return ⟨t.text, typesUrl t.responseUrl, t.headers⟩
  | none =>
    let counted ← (scriptUrl r.responseUrl).mapError urlFault
    return ⟨r.text, counted, r.headers⟩

theorem remoteSource_of_error (w : World) {d : Reading} {url : String} {e : Fault}
    (hr : w.answerTo d url = .error e) : w.remoteSource d url = .error e := by
  rw [remoteSource, hr]
  rfl

theorem remoteSource_of_script (w : World) {d : Reading} {url : String} {r : CachedResponse}
    (hr : w.answerTo d url = .ok r) (ht : r.headers.get? typesHeader = none) :
    w.remoteSource d url = ((scriptUrl r.responseUrl).mapError urlFault).map
      fun counted => ⟨r.text, counted, r.headers⟩ := by
  rw [remoteSource, hr]
  change (match r.headers.get? typesHeader with
    | some _ => _
    | none => _) = _
  rw [ht]
  rfl

theorem remoteSource_of_types (w : World) {d : Reading} {url types : String} {r : CachedResponse}
    (hr : w.answerTo d url = .ok r) (ht : r.headers.get? typesHeader = some types) :
    w.remoteSource d url = ((Url.join r.responseUrl types).mapError urlFault).bind fun target =>
      (w.answerTo d target).map fun t => ⟨t.text, typesUrl t.responseUrl, t.headers⟩ := by
  rw [remoteSource, hr]
  change (match r.headers.get? typesHeader with
    | some _ => _
    | none => _) = _
  rw [ht]
  rfl

/-- The URL at which a module is requested, or that of the file with its types. -/
inductive Requires (w : World) (d : Reading) (url : String) : String → Prop
  | module : Requires w d url url
  | types {r : CachedResponse} {types target : String} (hr : w.answerTo d url = .ok r)
      (ht : r.headers.get? typesHeader = some types)
      (hj : Url.join r.responseUrl types = .ok target) : Requires w d url target

theorem Requires.eq_of_script {w : World} {d : Reading} {url key : String} {r : CachedResponse}
    (h : w.Requires d url key) (hr : w.answerTo d url = .ok r)
    (ht : r.headers.get? typesHeader = none) : key = url := by
  cases h with
  | module => rfl
  | types hr' ht' hj =>
    rw [hr, Except.ok.injEq] at hr'
    rw [← hr', ht] at ht'
    cases ht'

theorem Requires.eq_of_types {w : World} {d : Reading} {url key types target : String}
    {r : CachedResponse} (h : w.Requires d url key) (hr : w.answerTo d url = .ok r)
    (ht : r.headers.get? typesHeader = some types)
    (hj : Url.join r.responseUrl types = .ok target) : key = url ∨ key = target := by
  cases h with
  | module => exact .inl rfl
  | types hr' ht' hj' =>
    rw [hr, Except.ok.injEq] at hr'
    rw [← hr', ht, Option.some.injEq] at ht'
    rw [← hr', ← ht', hj, Except.ok.injEq] at hj'
    exact .inr hj'.symm

/-- What a module has, if nothing is kept. -/
def source (w : World) (d : Reading) (url : String) : Except Fault Source := do
  match ← protocol url with
  | .local => ((fetchLocal url).run w).1
  | .remote network => w.remoteSource d network

theorem source_of_local (w : World) {d : Reading} {url : String} (h : protocol url = .ok .local) :
    w.source d url = ((fetchLocal url).run w).1 := by
  rw [source, h]
  rfl

theorem source_of_remote (w : World) {d : Reading} {url network : String}
    (h : protocol url = .ok (.remote network)) : w.source d url = w.remoteSource d network := by
  rw [source, h]
  rfl

/-- The URLs whose entries are looked up when a module is fetched. -/
def Looks (w : World) (d : Reading) (url key : String) : Prop :=
  ∃ network, protocol url = .ok (.remote network) ∧ w.Requires d network key

end World

/-- A local module is what its file holds. -/
theorem fetchLocal_eq_ok_iff {w w' : World} {url : String} {source : Source} :
    (fetchLocal url).run w = (.ok source, w') ↔ w' = w ∧ ∃ path text,
      FilePath.ofUrl url = .ok path ∧ w.files.text path = .ok text ∧
        source = ⟨text, url, .empty⟩ := by
  rw [fetchLocal]
  simp only [Action.run_liftM_bind_eq_ok_iff, Action.run_get_bind, Action.mapError_eq_ok_iff]
  constructor
  · rintro ⟨path, hpath, text, htext, h⟩
    cases h
    exact ⟨rfl, path, text, hpath, htext, rfl⟩
  · rintro ⟨rfl, path, text, hpath, htext, rfl⟩
    exact ⟨path, hpath, text, htext, rfl⟩

/-- A file that can be read is fetched, and nothing changes. -/
theorem run_fetch_of_file (c : Cache) {w : World} {url path text : String}
    (hway : protocol url = .ok .local) (hpath : FilePath.ofUrl url = .ok path)
    (htext : w.files.text path = .ok text) :
    (fetch c url).run w = (.ok ⟨text, url, .empty⟩, w) := by
  rw [fetch, Action.run_bind, Action.run_liftM, hway]
  exact fetchLocal_eq_ok_iff.2 ⟨rfl, path, text, hpath, htext, rfl⟩

/-! ## A module over the network -/

section

variable {c : Cache} {w w₁ : World} {url types target : String} {r : CachedResponse} {e : Fault}
  {p : Url.Problem}

theorem fetchRemote_of_error (hrun : (cachedGet c url).run w = (.error e, w₁)) :
    (fetchRemote c url).run w = (.error e, w₁) := by
  rw [fetchRemote, Action.run_bind, hrun]

/-- A response that names no file with types is the module. -/
theorem fetchRemote_of_script (hrun : (cachedGet c url).run w = (.ok r, w₁))
    (ht : r.headers.get? typesHeader = none) :
    (fetchRemote c url).run w = (((scriptUrl r.responseUrl).mapError urlFault).map
      fun counted => ⟨r.text, counted, r.headers⟩, w₁) := by
  rw [fetchRemote, Action.run_bind, hrun]
  dsimp only
  rw [ht]
  dsimp only
  rw [Action.run_bind, Action.run_liftM]
  cases scriptUrl r.responseUrl <;> rfl

theorem fetchRemote_of_join_error (hrun : (cachedGet c url).run w = (.ok r, w₁))
    (ht : r.headers.get? typesHeader = some types) (hj : Url.join r.responseUrl types = .error p) :
    (fetchRemote c url).run w = (.error (urlFault p), w₁) := by
  rw [fetchRemote, Action.run_bind, hrun]
  dsimp only
  rw [ht]
  dsimp only
  rw [Action.run_bind, Action.run_liftM, hj]
  rfl

/-- The file with types that a response names is the module. -/
theorem fetchRemote_of_types (hrun : (cachedGet c url).run w = (.ok r, w₁))
    (ht : r.headers.get? typesHeader = some types) (hj : Url.join r.responseUrl types = .ok target) :
    (fetchRemote c url).run w = (((cachedGet c target).run w₁).1.map
      fun t => ⟨t.text, typesUrl t.responseUrl, t.headers⟩, ((cachedGet c target).run w₁).2) := by
  rw [fetchRemote, Action.run_bind, hrun]
  dsimp only
  rw [ht]
  dsimp only
  rw [Action.run_bind, Action.run_liftM, hj]
  dsimp only [Action.mapError_ok]
  rw [Action.run_bind]
  rcases (cachedGet c target).run w₁ with ⟨t, w₂⟩
  cases t <;> rfl

end

namespace Cache

variable {c : Cache} {w₀ w : World} {url : String}

/-! ## The calls of one fetch -/

section

variable {P : World → Prop}

/-- The calls that a fetch over the network makes: for what is required and nothing else, for all of
it if the module can be fetched; and the fetch yields what it would if nothing were kept. -/
structure Calls (c : Cache) (w₀ w : World) (url : String) (ks : List String) : Prop where
  required : ∀ k ∈ ks, w₀.Requires c.reading url k
  all : ∀ source, w₀.remoteSource c.reading url = .ok source → ∀ k, w₀.Requires c.reading url k →
    k ∈ ks ∧ ∃ r, w₀.answerTo c.reading k = .ok r
  run : (fetchRemote c url).run w = (w₀.remoteSource c.reading url, c.afterAll w (ks.map .get))

/-- A fetch that ends after the first call. -/
theorem Calls.of_one
    (hall : ∀ source, w₀.remoteSource c.reading url = .ok source → ∀ k, w₀.Requires c.reading url k →
      k = url ∧ ∃ r, w₀.answerTo c.reading k = .ok r)
    (hrun : (fetchRemote c url).run w = (w₀.remoteSource c.reading url, c.after w (.get url))) :
    c.Calls w₀ w url [url] where
  required k hk := List.mem_singleton.1 hk ▸ .module
  all source hsource k hk := by
    obtain ⟨rfl, hr⟩ := hall source hsource k hk
    exact ⟨List.mem_singleton_self k, hr⟩
  run := hrun

theorem Calls.of_error {w₁ : World} {e : Fault} (hr : w₀.answerTo c.reading url = .error e)
    (hrun : (cachedGet c url).run w = (.error e, w₁)) : c.Calls w₀ w url [url] := by
  have hsource := w₀.remoteSource_of_error hr
  refine .of_one (fun source h => ?_) ?_
  · rw [hsource] at h
    cases h
  · rw [fetchRemote_of_error hrun, hsource, after_get, hrun]

/-- A response that is a module is the only one. -/
theorem Calls.of_script {w₁ : World} {r : CachedResponse} {time : Int}
    (hr : w₀.answerTo c.reading url = .ok r) (ht : r.headers.get? typesHeader = none)
    (hrun : (cachedGet c url).run w = (.ok (r.at time), w₁)) : c.Calls w₀ w url [url] := by
  refine .of_one (fun source _ k hk => ?_) ?_
  · obtain rfl := hk.eq_of_script hr ht
    exact ⟨rfl, r, hr⟩
  · rw [fetchRemote_of_script hrun ht, w₀.remoteSource_of_script hr ht, after_get, hrun]
    rfl

/-- So is one that names no URL for its types. -/
theorem Calls.of_join_error {w₁ : World} {r : CachedResponse} {time : Int} {types : String}
    {p : Url.Problem} (hr : w₀.answerTo c.reading url = .ok r)
    (ht : r.headers.get? typesHeader = some types) (hj : Url.join r.responseUrl types = .error p)
    (hrun : (cachedGet c url).run w = (.ok (r.at time), w₁)) : c.Calls w₀ w url [url] := by
  have hsource := w₀.remoteSource_of_types hr ht
  rw [hj] at hsource
  refine .of_one (fun source h => ?_) ?_
  · rw [hsource] at h
    cases h
  · rw [fetchRemote_of_join_error hrun ht hj, hsource, after_get, hrun]
    rfl

/-- After a response that names its types there is one more call. -/
theorem Calls.of_types {w₁ : World} {r : CachedResponse} {time time' : Int} {types target : String}
    (hr : w₀.answerTo c.reading url = .ok r) (ht : r.headers.get? typesHeader = some types)
    (hj : Url.join r.responseUrl types = .ok target)
    (hrun : (cachedGet c url).run w = (.ok (r.at time), w₁))
    (hrun' : ((cachedGet c target).run w₁).1 =
      (w₀.answerTo c.reading target).map (·.at time')) : c.Calls w₀ w url [url, target] := by
  have hsource : w₀.remoteSource c.reading url = (w₀.answerTo c.reading target).map fun t =>
      ⟨t.text, typesUrl t.responseUrl, t.headers⟩ := by
    rw [w₀.remoteSource_of_types hr ht, hj]
    rfl
  refine ⟨?_, fun source h k hk => ?_, ?_⟩
  · rw [List.forall_mem_cons, List.forall_mem_singleton]
    exact ⟨.module, .types hr ht hj⟩
  · rcases hk.eq_of_types hr ht hj with rfl | rfl
    · exact ⟨List.mem_cons_self, r, hr⟩
    · cases ha : w₀.answerTo c.reading k with
      | ok t => exact ⟨List.mem_cons_of_mem _ (List.mem_singleton_self k), t, rfl⟩
      | error e =>
        rw [hsource, ha] at h
        cases h
  · rw [fetchRemote_of_types hrun ht hj, hrun', hsource, List.map_cons, List.map_singleton,
      afterAll_cons, after_get, hrun, afterAll_cons, after_get]
    cases w₀.answerTo c.reading target <;> rfl

/-- Where every call answers what the network has, a module is fetched over the network as if
nothing were kept. -/
theorem exists_calls (hget : ∀ k w, w₀.Requires c.reading url k → P w →
      (∃ time, ((cachedGet c k).run w).1 = (w₀.answerTo c.reading k).map (·.at time)) ∧
        P (c.after w (.get k)))
    (h : P w) : ∃ ks, c.Calls w₀ w url ks := by
  have hfirst := hget url w .module h
  rw [after_get] at hfirst
  rcases hrun : (cachedGet c url).run w with ⟨first, w₁⟩
  rw [hrun] at hfirst
  obtain ⟨⟨time, rfl⟩, h₁⟩ := hfirst
  cases hr : w₀.answerTo c.reading url with
  | error e =>
    rw [hr] at hrun
    exact ⟨_, .of_error hr hrun⟩
  | ok r =>
    rw [hr] at hrun
    cases ht : r.headers.get? typesHeader with
    | none => exact ⟨_, .of_script hr ht hrun⟩
    | some types =>
      cases hj : Url.join r.responseUrl types with
      | error p => exact ⟨_, .of_join_error hr ht hj hrun⟩
      | ok target =>
        obtain ⟨⟨time', hrun'⟩, -⟩ := hget target w₁ (.types hr ht hj) h₁
        exact ⟨_, .of_types hr ht hj hrun hrun'⟩

/-- **main theorem**: where every call answers what the network has, what has a text can be fetched.
The fetch calls for all URLs that it looks up, and for no others. -/
theorem run_fetch {source : Source} (hsource : w₀.source c.reading url = .ok source)
    (hget : ∀ k w, w₀.Looks c.reading url k → P w →
      (∃ time, ((cachedGet c k).run w).1 = (w₀.answerTo c.reading k).map (·.at time)) ∧
        P (c.after w (.get k)))
    (hfiles : w₀.files.Extends w.files) (h : P w) :
    ∃ ks : List String, (∀ k ∈ ks, w₀.Looks c.reading url k) ∧
      (∀ k, w₀.Looks c.reading url k → k ∈ ks ∧ ∃ r, w₀.answerTo c.reading k = .ok r) ∧
      (fetch c url).run w = (.ok source, c.afterAll w (ks.map .get)) := by
  obtain ⟨way, hway, -⟩ := Action.bind_eq_ok_iff.1 hsource
  cases way with
  | «local» =>
    rw [w₀.source_of_local hway] at hsource
    refine ⟨[], fun k hk => absurd hk List.not_mem_nil, fun k hk => ?_, ?_⟩
    · obtain ⟨network, hway', -⟩ := hk
      rw [hway] at hway'
      cases hway'
    · obtain ⟨-, path, text, hpath, htext, rfl⟩ :=
        fetchLocal_eq_ok_iff.1 (Prod.ext hsource (Eq.refl ((fetchLocal url).run w₀).2))
      exact run_fetch_of_file c hway hpath (hfiles.text htext)
  | remote network =>
    rw [fetch, Action.run_bind, Action.run_liftM, hway]
    rw [w₀.source_of_remote hway] at hsource
    have hlooks : ∀ k, w₀.Looks c.reading url k ↔ w₀.Requires c.reading network k := by
      intro k
      constructor
      · rintro ⟨network', hway', hk⟩
        rw [hway, Except.ok.injEq, Protocol.remote.injEq] at hway'
        exact hway' ▸ hk
      · exact fun hk => ⟨network, hway, hk⟩
    simp only [hlooks] at hget ⊢
    obtain ⟨ks, hcalls⟩ := exists_calls hget h
    exact ⟨ks, hcalls.required, hcalls.all source hsource, hcalls.run.trans (by rw [hsource])⟩

end

end Cache

end ModuleGraph.Fetch
