import ModuleGraph.Proofs.Fetch.Escape
import ModuleGraph.Proofs.VirtualPath
/-!
# Two readings of a scheme

The scheme of a URL is looked at twice: for the path under which the module is stored, before
anything is read, and for the way in which it is fetched. Each has its own table of schemes. Here
the two are shown to agree on every text, so that no path is reserved for what cannot be fetched,
and nothing is fetched that has no path.

A fetch is told here as a recursion on the scheme of the URL itself: a URL of a registry is
rewritten, and then fetched as any other. `Unfolds` is this recursion with the number of rewritings,
and `fetch` does the one thing that it comes to.

Results:
* `UrlKind.exhaustive`: what a text is for both readings;
* `Fetch.FailsOfSource.fetchRemote`: once a way of fetching is chosen, no fault says that there is
  none;
* `Fetch.exists_unfolds`: a fetch rewrites its URL at most once;
* `Fetch.dispatches_alike`: **main theorem**: both readings agree.
-/

namespace ModuleGraph

/-! ## Schemes -/

/-- A text whose authority has no problem has parts. -/
theorem Url.exists_splitClean {inherited cs : List Char}
    (h : authorityProblem (cutAuthority (cutScheme inherited cs).2).1 = none) :
    ∃ p, splitClean inherited cs = .ok p := by
  unfold splitClean
  dsimp only
  rw [h]
  exact ⟨_, rfl⟩

/-- What a registry URL is rewritten to is a URL of a host. -/
theorem split_of_origin {scheme : List Char} {origin : String}
    (h : registryOrigin? scheme = some origin) (rest : String) :
    ∃ p, Url.split (origin ++ rest) = .ok p ∧ p.scheme = "https".toList := by
  obtain ⟨r, rfl⟩ : ∃ r, rest = .ofList r := ⟨rest.toList, String.ofList_toList.symm⟩
  have hhost (cs : List Char) (hproblem : Url.authorityProblem
        (Url.cutAuthority ((cs ++ r).filter fun c => !Url.isLineControl c)).1 = none) :
      ∃ p, Url.split (.ofList ("https:".toList ++ cs) ++ .ofList r) = .ok p ∧
        p.scheme = "https".toList := by
    rw [← String.ofList_append, List.append_assoc]
    obtain ⟨p, hp⟩ : ∃ p, Url.split (.ofList ("https:".toList ++ (cs ++ r))) = .ok p := by
      rw [Url.split, String.toList_ofList, Url.clean_https]
      exact Url.exists_splitClean hproblem
    exact ⟨p, hp, Url.scheme_of_https hp⟩
  unfold registryOrigin? at h
  split at h
  · cases h
    refine hhost "//esm.sh/".toList ?_
    rw [List.filter_append]
    rfl
  · cases h
    refine hhost "//esm.sh/jsr/".toList ?_
    rw [List.filter_append]
    rfl
  · cases h

theorem registryToNetworkUrl_of_none {url : String} {p : Url.Parts} (hp : Url.split url = .ok p)
    (ho : registryOrigin? p.scheme = none) : registryToNetworkUrl url = .ok url := by
  simp only [registryToNetworkUrl, hp, Except.map, ho]

/-- What is rewritten once stays as it is. -/
theorem registryToNetworkUrl_of_https {url : String} {p : Url.Parts} (hp : Url.split url = .ok p)
    (hs : p.scheme = "https".toList) : registryToNetworkUrl url = .ok url := by
  refine registryToNetworkUrl_of_none hp ?_
  rw [hs]
  rfl

theorem ne_of_registryOrigin? {scheme : List Char} {origin : String}
    (h : registryOrigin? scheme = some origin) :
    scheme ≠ "file".toList ∧ scheme ≠ "https".toList := by
  constructor
  all_goals
    rintro rfl
    cases h

/-- A text is no URL, or one of no registry, which stays as it is, or one of a registry, which is
rewritten to a URL of a host. -/
inductive UrlKind (url : String) : Prop
  | malformed {p : Url.Problem} (h : Url.split url = .error p)
  | plain {p : Url.Parts} (h : Url.split url = .ok p) (ho : registryOrigin? p.scheme = none)
      (hn : registryToNetworkUrl url = .ok url)
  | registry {p q : Url.Parts} {origin network : String} (h : Url.split url = .ok p)
      (ho : registryOrigin? p.scheme = some origin) (hn : registryToNetworkUrl url = .ok network)
      (hq : Url.split network = .ok q) (hs : q.scheme = "https".toList)

theorem UrlKind.exhaustive (url : String) : UrlKind url := by
  cases hp : Url.split url with
  | error e => exact .malformed hp
  | ok p =>
    cases ho : registryOrigin? p.scheme with
    | none => exact .plain hp ho (registryToNetworkUrl_of_none hp ho)
    | some origin =>
      obtain ⟨q, hq, hs⟩ := split_of_origin ho
        (Text.trimStart (· = '/') (Text.dropFirst url (p.scheme.length + 1)))
      refine .registry hp ho ?_ hq hs
      simp only [registryToNetworkUrl, hp, Except.map, ho]

/-- The schemes of the registries. -/
theorem registryOrigin?_eq_none_iff {scheme : List Char} :
    registryOrigin? scheme = none ↔ scheme ≠ "npm".toList ∧ scheme ≠ "jsr".toList := by
  unfold registryOrigin?
  split
  · simp
  · simp
  · next hnpm hjsr => exact iff_of_true rfl ⟨hnpm, hjsr⟩

namespace Fetch

/-! ## Faults of what is fetched -/

/-- A fault that says what came of an attempt to fetch, or an error from outside. -/
inductive OfSource : Fault → Prop
  | fetch (url reason : String) : OfSource (.fetch url reason)
  | foreign (e : Foreign) : OfSource (.foreign e)

/-- Every fault of the action is one of what is fetched. -/
def FailsOfSource {α : Type} (a : Action α) : Prop :=
  ∀ w e, (a.run w).1 = .error e → OfSource e

namespace FailsOfSource

variable {α β : Type}

theorem pure (a : α) : FailsOfSource (Pure.pure a : Action α) := by
  intro w e h
  cases h

theorem get : FailsOfSource (MonadState.get : Action World) := by
  intro w e h
  cases h

theorem lift {x : Except Fault α} (h : ∀ e, x = .error e → OfSource e) :
    FailsOfSource (liftM x : Action α) := by
  intro w e he
  rw [Action.run_liftM] at he
  exact h e he

theorem bind {a : Action α} {f : α → Action β} (ha : FailsOfSource a)
    (hf : ∀ x, FailsOfSource (f x)) : FailsOfSource (a >>= f) := by
  intro w e h
  rw [Action.run_bind] at h
  rcases hrun : a.run w with ⟨r, w'⟩
  rw [hrun] at h
  cases r with
  | error e' =>
    cases h
    exact ha w e (by rw [hrun])
  | ok x => exact hf x w' e h

end FailsOfSource

theorem OfSource.of_endsOutside {α : Type} {r : Except Fault α} (h : EndsOutside r) {e : Fault}
    (he : r = .error e) : OfSource e := by
  obtain ⟨e', he', hown⟩ := h
  rw [he] at he'
  cases he'
  cases e with
  | foreign e => exact .foreign e
  | _ => cases hown

theorem OfSource.transportFault (url : String) (e : Foreign) :
    OfSource (Fetch.transportFault url e) := by
  unfold Fetch.transportFault
  split_ifs
  · exact .fetch _ _
  · exact .foreign e

theorem OfSource.of_mapError {α : Type} {x : Except Url.Problem α} {e : Fault}
    (h : x.mapError urlFault = .error e) : OfSource e := by
  obtain ⟨p, -, rfl⟩ := Action.mapError_eq_error_iff.1 h
  exact .foreign _

theorem FailsOfSource.request (d : Reading) (url : String) : FailsOfSource (request d url) := by
  intro w e h
  obtain ⟨urls, r, -, hrun⟩ := exists_get d w.replyTo url
  rw [hrun w rfl] at h
  cases r with
  | error e' =>
    cases h
    exact .transportFault url e'
  | ok l =>
    dsimp only [yielded] at h
    split_ifs at h
    · cases hb : d.body l.headers l.body with
      | error e' =>
        rw [hb] at h
        cases h
        exact .foreign e'
      | ok text =>
        rw [hb] at h
        cases h
    · cases h
      exact .fetch _ _

theorem FailsOfSource.cachedGet (c : Cache) (url : String) : FailsOfSource (cachedGet c url) := by
  refine .bind (fun w e h => ?_) fun found => ?_
  · rcases c.find_cases w url with ⟨r, -, hrun⟩ | ⟨-, hout⟩ | ⟨-, -, w', -, hrun⟩
    · rw [hrun] at h
      cases h
    · exact .of_endsOutside hout h
    · rw [hrun] at h
      cases h
  · cases found with
    | some r => exact .pure r
    | none =>
      refine .bind (.request c.reading url) fun r => .bind (fun w e h => ?_) fun _ => .pure r
      obtain ⟨w', hkeep⟩ := c.run_keep r w
      rw [hkeep] at h
      cases h

/-- Whatever keeps a request from a text, it is not that the URL cannot be fetched in any way. -/
theorem FailsOfSource.fetchRemote (c : Cache) (url : String) :
    FailsOfSource (fetchRemote c url) := by
  refine .bind (.cachedGet c url) fun r => ?_
  cases r.headers.get? typesHeader with
  | some types =>
    refine .bind (.lift fun e => .of_mapError) fun target => ?_
    exact .bind (.cachedGet c target) fun t => .pure _
  | none => exact .bind (.lift fun e => .of_mapError) fun counted => .pure _

/-- Whatever keeps a file from being read, it is not that the URL cannot be fetched in any way. -/
theorem FailsOfSource.fetchLocal (url : String) : FailsOfSource (fetchLocal url) := by
  refine .bind (.lift fun e => .of_mapError) fun path => .bind .get fun w => ?_
  refine .bind (.lift fun e h => ?_) fun text => .pure _
  obtain ⟨p, -, rfl⟩ := Action.mapError_eq_error_iff.1 h
  cases p with
  | noPath => exact .foreign _
  | _ => exact .fetch _ _

/-! ## The recursion of a fetch -/

/-- One turn of a fetch, by the scheme of the URL as it is: what is done, or the URL that is fetched
in its place. -/
def turn (c : Cache) (url : String) : Except Fault (Action Source ⊕ String) := do
  let scheme ← (Url.scheme url).mapError urlFault
  if scheme = "file" then return .inl (fetchLocal url)
  if scheme = "https" then return .inl (fetchRemote c url)
  if scheme = "npm" ∨ scheme = "jsr" then
    let network ← (registryToNetworkUrl url).mapError urlFault
    return .inr network
  throw (.unsupported url)

/-- The fetch of the URL comes to the action after `n` rewritings. -/
inductive Unfolds (c : Cache) : (n : Nat) → (url : String) → Action Source → Prop
  | refused {url : String} {e : Fault} (h : turn c url = .error e) : Unfolds c 0 url (throw e)
  | done {url : String} {a : Action Source} (h : turn c url = .ok (.inl a)) : Unfolds c 0 url a
  | rewritten {n : Nat} {url network : String} {a : Action Source}
      (h : turn c url = .ok (.inr network)) (hrest : Unfolds c n network a) :
      Unfolds c (n + 1) url a

theorem Unfolds.unique {c : Cache} {m n : Nat} {url : String} {a b : Action Source}
    (h : Unfolds c m url a) (h' : Unfolds c n url b) : m = n ∧ a = b := by
  induction h generalizing n with
  | refused h =>
    cases h' with
    | refused h' =>
      rw [h] at h'
      cases h'
      exact ⟨rfl, rfl⟩
    | done h' | rewritten h' _ =>
      rw [h] at h'
      cases h'
  | done h =>
    cases h' with
    | done h' =>
      rw [h] at h'
      cases h'
      exact ⟨rfl, rfl⟩
    | refused h' | rewritten h' _ =>
      rw [h] at h'
      cases h'
  | rewritten h hrest ih =>
    cases h' with
    | refused h' | done h' =>
      rw [h] at h'
      cases h'
    | rewritten h' hrest' =>
      rw [h] at h'
      cases h'
      obtain ⟨rfl, rfl⟩ := ih hrest'
      exact ⟨rfl, rfl⟩

section

variable {url network : String} {p : Url.Parts} (c : Cache)

theorem turn_eq (hp : Url.split url = .ok p) (hn : registryToNetworkUrl url = .ok network) :
    turn c url =
      if p.scheme = "file".toList then .ok (.inl (fetchLocal url))
      else if p.scheme = "https".toList then .ok (.inl (fetchRemote c url))
      else if registryOrigin? p.scheme = none then .error (.unsupported url)
      else .ok (.inr network) := by
  have hscheme (s : String) : String.ofList p.scheme = s ↔ p.scheme = s.toList := by
    rw [← String.toList_inj, String.toList_ofList]
  have hregistry : p.scheme = "npm".toList ∨ p.scheme = "jsr".toList ↔
      ¬ registryOrigin? p.scheme = none := by
    rw [registryOrigin?_eq_none_iff]
    tauto
  simp only [turn, Url.scheme, hp, hn, Action.mapError_ok, Except.map, bind, Except.bind, hscheme,
    hregistry, ite_not]
  rfl

theorem turn_of_malformed {e : Url.Problem} (h : Url.split url = .error e) :
    turn c url = .error (urlFault e) := by
  simp only [turn, Url.scheme, h, Except.map, Action.mapError_error, bind, Except.bind]

end

/-! ## The way in which a URL is fetched -/

section

variable {url network : String} {p : Url.Parts} {c : Cache}

theorem protocol_of_malformed {e : Url.Problem} (h : Url.split url = .error e) :
    protocol url = .error (urlFault e) := by
  simp only [protocol, registryToNetworkUrl, h, Except.map, Action.mapError_error, bind,
    Except.bind]

theorem virtualPath_of_malformed {e : Url.Problem} (h : Url.split url = .error e) :
    virtualPath url = .error (urlFault e) := by
  simp only [virtualPath, Location.ofUrl, registryToNetworkUrl, h, Except.map,
    Action.mapError_error, bind, Except.bind]
  rfl

theorem protocol_of_https (hn : registryToNetworkUrl url = .ok network)
    (hp : Url.split network = .ok p) (hs : p.scheme = "https".toList) :
    protocol url = .ok (.remote network) := by
  rw [protocol_eq hn hp, hs, if_neg (by decide), if_pos rfl]

theorem fetch_of_error {e : Fault} (h : protocol url = .error e) : fetch c url = throw e := by
  rw [fetch, h]
  rfl

theorem fetch_of_local (h : protocol url = .ok .local) : fetch c url = fetchLocal url := by
  rw [fetch, h]
  rfl

theorem fetch_of_remote (h : protocol url = .ok (.remote network)) :
    fetch c url = fetchRemote c network := by
  rw [fetch, h]
  rfl

end

/-- What has no path cannot be fetched, for the same reason. -/
theorem virtualPath_eq_error_iff {url : String} {e : Fault} :
    virtualPath url = .error e ↔ protocol url = .error e := by
  cases UrlKind.exhaustive url with
  | malformed h =>
    rw [virtualPath_of_malformed h, protocol_of_malformed h]
    simp
  | plain h ho hn =>
    rw [virtualPath_eq hn h, protocol_eq hn h]
    split_ifs <;> simp
  | registry h ho hn hq hs =>
    rw [virtualPath_eq hn hq, protocol_eq hn hq]
    split_ifs <;> simp

/-- A fetch is what its turns come to, with at most one rewriting. -/
theorem exists_unfolds (c : Cache) (url : String) : ∃ n ≤ 1, Unfolds c n url (fetch c url) := by
  cases UrlKind.exhaustive url with
  | malformed h =>
    rw [fetch_of_error (protocol_of_malformed h)]
    exact ⟨0, Nat.zero_le 1, .refused (turn_of_malformed c h)⟩
  | plain h ho hn =>
    have hturn := turn_eq c h hn
    have hway := protocol_eq hn h
    rw [if_pos ho] at hturn
    split_ifs at hturn hway
    · rw [fetch_of_local hway]
      exact ⟨0, Nat.zero_le 1, .done hturn⟩
    · rw [fetch_of_remote hway]
      exact ⟨0, Nat.zero_le 1, .done hturn⟩
    · rw [fetch_of_error hway]
      exact ⟨0, Nat.zero_le 1, .refused hturn⟩
  | registry h ho hn hq hs =>
    obtain ⟨hfile, hhttps⟩ := ne_of_registryOrigin? ho
    have hfirst := turn_eq c h hn
    rw [if_neg hfile, if_neg hhttps, if_neg (by simp [ho])] at hfirst
    have hsecond := turn_eq c hq (registryToNetworkUrl_of_https hq hs)
    rw [hs, if_neg (by decide), if_pos rfl] at hsecond
    rw [fetch_of_remote (protocol_of_https hn hq hs)]
    exact ⟨1, Nat.le_refl 1, .rewritten hfirst (.done hsecond)⟩

/-! ## Both readings -/

/-- The path of a URL and its fetch are chosen alike. -/
structure DispatchesAlike (url : String) : Prop where
  /-- What has no path is refused by a fetch for the same reason, and the world stays as it is. -/
  refused (e : Fault) (h : virtualPath url = .error e) (c : Cache) (w : World) :
    (fetch c url).run w = (.error e, w)
  /-- Both know the same schemes, whatever the world is. -/
  unsupported (v : String) (c : Cache) (w : World) :
    virtualPath url = .error (.unsupported v) ↔
      ((fetch c url).run w).1 = .error (.unsupported v)
  schemes : (∃ v, virtualPath url = .error (.unsupported v)) ↔
    ∃ scheme, Url.scheme url = .ok scheme ∧ scheme ∉ ["file", "https", "npm", "jsr"]
  /-- What has been fetched has a path. -/
  fetched (c : Cache) (w : World) (s : Source) (h : ((fetch c url).run w).1 = .ok s) :
    ∃ path, virtualPath url = .ok path
  /-- The fetch ends after at most one rewriting. -/
  recursion (c : Cache) : ∃ n ≤ 1, ∀ m a, Unfolds c m url a ↔ m = n ∧ a = fetch c url
  /-- What a URL with a path is rewritten to is never rewritten again, and stands for the URL. -/
  rewriting (path : String) (h : virtualPath url = .ok path) :
    ∃ network, registryToNetworkUrl url = .ok network ∧
      registryToNetworkUrl network = .ok network ∧ virtualPath network = .ok path ∧
      ∀ c, fetch c network = fetch c url
  /-- The file that is read is the one that the path names. -/
  file (path : String) (h : virtualPath url = .ok path) (hs : Url.scheme url = .ok "file") :
    FilePath.ofUrl url = .ok (FilePath.normalize path) ∧
      ∀ c w, (fetch c url).run w =
        (((w.files.text (FilePath.normalize path)).mapError (fileFault url)).map
          fun text => ⟨text, url, .empty⟩, w)

/-- A URL with a path is read from the files or asked of the network. -/
theorem failsOfSource_of_virtualPath {url path : String} (h : virtualPath url = .ok path)
    (c : Cache) : FailsOfSource (fetch c url) := by
  rcases (virtualPath_eq_ok_iff url path).1 h with hfile | ⟨network, p, hreq, -⟩
  · rw [fetch_of_local hfile.protocol]
    exact .fetchLocal url
  · rw [fetch_of_remote hreq.protocol]
    exact .fetchRemote c network

theorem run_fetch_of_refused {url : String} {e : Fault} (h : virtualPath url = .error e)
    (c : Cache) (w : World) : (fetch c url).run w = (.error e, w) := by
  rw [fetch_of_error (virtualPath_eq_error_iff.1 h)]
  rfl

/-- The schemes that neither reading knows. -/
theorem virtualPath_eq_unsupported_iff {url : String} :
    (∃ v, virtualPath url = .error (.unsupported v)) ↔
      ∃ scheme, Url.scheme url = .ok scheme ∧ scheme ∉ ["file", "https", "npm", "jsr"] := by
  have hscheme {p : Url.Parts} (hp : Url.split url = .ok p) :
      (∃ scheme, Url.scheme url = .ok scheme ∧ scheme ∉ ["file", "https", "npm", "jsr"]) ↔
        registryOrigin? p.scheme = none ∧ p.scheme ≠ "file".toList ∧
          p.scheme ≠ "https".toList := by
    have hlist (s : String) : String.ofList p.scheme = s ↔ p.scheme = s.toList := by
      rw [← String.toList_inj, String.toList_ofList]
    simp only [Url.scheme, hp, Except.map, Except.ok.injEq, exists_eq_left']
    simp only [List.mem_cons, List.not_mem_nil, or_false, not_or, hlist,
      registryOrigin?_eq_none_iff]
    tauto
  cases UrlKind.exhaustive url with
  | malformed h =>
    refine iff_of_false ?_ ?_
    · rintro ⟨v, hv⟩
      rw [virtualPath_of_malformed h] at hv
      cases hv
    · rintro ⟨scheme, hs, -⟩
      rw [Url.scheme, h] at hs
      cases hs
  | plain h ho hn =>
    rw [hscheme h, virtualPath_eq hn h]
    split_ifs with hfile hhttps
    · simp [hfile]
    · simp [hhttps]
    · exact iff_of_true ⟨url, rfl⟩ ⟨ho, hfile, hhttps⟩
  | registry h ho hn hq hs =>
    rw [hscheme h, virtualPath_eq hn hq, hs, ho]
    simp

/-- What a URL is rewritten to stands for it. -/
theorem exists_network {url path : String} (h : virtualPath url = .ok path) :
    ∃ network, registryToNetworkUrl url = .ok network ∧
      registryToNetworkUrl network = .ok network ∧ virtualPath network = .ok path ∧
      ∀ c, fetch c network = fetch c url := by
  cases UrlKind.exhaustive url with
  | malformed hp =>
    rw [virtualPath_of_malformed hp] at h
    cases h
  | plain hp ho hn => exact ⟨url, hn, hn, h, fun _ => rfl⟩
  | registry hp ho hn hq hs =>
    have hagain := registryToNetworkUrl_of_https hq hs
    refine ⟨_, hn, hagain, ?_, fun c => ?_⟩
    · rw [virtualPath_eq hagain hq, ← h, virtualPath_eq hn hq, hs]
      rfl
    · rw [fetch_of_remote (protocol_of_https hn hq hs),
        fetch_of_remote (protocol_of_https hagain hq hs)]

theorem readsFile_of_scheme {url path : String} (h : virtualPath url = .ok path)
    (hs : Url.scheme url = .ok "file") : ReadsFile url path := by
  obtain ⟨p, hp, hscheme⟩ := Action.map_eq_ok_iff.1 hs
  rw [← String.toList_inj, String.toList_ofList] at hscheme
  have hn : registryToNetworkUrl url = .ok url :=
    registryToNetworkUrl_of_none hp (by rw [hscheme]; rfl)
  rw [virtualPath_eq hn hp, if_pos hscheme] at h
  cases h
  refine ⟨?_, p, hp, rfl⟩
  rw [protocol_eq hn hp, if_pos hscheme]

/-- **Both readings agree.** -/
theorem dispatches_alike (url : String) : DispatchesAlike url where
  refused e h := run_fetch_of_refused h
  unsupported v c w := by
    refine ⟨fun h => by rw [run_fetch_of_refused h], fun h => ?_⟩
    cases hpath : virtualPath url with
    | ok path => cases failsOfSource_of_virtualPath hpath c w _ h
    | error e =>
      rw [run_fetch_of_refused hpath] at h
      exact congrArg _ (Except.error.inj h)
  schemes := virtualPath_eq_unsupported_iff
  fetched c w s h := by
    cases hpath : virtualPath url with
    | ok path => exact ⟨path, rfl⟩
    | error e =>
      rw [run_fetch_of_refused hpath] at h
      cases h
  recursion c := by
    obtain ⟨n, hn, hfetch⟩ := exists_unfolds c url
    refine ⟨n, hn, fun m a => ⟨fun h => h.unique hfetch, ?_⟩⟩
    rintro ⟨rfl, rfl⟩
    exact hfetch
  rewriting path := exists_network
  file path h hs := by
    have hfile := readsFile_of_scheme h hs
    obtain ⟨p, hp, rfl⟩ := hfile.decoded
    refine ⟨?_, hfile.fetch_eq⟩
    rw [FilePath.ofUrl, hp]
    rfl

end Fetch

end ModuleGraph
