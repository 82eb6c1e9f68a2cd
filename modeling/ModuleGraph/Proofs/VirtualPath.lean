import ModuleGraph.Fetch.Source
import ModuleGraph.Proofs.Action
import ModuleGraph.Proofs.Loading.Importers
/-!
# What URLs with one virtual path have in common

A virtual path is made of the URL alone, and not all of the URL goes into it: the query and the
fragment are left out, a remote module without the extension of a script is given one, and files
and remote modules have their paths in one space. So two URLs can have one path although they are
fetched from different places. The theorem here says exactly which ones.

Results:
* `guessed_eq_iff`: what the guess at an ending confuses;
* `virtualPath_eq_ok_iff`: the path of a URL in terms of what is fetched for it;
* `ReadsFile.text_eq`, `served_eq_iff`: what is the same if two files, or two remote modules, have
  one path;
* `shares_path_iff`: **main theorem**: which URLs have one path;
* `path_is_shared`: URLs with one path and different contents.
-/

namespace ModuleGraph

/-! ## The parts of a URL -/

namespace Url

theorem not_mem_cutTail (c : Char) (cs : List Char) : c ∉ (cutTail c cs).1 := by
  unfold cutTail
  cases h : Text.cutAt c cs with
  | none => exact Text.cutAt_eq_none.1 h
  | some p => exact (Text.cutAt_eq_some h).2

/-- What stands before a mark begins as the whole text does, unless it is empty. -/
theorem head?_cutTail (c : Char) (cs : List Char) :
    (cutTail c cs).1 = [] ∨ (cutTail c cs).1.head? = cs.head? := by
  unfold cutTail
  cases h : Text.cutAt c cs with
  | none => exact .inr rfl
  | some p =>
    obtain ⟨a, b⟩ := p
    obtain ⟨rfl, -⟩ := Text.cutAt_eq_some h
    cases a with
    | nil => exact .inl rfl
    | cons x a => exact .inr rfl

/-- A path begins as what follows the authority does, and not with the mark of another part. -/
theorem exists_head?_path {rest : List Char} (h : (cutTail '?' (cutTail '#' rest).1).1 ≠ []) :
    ∃ c, (cutTail '?' (cutTail '#' rest).1).1.head? = some c ∧ rest.head? = some c ∧
      c ≠ '?' ∧ c ≠ '#' := by
  have hfront : (cutTail '#' rest).1 ≠ [] := by
    intro hnil
    rw [hnil] at h
    exact h rfl
  have hquery := (head?_cutTail '?' (cutTail '#' rest).1).resolve_left h
  have hfragment := (head?_cutTail '#' rest).resolve_left hfront
  obtain ⟨c, r, hc⟩ := List.exists_cons_of_ne_nil h
  have hhead : (cutTail '?' (cutTail '#' rest).1).1.head? = some c := by rw [hc, List.head?_cons]
  refine ⟨c, hhead, hfragment ▸ hquery ▸ hhead, ?_, ?_⟩
  · rintro rfl
    exact not_mem_cutTail '?' _ (List.mem_of_head? hhead)
  · rintro rfl
    exact not_mem_cutTail '#' _ (List.mem_of_head? (hquery ▸ hhead))

/-- No slash is part of an authority, and what follows an authority begins with a mark. -/
theorem cutAuthority_spec (cs : List Char) : '/' ∉ (cutAuthority cs).1 ∧
    ((cutAuthority cs).1 = [] ∨ ∀ c ∈ (cutAuthority cs).2.head?, endsAuthority c = true) := by
  unfold cutAuthority
  split
  · next r =>
    constructor
    · intro hmem
      have hslash := List.mem_takeWhile_imp hmem
      simp [endsAuthority] at hslash
    · refine .inr fun c hc => ?_
      have := List.head?_dropWhile_not (fun c => !endsAuthority c) r
      rw [Option.mem_def] at hc
      rw [hc] at this
      simpa using this
  · exact ⟨List.not_mem_nil, .inl rfl⟩

/-- Where the authority and the path of a URL come from. -/
theorem splitClean_eq_ok {inherited cs : List Char} {p : Parts}
    (h : splitClean inherited cs = .ok p) :
    p.authority = (cutAuthority (cutScheme inherited cs).2).1 ∧
      p.path = (cutTail '?' (cutTail '#' (cutAuthority (cutScheme inherited cs).2).2).1).1 := by
  unfold splitClean at h
  dsimp only at h
  split at h
  · cases h
  · cases h
    exact ⟨rfl, rfl⟩

/-- The authority has no slash, and a path after an authority begins with one. -/
theorem split_shape {url : String} {p : Parts} (h : split url = .ok p) :
    '/' ∉ p.authority ∧ (p.authority ≠ [] → p.path ≠ [] → p.path.head? = some '/') := by
  obtain ⟨hauthority, hpath⟩ := splitClean_eq_ok h
  obtain ⟨hslash, hrest⟩ := cutAuthority_spec (cutScheme [] (clean url.toList)).2
  rw [← hauthority] at hslash hrest
  generalize (cutAuthority (cutScheme [] (clean url.toList)).2).2 = rest at hrest hpath
  refine ⟨hslash, fun hsome hne => ?_⟩
  rw [hpath] at hne ⊢
  obtain ⟨c, hhead, hrest', hquery, hfragment⟩ := exists_head?_path hne
  have hmark := hrest.resolve_left hsome c hrest'
  simp only [endsAuthority, Bool.or_eq_true, decide_eq_true_eq] at hmark
  rw [hhead, (hmark.resolve_right hfragment).resolve_right hquery]

/-- The scheme of a URL is what stands before its first colon. -/
theorem scheme_of_splitClean {inherited cs : List Char} {p : Parts}
    (h : splitClean inherited cs = .ok p) : p.scheme = (cutScheme inherited cs).1 := by
  unfold splitClean at h
  dsimp only at h
  split at h
  · cases h
  · cases h
    rfl

theorem clean_https (cs : List Char) :
    clean ("https:".toList ++ cs) = "https:".toList ++ cs.filter fun c => !isLineControl c := by
  simp [clean, isLineControl]

theorem scheme_of_https {cs : List Char} {p : Parts}
    (h : split (.ofList ("https:".toList ++ cs)) = .ok p) : p.scheme = "https".toList := by
  rw [split, String.toList_ofList, clean_https] at h
  rw [scheme_of_splitClean h]
  rfl

end Url

/-! ## The guess at an ending -/

/-- The path neither has the extension of a script nor is it one of a directory. -/
def lacksExtension (path : String) : Bool :=
  !hasScriptExtension path && !Text.endsWith path "/"

/-- The path with the ending that a script would have, if it lacks one. -/
def guessed (path : String) : String :=
  if lacksExtension path then path ++ guessedSuffix else path

theorem endsWith_append (s stop : String) : Text.endsWith (s ++ stop) stop = true := by
  rw [Text.endsWith, String.toList_append, List.isSuffixOf_iff_suffix]
  exact List.suffix_append _ _

/-- A guess is never made twice. -/
theorem lacksExtension_append (path : String) :
    lacksExtension (path ++ guessedSuffix) = false := by
  have hend : Text.endsWith (path ++ guessedSuffix) ".ts" = true := endsWith_append path ".ts"
  have hscript : hasScriptExtension (path ++ guessedSuffix) = true := by
    simp [hasScriptExtension, scriptExtensions, hend]
  rw [lacksExtension, hscript]
  rfl

theorem guessed_append {path : String} (h : lacksExtension path = true) :
    guessed (path ++ guessedSuffix) = guessed path := by
  rw [guessed, lacksExtension_append, guessed, h]
  rfl

/-- Two paths are the same, or one of them is the other with the guessed ending. -/
def SameUpToGuess (a b : String) : Prop :=
  a = b ∨ (lacksExtension a = true ∧ b = a ++ guessedSuffix) ∨
    (lacksExtension b = true ∧ a = b ++ guessedSuffix)

/-- The guess confuses a path with what it guesses for the path, and nothing else. -/
theorem guessed_eq_iff (a b : String) : guessed a = guessed b ↔ SameUpToGuess a b := by
  constructor
  · intro h
    cases ha : lacksExtension a with
    | true =>
      cases hb : lacksExtension b with
      | true =>
        rw [guessed, guessed, ha, hb] at h
        exact .inl (String.append_left_inj _ |>.1 h)
      | false =>
        rw [guessed, guessed, ha, hb] at h
        exact .inr (.inl ⟨ha, h.symm⟩)
    | false =>
      cases hb : lacksExtension b with
      | true =>
        rw [guessed, guessed, ha, hb] at h
        exact .inr (.inr ⟨hb, h⟩)
      | false =>
        rw [guessed, guessed, ha, hb] at h
        exact .inl h
  · rintro (rfl | ⟨ha, rfl⟩ | ⟨hb, rfl⟩)
    · rfl
    · exact (guessed_append ha).symm
    · exact guessed_append hb

/-! ## What is fetched, and its path -/

/-- The URL is one of a file; `path` is its decoded path. -/
structure ReadsFile (url path : String) : Prop where
  protocol : Fetch.protocol url = .ok .local
  decoded : ∃ p, Url.split url = .ok p ∧ path = .ofList (Url.unescape p.path)

/-- The URL is fetched over the network, from a URL with the parts `p`. -/
structure Requests (url network : String) (p : Url.Parts) : Prop where
  protocol : Fetch.protocol url = .ok (.remote network)
  parts : Url.split network = .ok p

/-- The path of what a host serves, without a guess at its ending. -/
def servedPath (p : Url.Parts) : String := (Location.remote p.authority p.path).plainPath

theorem registryOrigin?_eq_some {scheme : List Char} {origin : String}
    (h : registryOrigin? scheme = some origin) :
    ∃ cs, origin = .ofList ("https:".toList ++ cs) := by
  unfold registryOrigin? at h
  split at h
  · exact ⟨"//esm.sh/".toList, by cases h; decide⟩
  · exact ⟨"//esm.sh/jsr/".toList, by cases h; decide⟩
  · cases h

/-- A URL is only rewritten to one that is fetched over the network. -/
theorem network_eq_of_file {url network : String} {p : Url.Parts}
    (h : registryToNetworkUrl url = .ok network) (hp : Url.split network = .ok p)
    (hfile : p.scheme = "file".toList) : network = url := by
  unfold registryToNetworkUrl at h
  cases hs : Url.split url with
  | error e => rw [hs] at h; cases h
  | ok q =>
    rw [hs] at h
    cases ho : registryOrigin? q.scheme with
    | none =>
      simp only [Except.map, ho, Except.ok.injEq] at h
      exact h.symm
    | some origin =>
      simp only [Except.map, ho, Except.ok.injEq] at h
      obtain ⟨cs, rfl⟩ := registryOrigin?_eq_some ho
      rw [← h, Text.trimStart, ← String.ofList_append, List.append_assoc] at hp
      rw [Url.scheme_of_https hp] at hfile
      exact absurd hfile (by decide)

/-- A URL that cannot be taken apart has neither a path nor a way of being fetched. -/
theorem exists_parts {url : String}
    (h : (∃ path, virtualPath url = .ok path) ∨ ∃ way, Fetch.protocol url = .ok way) :
    ∃ network p, registryToNetworkUrl url = .ok network ∧ Url.split network = .ok p := by
  cases hn : registryToNetworkUrl url with
  | error e =>
    rcases h with ⟨path, h⟩ | ⟨way, h⟩
    · simp [virtualPath, Location.ofUrl, hn, Action.mapError_error, bind, Except.bind] at h
    · simp [Fetch.protocol, hn, Action.mapError_error, bind, Except.bind] at h
  | ok network =>
    cases hp : Url.split network with
    | error e =>
      rcases h with ⟨path, h⟩ | ⟨way, h⟩
      · simp [virtualPath, Location.ofUrl, hn, hp, Action.mapError_ok, Action.mapError_error, bind,
          Except.bind] at h
      · simp [Fetch.protocol, Url.scheme, hn, hp, Action.mapError_ok, Action.mapError_error,
          Except.map, bind, Except.bind] at h
    | ok p => exact ⟨network, p, rfl, hp⟩

section

variable {url network : String} {p : Url.Parts}

theorem protocol_eq (hn : registryToNetworkUrl url = .ok network)
    (hp : Url.split network = .ok p) :
    Fetch.protocol url =
      if p.scheme = "file".toList then .ok .local
      else if p.scheme = "https".toList then .ok (.remote network)
      else .error (.unsupported url) := by
  have hscheme (s : String) : String.ofList p.scheme = s ↔ p.scheme = s.toList := by
    rw [← String.toList_inj, String.toList_ofList]
  simp only [Fetch.protocol, Url.scheme, hn, hp, Action.mapError_ok, Except.map, bind, Except.bind,
    hscheme]
  rfl

theorem virtualPath_eq (hn : registryToNetworkUrl url = .ok network)
    (hp : Url.split network = .ok p) :
    virtualPath url =
      if p.scheme = "file".toList then .ok (.ofList (Url.unescape p.path))
      else if p.scheme = "https".toList then .ok (guessed (servedPath p))
      else .error (.unsupported url) := by
  simp only [virtualPath, Location.ofUrl, hn, hp, Action.mapError_ok, bind, Except.bind]
  by_cases hfile : p.scheme = "file".toList
  · rw [if_pos hfile, if_pos hfile]
    rfl
  · rw [if_neg hfile, if_neg hfile]
    by_cases hhttps : p.scheme = "https".toList
    · rw [if_pos hhttps, if_pos hhttps]
      rfl
    · rw [if_neg hhttps, if_neg hhttps]
      rfl

end

/-- A URL has a path exactly if it can be fetched, and the path is that of the file that is read
or of what the host serves. -/
theorem virtualPath_eq_ok_iff (url path : String) :
    virtualPath url = .ok path ↔ ReadsFile url path ∨
      ∃ network p, Requests url network p ∧ path = guessed (servedPath p) := by
  constructor
  · intro h
    obtain ⟨network, p, hn, hp⟩ := exists_parts (.inl ⟨path, h⟩)
    rw [virtualPath_eq hn hp] at h
    have hway := protocol_eq hn hp
    split at h
    · next hfile =>
      rw [if_pos hfile] at hway
      cases h
      rw [network_eq_of_file hn hp hfile] at hp
      exact .inl ⟨hway, p, hp, rfl⟩
    · next hfile =>
      rw [if_neg hfile] at hway
      split at h
      · next hhttps =>
        rw [if_pos hhttps] at hway
        cases h
        exact .inr ⟨network, p, ⟨hway, hp⟩, rfl⟩
      · cases h
  · intro h
    have hway : ∃ way, Fetch.protocol url = .ok way := by
      rcases h with h | ⟨network, p, h, -⟩
      · exact ⟨_, h.protocol⟩
      · exact ⟨_, h.protocol⟩
    obtain ⟨network, p, hn, hp⟩ := exists_parts (.inr hway)
    have heq := protocol_eq hn hp
    rw [virtualPath_eq hn hp]
    rcases h with ⟨hlocal, q, hq, rfl⟩ | ⟨n, q, ⟨hremote, hq⟩, rfl⟩
    · rw [hlocal] at heq
      split at heq
      · next hfile =>
        rw [network_eq_of_file hn hp hfile, hq, Except.ok.injEq] at hp
        rw [if_pos hfile, hp]
      · split at heq <;> cases heq
    · rw [hremote] at heq
      split at heq
      · cases heq
      · next hfile =>
        split at heq
        · next hhttps =>
          cases heq
          rw [hq, Except.ok.injEq] at hp
          rw [if_neg hfile, if_pos hhttps, hp]
        · cases heq

/-! ## Which URLs have one path -/

/-- Both URLs are of files, and of one file. -/
def ReadSameFile (u v : String) : Prop := ∃ path, ReadsFile u path ∧ ReadsFile v path

/-- Both URLs are fetched over the network, and their hosts and paths are written in the same way,
up to a guess at the ending. -/
def ServedAlike (u v : String) : Prop :=
  ∃ m n p q, Requests u m p ∧ Requests v n q ∧ SameUpToGuess (servedPath p) (servedPath q)

/-- The first URL is of a file that lies where the path of the second, fetched over the network,
leads to. -/
def LiesWhereServed (u v : String) : Prop :=
  ∃ path n q, ReadsFile u path ∧ Requests v n q ∧ path = guessed (servedPath q)

/-- What is read for a URL of a file depends on the decoded path only. -/
theorem ReadsFile.fetch_eq {url path : String} (h : ReadsFile url path) (c : Fetch.Cache)
    (w : Fetch.World) : (Fetch.fetch c url).run w =
      (((w.files.text (FilePath.normalize path)).mapError (Fetch.fileFault url)).map
        fun text => ⟨text, url, .empty⟩, w) := by
  obtain ⟨p, hp, rfl⟩ := h.decoded
  have hpath : FilePath.ofUrl url = .ok (FilePath.normalize (.ofList (Url.unescape p.path))) := by
    rw [FilePath.ofUrl, hp]
    rfl
  rw [Fetch.fetch, h.protocol, Action.run_bind, Action.run_liftM]
  dsimp only
  rw [Fetch.fetchLocal, hpath]
  simp only [Action.mapError_ok, Action.run_bind, Action.run_liftM, Action.run_get,
    Action.run_pure]
  cases w.files.text (FilePath.normalize (.ofList (Url.unescape p.path))) with
  | error e => rfl
  | ok text => rfl

/-- Two URLs of one file have one text in every world, or none has a text. -/
theorem ReadSameFile.text_eq {u v : String} (h : ReadSameFile u v) (c : Fetch.Cache)
    (w : Fetch.World) : ((Fetch.fetch c u).run w).1.toOption.map Fetch.Source.text =
      ((Fetch.fetch c v).run w).1.toOption.map Fetch.Source.text := by
  obtain ⟨path, hu, hv⟩ := h
  rw [hu.fetch_eq, hv.fetch_eq]
  cases w.files.text (FilePath.normalize path) with
  | error e => rfl
  | ok text => rfl

theorem toList_servedPath (p : Url.Parts) :
    (servedPath p).toList = "/https/".toList ++ (p.authority ++ p.path) := by
  change (String.ofList ("/https/".toList ++ p.authority ++ p.path)).toList = _
  rw [String.toList_ofList, List.append_assoc]

/-- Where hosts and paths are written one after the other, a host ends at the first slash, provided
that a path follows. -/
theorem served_eq_iff {m n : String} {p q : Url.Parts} (hm : Url.split m = .ok p)
    (hn : Url.split n = .ok q) (hp : p.authority ≠ [] ∧ p.path ≠ [])
    (hq : q.authority ≠ [] ∧ q.path ≠ []) (tail : List Char) :
    (servedPath p).toList ++ tail = (servedPath q).toList ↔
      p.authority = q.authority ∧ p.path ++ tail = q.path := by
  obtain ⟨hslash, hbegin⟩ := Url.split_shape hm
  obtain ⟨hslash', hbegin'⟩ := Url.split_shape hn
  obtain ⟨r, hr⟩ := List.head?_eq_some_iff.1 (hbegin hp.1 hp.2)
  obtain ⟨r', hr'⟩ := List.head?_eq_some_iff.1 (hbegin' hq.1 hq.2)
  rw [toList_servedPath, toList_servedPath, List.append_assoc, List.append_right_inj, hr, hr',
    List.append_assoc]
  constructor
  · intro h
    have hcut (a b : List Char) (ha : '/' ∉ a) :
        (a ++ '/' :: b).takeWhile (fun c => c ≠ '/') = a := by
      rw [List.takeWhile_append_of_pos, List.takeWhile_cons_of_neg, List.append_nil]
      · simp
      · intro c hc
        have hne : c ≠ '/' := fun heq => ha (heq ▸ hc)
        simpa using hne
    have hhost : p.authority = q.authority := by
      rw [← hcut p.authority (r ++ tail) hslash, ← hcut q.authority r' hslash']
      exact congrArg _ h
    rw [hhost, List.append_right_inj] at h
    exact ⟨hhost, h⟩
  · rintro ⟨hhost, hpath⟩
    rw [hhost]
    exact congrArg _ hpath

/-- Remote modules with a host and a path that are served alike have one host, and one path up to
the guessed ending. -/
theorem same_host_of_sameUpToGuess {m n : String} {p q : Url.Parts} (hm : Url.split m = .ok p)
    (hn : Url.split n = .ok q) (hp : p.authority ≠ [] ∧ p.path ≠ [])
    (hq : q.authority ≠ [] ∧ q.path ≠ [])
    (h : SameUpToGuess (servedPath p) (servedPath q)) :
    p.authority = q.authority ∧ (p.path = q.path ∨ q.path = p.path ++ guessedSuffix.toList ∨
      p.path = q.path ++ guessedSuffix.toList) := by
  rcases h with h | ⟨-, h⟩ | ⟨-, h⟩
  · have hlist := congrArg String.toList h
    rw [← List.append_nil (servedPath p).toList] at hlist
    obtain ⟨hhost, hpath⟩ := (served_eq_iff hm hn hp hq []).1 hlist
    exact ⟨hhost, .inl (by rw [← hpath, List.append_nil])⟩
  · have hlist := congrArg String.toList h.symm
    rw [String.toList_append] at hlist
    obtain ⟨hhost, hpath⟩ := (served_eq_iff hm hn hp hq _).1 hlist
    exact ⟨hhost, .inr (.inl hpath.symm)⟩
  · have hlist := congrArg String.toList h.symm
    rw [String.toList_append] at hlist
    obtain ⟨hhost, hpath⟩ := (served_eq_iff hn hm hq hp _).1 hlist
    exact ⟨hhost.symm, .inr (.inr hpath.symm)⟩

/-- **Which URLs have one path.** Two URLs with a path have the same one exactly if they are of one
file, or are fetched over the network from one host and path up to the guess at the ending, or if
one is of a file that lies where the path of the other leads to. In the first case they have one
text, however the world is. In the second case, host and path are the same one by one, up to the
guess, if neither is empty. -/
theorem shares_path_iff {u v a b : String} (hu : virtualPath u = .ok a)
    (hv : virtualPath v = .ok b) :
    (a = b ↔ ReadSameFile u v ∨ ServedAlike u v ∨ LiesWhereServed u v ∨ LiesWhereServed v u) ∧
    (ReadSameFile u v → ∀ c w, ((Fetch.fetch c u).run w).1.toOption.map Fetch.Source.text =
      ((Fetch.fetch c v).run w).1.toOption.map Fetch.Source.text) ∧
    (a = b → ∀ m n p q, Requests u m p → Requests v n q →
      p.authority ≠ [] ∧ p.path ≠ [] → q.authority ≠ [] ∧ q.path ≠ [] →
      p.authority = q.authority ∧ (p.path = q.path ∨ q.path = p.path ++ guessedSuffix.toList ∨
        p.path = q.path ++ guessedSuffix.toList)) := by
  refine ⟨⟨?_, ?_⟩, fun h c w => h.text_eq c w, ?_⟩
  · rintro rfl
    rcases (virtualPath_eq_ok_iff u a).1 hu with hfile | ⟨m, p, hreq, hpath⟩
    · rcases (virtualPath_eq_ok_iff v a).1 hv with hfile' | ⟨n, q, hreq', hpath'⟩
      · exact .inl ⟨a, hfile, hfile'⟩
      · exact .inr (.inr (.inl ⟨a, n, q, hfile, hreq', hpath'⟩))
    · rcases (virtualPath_eq_ok_iff v a).1 hv with hfile' | ⟨n, q, hreq', hpath'⟩
      · exact .inr (.inr (.inr ⟨a, m, p, hfile', hreq, hpath⟩))
      · exact .inr (.inl ⟨m, n, p, q, hreq, hreq',
          (guessed_eq_iff _ _).1 (hpath.symm.trans hpath')⟩)
  · have path_unique {x y z : String} (hx : virtualPath x = .ok y)
        (h : ReadsFile x z ∨ ∃ n p, Requests x n p ∧ z = guessed (servedPath p)) : y = z := by
      rw [(virtualPath_eq_ok_iff x z).2 h] at hx
      cases hx
      rfl
    rintro (⟨path, hfile, hfile'⟩ | ⟨m, n, p, q, hreq, hreq', hguess⟩ |
      ⟨path, n, q, hfile, hreq', hpath⟩ | ⟨path, n, q, hfile, hreq', hpath⟩)
    · exact (path_unique hu (.inl hfile)).trans (path_unique hv (.inl hfile')).symm
    · rw [path_unique hu (.inr ⟨m, p, hreq, rfl⟩), path_unique hv (.inr ⟨n, q, hreq', rfl⟩)]
      exact (guessed_eq_iff _ _).2 hguess
    · rw [path_unique hu (.inl hfile), path_unique hv (.inr ⟨n, q, hreq', rfl⟩), hpath]
    · rw [path_unique hv (.inl hfile), path_unique hu (.inr ⟨n, q, hreq', rfl⟩), hpath]
  · rintro rfl m n p q hreq hreq' hp hq
    refine same_host_of_sameUpToGuess hreq.parts hreq'.parts hp hq ?_
    have hpath := (virtualPath_eq_ok_iff u _).2 (.inr ⟨m, p, hreq, rfl⟩)
    have hpath' := (virtualPath_eq_ok_iff v _).2 (.inr ⟨n, q, hreq', rfl⟩)
    rw [hu] at hpath
    rw [hv] at hpath'
    rw [← guessed_eq_iff, ← Except.ok.inj hpath, Except.ok.inj hpath']

namespace Loading

/-- A host with two answers for one path. -/
def twoVersions : Setting Unit :=
  .ofTexts [("https://cdn.test/a.ts?v=1", "first"), ("https://cdn.test/a.ts?v=2", "second")]

/-- Both modules are asked for, and the tasks advance in the order of the places. -/
def bothVersions (places : List Nat) : List Move :=
  .ask (.module "https://cdn.test/a.ts?v=1" "https://cdn.test/a.ts?v=1") ::
    .ask (.module "https://cdn.test/a.ts?v=2" "https://cdn.test/a.ts?v=2") :: places.map .step

set_option maxRecDepth 100000 in
/-- One path may stand for two URLs with different contents, and for a file and a remote module.
Then the text under the path is that of whichever came first. -/
theorem path_is_shared :
    let u := "https://cdn.test/a.ts?v=1"
    let v := "https://cdn.test/a.ts?v=2"
    (virtualPath u = .ok "/https/cdn.test/a.ts" ∧ virtualPath v = .ok "/https/cdn.test/a.ts" ∧
      virtualPath "file:///https/cdn.test/a.ts" = .ok "/https/cdn.test/a.ts") ∧
    (Fetch.protocol u = .ok (.remote u) ∧ Fetch.protocol v = .ok (.remote v) ∧
      Fetch.protocol "file:///https/cdn.test/a.ts" = .ok .local) ∧
    (Url.cutTail '#' u.toList).1 ≠ (Url.cutTail '#' v.toList).1 ∧
    ((State.start ()).play twoVersions (bothVersions [0, 1, 0, 0, 0])).store.text?
      "/https/cdn.test/a.ts" = some (some "first") ∧
    ((State.start ()).play twoVersions (bothVersions [1, 0, 1, 1, 1])).store.text?
      "/https/cdn.test/a.ts" = some (some "second") := by
  decide +kernel

end Loading

set_option maxRecDepth 100000 in
theorem shares_path_iff_escaped :
    let u := "file:///my%20app/a.ts"
    let v := "file:///my app/a.ts"
    ("/my app/a.ts" = "/my app/a.ts" ↔ ReadSameFile u v ∨ ServedAlike u v ∨
        LiesWhereServed u v ∨ LiesWhereServed v u) ∧
    (ReadSameFile u v → ∀ c w, ((Fetch.fetch c u).run w).1.toOption.map Fetch.Source.text =
      ((Fetch.fetch c v).run w).1.toOption.map Fetch.Source.text) ∧
    ("/my app/a.ts" = "/my app/a.ts" → ∀ m n p q, Requests u m p → Requests v n q →
      p.authority ≠ [] ∧ p.path ≠ [] → q.authority ≠ [] ∧ q.path ≠ [] →
      p.authority = q.authority ∧ (p.path = q.path ∨ q.path = p.path ++ guessedSuffix.toList ∨
        p.path = q.path ++ guessedSuffix.toList)) :=
  shares_path_iff (by decide +kernel) (by decide +kernel)

end ModuleGraph
