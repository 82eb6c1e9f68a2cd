import ModuleGraph.Fetch.Source
import ModuleGraph.Proofs.Url.Longer
/-!
# URLs with a longer ending

A remote module counts as another URL than the one that its response came from: an ending is added
that tells what kind of file it is. The ending is added to the text, so it becomes part of the path,
of the query or of the fragment, and behind a slash it is a file name of its own. References of the
module are resolved against the longer URL. Here it is shown that this makes no difference, as long
as the reference has a path: what is joined only depends on the directory of the base, and the
directory is what stands in front of the last slash of its path.

Results:
* `splitClean_append`: a longer text has the parts of the shorter one, and one of them is longer;
* `mergedPath_eq_of_sameDirectory`: the last segment of a base path does not matter;
* `joinChars_congr`: neither does the rest of the base;
* `Fetch.counts_of_fetchRemote`: which endings a fetch adds;
* `Fetch.Counts.sameReferences`: an ending changes no reference;
* `Fetch.keeps_references`: **main theorem**: what a fetch reports has the references of its
  response.
-/

namespace ModuleGraph

namespace Url

/-! ## Directories -/

/-- Both paths are of something in one directory. -/
def SameDirectory (path path' : List Char) : Prop :=
  ∃ before last last', '/' ∉ last ∧ '/' ∉ last' ∧ path = before ++ '/' :: last ∧
    path' = before ++ '/' :: last'

/-- An empty segment between others is dropped. -/
theorem dropInnerEmpty_nil (first : List Char) (before : List (List Char))
    {after : List (List Char)} (h : after ≠ []) :
    dropInnerEmpty (first :: (before ++ [] :: after)) =
      dropInnerEmpty (first :: (before ++ after)) := by
  obtain ⟨inner, last, rfl⟩ := (List.eq_nil_or_concat after).resolve_left h
  have hlonger : before ++ [] :: inner.concat last = (before ++ [] :: inner) ++ [last] := by simp
  have hshorter : before ++ inner.concat last = (before ++ inner) ++ [last] := by simp
  rw [hlonger, hshorter, dropInnerEmpty_concat, dropInnerEmpty_concat, List.filter_append,
    List.filter_append]
  rfl

/-- As seen from a path, a reference is in the directory of what the path names. -/
theorem mergedSegments_slash {before last path : List Char} (h : '/' ∉ last)
    (hpath : path.head? ≠ some '/') : mergedSegments (before ++ '/' :: last) path =
      dropInnerEmpty (Text.piecesAt '/' before ++ Text.piecesAt '/' path) := by
  obtain ⟨first, segments, hpieces⟩ :=
    List.exists_cons_of_ne_nil (Text.piecesAt_ne_nil '/' before)
  unfold mergedSegments
  dsimp only
  rw [if_neg hpath, Text.piecesAt_append, Text.piecesAt_of_not_mem h, List.getLast?_concat,
    List.dropLast_concat]
  split_ifs with hlast
  · cases hlast
    rw [hpieces, List.append_assoc, List.cons_append, List.singleton_append,
      dropInnerEmpty_nil first segments (Text.piecesAt_ne_nil '/' path), List.cons_append]
  · rfl

theorem mergedPath_eq_of_sameDirectory {path path' : List Char} (h : SameDirectory path path')
    (reference : List Char) : mergedPath path' reference = mergedPath path reference := by
  obtain ⟨before, last, last', hlast, hlast', rfl, rfl⟩ := h
  have hsegments : mergedSegments (before ++ '/' :: last') reference =
      mergedSegments (before ++ '/' :: last) reference := by
    by_cases hhead : reference.head? = some '/'
    · rw [mergedSegments, if_pos hhead, mergedSegments, if_pos hhead]
    · rw [mergedSegments_slash hlast hhead, mergedSegments_slash hlast' hhead]
  rw [mergedPath, hsegments, mergedPath]

/-- Without its parameters, a path is of something in the same directory. -/
theorem exists_cutParameters (scheme before : List Char) {last : List Char} (h : '/' ∉ last) :
    ∃ last', '/' ∉ last' ∧
      (cutParameters scheme (before ++ '/' :: last)).1 = before ++ '/' :: last' := by
  unfold cutParameters
  split_ifs
  · exact ⟨last, h, rfl⟩
  · rw [Text.cutAtLast_append h]
    dsimp only
    cases hcut : Text.cutAt ';' last with
    | none => exact ⟨last, h, rfl⟩
    | some p =>
      obtain ⟨a, b⟩ := p
      obtain ⟨rfl, -⟩ := Text.cutAt_eq_some hcut
      exact ⟨a, fun hmem => h (List.mem_append_left _ hmem), rfl⟩

theorem SameDirectory.cutParameters {path path' : List Char} (h : SameDirectory path path')
    (scheme : List Char) :
    SameDirectory (cutParameters scheme path).1 (cutParameters scheme path').1 := by
  obtain ⟨before, last, last', hlast, hlast', rfl, rfl⟩ := h
  obtain ⟨a, ha, hcut⟩ := exists_cutParameters scheme before hlast
  obtain ⟨a', ha', hcut'⟩ := exists_cutParameters scheme before hlast'
  exact ⟨before, a, a', ha, ha', hcut, hcut'⟩

theorem Lengthened.sameDirectory {ending : List Char} {p p' : Parts} (h : Lengthened ending p p')
    (hslash : '/' ∉ ending) (hpath : '/' ∈ p.path) : SameDirectory p.path p'.path := by
  obtain ⟨before, last, hcut⟩ : ∃ before last, Text.cutAtLast '/' p.path = some (before, last) := by
    cases hcut : Text.cutAtLast '/' p.path with
    | none => exact absurd hpath (Text.cutAtLast_eq_none.1 hcut)
    | some x => exact ⟨x.1, x.2, rfl⟩
  obtain ⟨heq, hlast⟩ := Text.cutAtLast_eq_some hcut
  cases h with
  | path =>
    refine ⟨before, last, last ++ ending, hlast, ?_, heq, ?_⟩
    · simp [hlast, hslash]
    · rw [heq, List.append_assoc, List.cons_append]
  | query => exact ⟨before, last, last, hlast, hlast, heq, heq⟩
  | fragment => exact ⟨before, last, last, hlast, hlast, heq, heq⟩

/-! ## References with a path -/

/-- A text without a scheme has the same parts but for the scheme, whatever it is seen from. -/
theorem splitClean_of_not_hasScheme {cs : List Char} (h : ¬ HasScheme cs) (inherited : List Char) :
    splitClean inherited cs = (splitClean [] cs).map fun p => { p with scheme := inherited } := by
  rw [splitClean_eq_ofRest, splitClean_eq_ofRest, cutScheme_of_not_hasScheme h,
    cutScheme_of_not_hasScheme h]
  dsimp only
  split <;> rfl

/-- What follows the authority begins with a mark, or as the text does. -/
theorem head?_cutAuthority {cs : List Char} {c : Char} (h : (cutAuthority cs).2.head? = some c) :
    endsAuthority c = true ∨ cs.head? = some c := by
  unfold cutAuthority at h
  split at h
  · next r =>
    have hmark := List.head?_dropWhile_not (fun c => !endsAuthority c) r
    rw [h] at hmark
    exact .inl (by simpa using hmark)
  · exact .inr h

/-- The path of a reference that begins with a point or a slash begins with one, if it is not
empty. -/
theorem head?_path {cs : List Char} {p : Parts}
    (hbegin : cs.head? = some '.' ∨ cs.head? = some '/') (hp : splitClean [] cs = .ok p)
    (hne : p.path ≠ []) : p.path.head? = some '.' ∨ p.path.head? = some '/' := by
  obtain ⟨-, hpath⟩ := splitClean_eq_ok hp
  rw [cutScheme_of_not_hasScheme (not_hasScheme_of_head? hbegin)] at hpath
  rw [hpath] at hne ⊢
  obtain ⟨c, hhead, hrest, hquery, hfragment⟩ := exists_head?_path hne
  rw [hhead]
  rcases head?_cutAuthority hrest with hmark | hown
  · simp only [endsAuthority, Bool.or_eq_true, decide_eq_true_eq] at hmark
    exact .inr (congrArg some ((hmark.resolve_right hfragment).resolve_right hquery))
  · rw [← hown]
    exact hbegin

/-- A path that begins with a point or a slash does not consist of parameters. -/
theorem cutParameters_ne_nil (scheme : List Char) {path : List Char}
    (h : path.head? = some '.' ∨ path.head? = some '/') : (cutParameters scheme path).1 ≠ [] := by
  have hne : path ≠ [] := by
    rintro rfl
    rcases h with h | h <;> cases h
  unfold cutParameters
  split_ifs
  · exact hne
  · split
    · split
      · exact fun hnil => List.append_ne_nil_of_right_ne_nil _ (List.cons_ne_nil _ _) hnil
      · exact hne
    · intro hnil
      unfold cutTail at hnil
      split at hnil
      · next p hcut =>
        obtain ⟨a, b⟩ := p
        obtain ⟨rfl, -⟩ := Text.cutAt_eq_some hcut
        cases hnil
        rcases h with h | h <;> cases h
      · exact hne hnil

/-- What a reference with a path names depends on the directory of the base only. -/
theorem joinChars_congr {base base' reference : List Char} {b b' : Parts}
    (hb : splitClean [] (clean base) = .ok b) (hb' : splitClean [] (clean base') = .ok b')
    (hne : b.scheme ≠ []) (hscheme : b'.scheme = b.scheme)
    (hauthority : b'.authority = b.authority) (hdirectory : SameDirectory b.path b'.path)
    (hbegin : reference.head? = some '.' ∨ reference.head? = some '/')
    (hpath : ∀ q, splitClean [] (clean reference) = .ok q → q.path ≠ []) :
    joinChars base' reference = joinChars base reference := by
  have hnone {cs : List Char} {p : Parts} (hp : splitClean [] (clean cs) = .ok p)
      (hs : p.scheme ≠ []) : cs ≠ [] := by
    rintro rfl
    cases hp
    exact hs rfl
  have hreference : reference ≠ [] := by
    rintro rfl
    rcases hbegin with h | h <;> cases h
  have hclean : (clean reference).head? = some '.' ∨ (clean reference).head? = some '/' :=
    hbegin.imp (head?_clean · (by decide)) (head?_clean · (by decide))
  unfold joinChars
  rw [if_neg (by simpa using hnone hb' (hscheme ▸ hne)), if_neg (by simpa using hreference),
    if_neg (by simpa using hnone hb hne), if_neg (by simpa using hreference), hb, hb']
  simp only [bind, Except.bind, hscheme, hauthority,
    splitClean_of_not_hasScheme (not_hasScheme_of_head? hclean) b.scheme]
  cases hq : splitClean [] (clean reference) with
  | error e => rfl
  | ok q =>
    have hrest := cutParameters_ne_nil b.scheme (head?_path hclean hq (hpath q hq))
    have hmerged := mergedPath_eq_of_sameDirectory (hdirectory.cutParameters b.scheme)
      (cutParameters b.scheme q.path).1
    simp only [Except.map, List.isEmpty_iff, Bool.and_eq_true, hrest, false_and, if_false, hmerged]

end Url

namespace Fetch

/-! ## What a module counts as -/

/-- `counted` is the URL that a module counts as whose response came from `url`: with types or
without. -/
inductive Counts (url : String) : (counted : String) → Prop
  | script {counted : String} (h : scriptUrl url = .ok counted) : Counts url counted
  | types : Counts url (typesUrl url)

/-- The response that a fetch over the network ends with: that of the URL, or the one of the file
with types that its header names. -/
inductive Responds (c : Cache) (w : World) (url : String) : CachedResponse → Prop
  | module {r : CachedResponse} {w' : World} (h : (cachedGet c url).run w = (.ok r, w'))
      (ht : r.headers.get? typesHeader = none) : Responds c w url r
  | types {r t : CachedResponse} {w' w'' : World} {types target : String}
      (h : (cachedGet c url).run w = (.ok r, w')) (ht : r.headers.get? typesHeader = some types)
      (hj : Url.join r.responseUrl types = .ok target)
      (hg : (cachedGet c target).run w' = (.ok t, w'')) : Responds c w url t

/-- What a fetch over the network yields counts as the URL of its response, up to an ending. -/
theorem counts_of_fetchRemote {c : Cache} {w w' : World} {url : String} {s : Source}
    (h : (fetchRemote c url).run w = (.ok s, w')) :
    ∃ r, Responds c w url r ∧ Counts r.responseUrl s.url := by
  obtain ⟨r, w₁, hget, h⟩ := Action.run_bind_eq_ok_iff.1 h
  cases ht : r.headers.get? typesHeader with
  | none =>
    simp only [ht] at h
    obtain ⟨counted, hcounted, h⟩ := Action.run_liftM_bind_eq_ok_iff.1 h
    cases h
    exact ⟨r, .module hget ht, .script (Action.mapError_eq_ok_iff.1 hcounted)⟩
  | some types =>
    simp only [ht] at h
    obtain ⟨target, htarget, h⟩ := Action.run_liftM_bind_eq_ok_iff.1 h
    obtain ⟨t, w₂, hsecond, h⟩ := Action.run_bind_eq_ok_iff.1 h
    cases h
    exact ⟨t, .types hget ht (Action.mapError_eq_ok_iff.1 htarget) hsecond, .types⟩

/-- An ending that is added has no mark, and nothing in it is dropped. -/
theorem Counts.cases {url counted : String} (h : Counts url counted) :
    counted = url ∨ ∃ ending ∈ [guessedSuffix, declarationSuffix], counted = url ++ ending := by
  cases h with
  | script h =>
    obtain ⟨p, -, rfl⟩ := Action.map_eq_ok_iff.1 h
    split
    · exact .inl rfl
    · exact .inr ⟨guessedSuffix, by simp, rfl⟩
  | types =>
    unfold typesUrl
    split
    · exact .inl rfl
    · exact .inr ⟨declarationSuffix, by simp, rfl⟩

/-- A URL of a host with an ending is one with the same directory. -/
theorem exists_split_append {url ending : String} {p : Url.Parts}
    (hending : ending ∈ [guessedSuffix, declarationSuffix]) (hp : Url.split url = .ok p)
    (hs : p.scheme ≠ []) (hroot : p.path.head? = some '/') :
    ∃ p', Url.split (url ++ ending) = .ok p' ∧ p'.scheme = p.scheme ∧
      p'.authority = p.authority ∧ Url.SameDirectory p.path p'.path := by
  obtain ⟨hslash, hquery, hfragment, hline⟩ : '/' ∉ ending.toList ∧ '?' ∉ ending.toList ∧
      '#' ∉ ending.toList ∧
      ending.toList.filter (fun c => !Url.isLineControl c) = ending.toList := by
    rcases List.mem_pair.1 hending with rfl | rfl <;> decide
  have hclean : Url.clean url.toList ≠ [] := by
    intro hnil
    rw [Url.split, hnil] at hp
    cases hp
    exact hs rfl
  have hmem : '/' ∈ p.path := List.mem_of_head? hroot
  have hcut := Url.cutScheme_append (Url.hasScheme_of_scheme_ne_nil hp hs) [] ending.toList
  obtain ⟨p', hp', hlonger⟩ := Url.splitClean_append hcut
    (fun h => hslash (List.mem_of_head? h)) hp (List.ne_nil_of_mem hmem) hquery hfragment
  refine ⟨p', ?_, ?_, ?_, hlonger.sameDirectory hslash hmem⟩
  · rw [Url.split, String.toList_append, Url.clean_append hclean, hline, hp']
  · cases hlonger <;> rfl
  · cases hlonger <;> rfl

/-- If the first URL is an `https:` URL with a path of a host, both URLs give the same meaning to
every reference that begins with a point or a slash and has a path. -/
def SameReferences (url counted : String) : Prop :=
  ∀ p, Url.split url = .ok p → p.scheme = "https".toList → p.path.head? = some '/' →
    ∀ reference : String, reference.toList.head? = some '.' ∨ reference.toList.head? = some '/' →
      (∀ q, Url.split reference = .ok q → q.path ≠ []) →
        Url.join counted reference = Url.join url reference

theorem Counts.sameReferences {url counted : String} (h : Counts url counted) :
    SameReferences url counted := by
  intro p hp hs hroot reference hbegin hpath
  obtain rfl | ⟨ending, hending, rfl⟩ := h.cases
  · rfl
  · have hne : p.scheme ≠ [] := by
      rw [hs]
      decide
    obtain ⟨p', hp', hscheme, hauthority, hdirectory⟩ :=
      exists_split_append hending hp hne hroot
    rw [Url.join, Url.join,
      Url.joinChars_congr hp hp' hne hscheme hauthority hdirectory hbegin hpath]

/-- **What an ending leaves alone.** The URL that a module counts as has the references of the URL
of its response. Every fetch over the network that has a text reports such a URL: that of the last
response, with an ending or without. -/
theorem keeps_references :
    (∀ url counted, Counts url counted → SameReferences url counted) ∧
    ∀ (c : Cache) (w w' : World) (url : String) (s : Source),
      (fetchRemote c url).run w = (.ok s, w') →
        ∃ r, Responds c w url r ∧ Counts r.responseUrl s.url ∧
          SameReferences r.responseUrl s.url := by
  refine ⟨fun _ _ => Counts.sameReferences, fun c w w' url s h => ?_⟩
  obtain ⟨r, hresponds, hcounts⟩ := counts_of_fetchRemote h
  exact ⟨r, hresponds, hcounts, hcounts.sameReferences⟩

/-- A network that has one module, behind a slash and with a query. -/
def behindQuery : World where
  files := ⟨[], []⟩
  routes := [("https://cdn.test/pkg;v=1/?min", .response 200 [] (Utf8.encode "1"))]
  now := 0
  requests := []
  log := []

/-- A cache for one response. -/
def oneEntry : Cache := ⟨"/cache", Cache.freshnessWindow, fun _ => "entry", .usual⟩

set_option maxRecDepth 100000 in
/-- A file behind a slash, and a query that the ending becomes a part of. -/
theorem keeps_references_behindQuery :
    (∃ s w' r, (fetchRemote oneEntry "https://cdn.test/pkg;v=1/?min").run behindQuery =
        (.ok s, w') ∧ s.url = "https://cdn.test/pkg;v=1/?min.ts" ∧
      Responds oneEntry behindQuery "https://cdn.test/pkg;v=1/?min" r ∧
      SameReferences r.responseUrl s.url) ∧
    Counts "https://cdn.test/pkg;v=1/?min" "https://cdn.test/pkg;v=1/?min.ts" ∧
    Url.join "https://cdn.test/pkg;v=1/?min.ts" "./../dep.js;x" =
      Url.join "https://cdn.test/pkg;v=1/?min" "./../dep.js;x" ∧
    Url.join "https://cdn.test/pkg;v=1/?min" "./../dep.js;x" = .ok "https://cdn.test/dep.js;x" := by
  have hcounts : Counts "https://cdn.test/pkg;v=1/?min" "https://cdn.test/pkg;v=1/?min.ts" :=
    .script (by decide +kernel)
  have hbase : Url.split "https://cdn.test/pkg;v=1/?min" =
      .ok ⟨"https".toList, "cdn.test".toList, "/pkg;v=1/".toList, "min".toList, []⟩ := by
    decide +kernel
  have hreference : Url.split "./../dep.js;x" = .ok ⟨[], [], "./../dep.js;x".toList, [], []⟩ := by
    decide +kernel
  have hreported : ((fetchRemote oneEntry "https://cdn.test/pkg;v=1/?min").run
      behindQuery).1.toOption.map Source.url = some "https://cdn.test/pkg;v=1/?min.ts" := by
    decide +kernel
  obtain ⟨hsame, hfetch⟩ := keeps_references
  refine ⟨?_, hcounts, ?_, by decide +kernel⟩
  · rcases hrun : (fetchRemote oneEntry "https://cdn.test/pkg;v=1/?min").run behindQuery with
      ⟨_ | s, w'⟩
    · rw [hrun] at hreported
      cases hreported
    · rw [hrun] at hreported
      obtain ⟨r, hresponds, -, hreferences⟩ := hfetch _ _ _ _ _ hrun
      exact ⟨s, w', r, rfl, Option.some.inj hreported, hresponds, hreferences⟩
  · refine hsame _ _ hcounts _ hbase rfl rfl _ (.inl (by decide)) fun q hq => ?_
    rw [hreference] at hq
    cases hq
    decide

/-- A reference without a path stands for the base itself, ending and all. -/
example : Url.join "https://cdn.test/pkg.ts" "//" ≠ Url.join "https://cdn.test/pkg" "//" := by
  decide +kernel

end Fetch

end ModuleGraph
