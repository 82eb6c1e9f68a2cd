import ModuleGraph.Proofs.Host.Stored
import ModuleGraph.Proofs.Library
import ModuleGraph.Proofs.Url.Percent
/-!
# Where a loader stores a library and where a host looks for it

A loader joins the file name of a library with the URL of the library directory and stores the text
under the virtual path of what comes out. A host looks for the name behind the path of the
directory. The two places are one if the path of the directory begins with a slash, or is empty, and
ends in a name once its escapes are undone. The path that a host goes by has no slash at its end
even where one was escaped, whereas the joined URL keeps it; and it has no slash at its beginning if
the URL has none, whereas the joined URL gets one.

Results:
* `exists_base`: what a name is joined with;
* `virtualPath_joinUrl`: where a loader stores a library;
* `toList_location`: where a host looks for it;
* `placeOf_rooted_eq_iff`: when the two are one;
* `library_names_agree`: **main theorem**: the names of loader and host in any directory;
* `stored_elsewhere`: a library that is not stored where it is looked for.
-/

namespace ModuleGraph.Host

open Library (IsName IsDeclaration fileName)

/-! ## Directories -/

/-- The path of a directory without slashes at its end. -/
def bare (p : Url.Parts) : List Char := Text.trimEndList (· = '/') p.path

/-- The URL of a directory with the parts `p`: of a file or of a host, without query and fragment,
and with a path that is not the root and has no empty and no dotted segments, up to slashes at its
end. -/
structure IsDirectoryUrl (url : String) (p : Url.Parts) : Prop where
  parts : Url.split url = .ok p
  scheme : p.scheme = "file".toList ∨ p.scheme = "https".toList
  marks : '?' ∉ url.toList ∧ '#' ∉ url.toList
  directory : Url.IsDirectoryPath (bare p)
  notRoot : bare p ≠ [] ∨ p.path = []

/-- The virtual path, as a list, of what has this path in the URL with the parts `p`. -/
def placeOf (p : Url.Parts) (path : List Char) : List Char :=
  if p.scheme = "file".toList then Url.unescape path else "/https/".toList ++ p.authority ++ path

/-- The path of the directory begins with a slash or is empty, and ends in a name once its escapes
are undone. -/
structure IsFaithful (p : Url.Parts) : Prop where
  rooted : Url.rooted (bare p) = bare p
  named : EndsInName (placeOf p (bare p))

variable {url : String} {p : Url.Parts}

theorem IsDirectoryUrl.scheme_ne (h : IsDirectoryUrl url p) : p.scheme ≠ [] := by
  rcases h.scheme with hs | hs <;> rw [hs] <;> decide

theorem IsDirectoryUrl.clean_marks (h : IsDirectoryUrl url p) :
    '?' ∉ Url.clean url.toList ∧ '#' ∉ Url.clean url.toList :=
  ⟨fun hmem => h.marks.1 (Url.mem_of_mem_clean hmem).1,
    fun hmem => h.marks.2 (Url.mem_of_mem_clean hmem).1⟩

theorem IsDirectoryUrl.plain (h : IsDirectoryUrl url p) :
    Url.PlainParts (Url.clean url.toList) p :=
  Url.plainParts h.parts h.clean_marks.1 h.clean_marks.2 h.scheme_ne

/-- What a name is joined with: the directory with a slash at its end. -/
theorem exists_base (h : IsDirectoryUrl url p) : ∃ b,
    Url.splitClean [] (Url.clean (if Text.endsWith url "/" then url else url ++ "/").toList) = .ok b ∧
      Url.IsBase b (bare p) ∧ b.scheme = p.scheme ∧ b.authority = p.authority := by
  obtain ⟨n, hn⟩ := Text.exists_trimEndList '/' p.path
  by_cases hend : Text.endsWith url "/" = true
  · rw [if_pos hend]
    refine ⟨p, h.parts, ⟨h.scheme, h.directory, n, hn, ?_⟩, rfl, rfl⟩
    obtain ⟨cs, hcs⟩ := Text.endsWith_iff.1 hend
    have hclean : Url.clean url.toList = Url.clean cs ++ ['/'] := by
      rw [← hcs]
      exact Url.clean_append_slash cs
    obtain ⟨hq, hf⟩ := h.clean_marks
    have hparts : Url.splitClean [] (Url.clean url.toList) = .ok p := h.parts
    rw [hclean] at hq hf hparts
    have hpath := Url.path_of_append_slash hparts hq hf
    -- A path that ends in a slash is not bare.
    rw [Nat.pos_iff_ne_zero, or_iff_not_imp_left, not_not]
    rintro rfl
    rw [List.replicate_zero, List.append_nil] at hn
    rcases Text.trimEndList_cases (· = '/') p.path with ⟨hnil, -⟩ | ⟨b, c, hb, hc⟩
    · exact hnil
    · rw [← hn] at hb
      rcases hpath with hpath | ⟨q, hpath⟩
      · rw [hpath] at hb
        simp at hb
      · rw [hpath] at hb
        obtain rfl : '/' = c := by simpa using (List.append_inj' hb rfl).2
        simp at hc
  · rw [if_neg hend, String.toList_append]
    have hroot : p.path ≠ ['/'] := by
      intro hroot
      rcases h.notRoot with hne | hnil
      · rw [bare, hroot] at hne
        exact hne rfl
      · rw [hroot] at hnil
        cases hnil
    obtain ⟨hq, hf⟩ := h.clean_marks
    refine ⟨{ p with path := p.path ++ ['/'] }, ?_, ⟨h.scheme, h.directory, n + 1, ?_, ?_⟩, rfl, rfl⟩
    · exact (Url.clean_append_slash url.toList).symm ▸
        Url.splitClean_append_slash h.parts hq hf h.scheme_ne hroot
    · conv_lhs => rw [hn]
      rw [List.append_assoc, List.replicate_succ']
      rfl
    · exact .inl n.succ_pos

/-! ## Where a library is stored -/

/-- A URL of a file or of a host is fetched as it is. -/
theorem registryToNetworkUrl_eq {q : Url.Parts} (hq : Url.split url = .ok q)
    (hs : q.scheme = "file".toList ∨ q.scheme = "https".toList) :
    registryToNetworkUrl url = .ok url := by
  have horigin : registryOrigin? q.scheme = none := by
    rcases hs with hs | hs <;> rw [hs] <;> rfl
  rw [registryToNetworkUrl, hq]
  simp [Except.map, horigin]

theorem head?_rooted_append (path name : List Char) :
    (Url.rooted path ++ '/' :: name).head? = some '/' := by
  unfold Url.rooted
  cases path with
  | nil => rfl
  | cons c path =>
    by_cases hc : c = '/'
    · simp [hc]
    · simp [hc]

theorem mem_rooted {path : List Char} {c : Char} (h : c ∈ Url.rooted path) : c ∈ path ∨ c = '/' := by
  unfold Url.rooted at h
  split_ifs at h
  · exact (List.mem_cons.1 h).symm
  · exact .inl h

theorem mem_path_of_mem_bare {c : Char} (h : c ∈ bare p) : c ∈ p.path := by
  obtain ⟨n, hn⟩ := Text.exists_trimEndList '/' p.path
  rw [hn]
  exact List.mem_append_left _ h

/-- The parts of the joined URL. -/
theorem split_joined (h : IsDirectoryUrl url p) {name : String} (hn : IsName name) :
    Url.split (.ofList (Url.written p.scheme p.authority
      (Url.rooted (bare p) ++ '/' :: name.toList))) =
      .ok ⟨p.scheme, p.authority, Url.rooted (bare p) ++ '/' :: name.toList, [], []⟩ := by
  have hplain := h.plain
  have hmem : ∀ c ∈ Url.rooted (bare p) ++ '/' :: name.toList,
      c ∈ p.path ∨ c = '/' ∨ c ∈ name.toList := by
    intro c hc
    rw [List.mem_append, List.mem_cons] at hc
    rcases hc with hc | hc
    · rcases mem_rooted hc with hc | hc
      · exact .inl (mem_path_of_mem_bare hc)
      · exact .inr (.inl hc)
    · exact .inr hc
  have hmark : ∀ m ∈ ['?', '#'], m ∉ Url.clean url.toList →
      m ∉ Url.rooted (bare p) ++ '/' :: name.toList := by
    intro m hm hclean hc
    rcases hmem m hc with hc | rfl | hc
    · exact hclean (hplain.mem m (.inr hc))
    · revert hm
      decide
    · refine (Url.isNameChar_spec (hn m hc)).2.2.1 ?_
      revert hm
      simp only [List.mem_cons, List.not_mem_nil, or_false]
      rintro (rfl | rfl) <;> decide
  refine Url.split_written h.scheme hplain.problem hplain.authority (head?_rooted_append _ _)
    ⟨hmark '?' (by decide) h.clean_marks.1, hmark '#' (by decide) h.clean_marks.2⟩ ?_
  rintro c (hc | hc)
  · exact (Url.mem_of_mem_clean (hplain.mem c (.inl hc))).2
  · rcases hmem c hc with hc | rfl | hc
    · exact (Url.mem_of_mem_clean (hplain.mem c (.inr hc))).2
    · rfl
    · exact (Url.isNameChar_spec (hn c hc)).2.2.2

theorem joinUrl_name (h : IsDirectoryUrl url p) {name : String} (hn : Url.IsFileName name.toList) :
    joinUrl url [name] = .ok (.ofList (Url.written p.scheme p.authority
      (Url.rooted (bare p) ++ '/' :: name.toList))) := by
  obtain ⟨b, hb, hbase, hscheme, hauthority⟩ := exists_base h
  have hjoin := Url.joinChars_name hb hbase hn
  rw [hscheme, hauthority] at hjoin
  simp only [joinUrl, List.foldlM_cons, List.foldlM_nil, joinUrlStep, Url.join, hjoin, Except.map,
    bind, Except.bind, pure, Except.pure]

/-- No ending is guessed for a declaration file. -/
theorem guessed_eq_self {path : String} (h : Text.endsWith path ".ts" = true) :
    guessed path = path := by
  have hscript : hasScriptExtension path = true := by
    simp [hasScriptExtension, scriptExtensions, h]
  rw [guessed, lacksExtension, hscript]
  rfl

theorem placeOf_name {path : List Char} {name : String} (hn : IsName name) :
    placeOf p (path ++ '/' :: name.toList) = placeOf p path ++ '/' :: name.toList := by
  have hname : Url.unescape name.toList = name.toList := by
    refine Url.unescape_eq_self fun c hc => ?_
    obtain ⟨-, hlow, hmarks, -⟩ := Url.isNameChar_spec (hn c hc)
    exact ⟨hlow, fun hpercent => hmarks (by simp [hpercent])⟩
  unfold placeOf
  split_ifs
  · rw [Url.unescape_slash, hname]
  · simp only [List.append_assoc]

/-- Where a loader stores a library of the directory. -/
theorem virtualPath_joinUrl (h : IsDirectoryUrl url p) {name : String} (hn : IsName name) :
    ∃ joined, Library.primaryUrl url name = .ok joined ∧ virtualPath joined =
      .ok (.ofList (placeOf p (Url.rooted (bare p)) ++ '/' :: (fileName name).toList)) := by
  refine ⟨_, joinUrl_name h hn.isFileName, ?_⟩
  have hsplit := split_joined h hn.fileName
  rw [virtualPath_eq (registryToNetworkUrl_eq hsplit h.scheme) hsplit,
    ← placeOf_name hn.fileName]
  dsimp only
  unfold placeOf
  by_cases hfile : p.scheme = "file".toList
  · rw [if_pos hfile, if_pos hfile]
  · rw [if_neg hfile, if_neg hfile, if_pos (h.scheme.resolve_left hfile), guessed_eq_self]
    · rfl
    · obtain ⟨r, hr⟩ := Text.endsWith_iff.1 (Library.fileName_spec name).2.1
      rw [Text.endsWith_iff, toList_servedPath, ← hr]
      refine ⟨"/https/".toList ++ (p.authority ++
        (Url.rooted (bare p) ++ '/' :: (r ++ ".d".toList))), ?_⟩
      simp [declarationSuffix]

/-! ## Where a library is looked for -/

theorem trimEndList_replicate (a : List Char) (n : Nat) :
    Text.trimEndList (· = '/') (a ++ List.replicate n '/') = Text.trimEndList (· = '/') a := by
  refine Text.trimEndList_append_of_forall a fun c hc => ?_
  rw [List.eq_of_mem_replicate hc]
  rfl

theorem placeOf_slashes (path : List Char) (n : Nat) :
    placeOf p (path ++ List.replicate n '/') = placeOf p path ++ List.replicate n '/' := by
  unfold placeOf
  split_ifs
  · exact Url.unescape_slashes path n
  · simp only [List.append_assoc]

/-- The path by which a host knows the directory. -/
theorem exists_place {h : Host} (hd : IsDirectoryUrl h.libraryDir p) :
    ∃ location, h.libraryLocation = .ok location ∧
      let place := Text.trimEndList (· = '/') (placeOf p (bare p))
      location.toList = if place = [] then ['/'] else place := by
  have hnetwork := registryToNetworkUrl_eq hd.parts hd.scheme
  obtain ⟨place, hplace, hlist⟩ : ∃ place, Location.ofUrl h.libraryDir = .ok place ∧
      place.plainPath.toList = placeOf p p.path := by
    simp only [Location.ofUrl, hnetwork, hd.parts, Action.mapError_ok, bind, Except.bind]
    unfold placeOf
    by_cases hfile : p.scheme = "file".toList
    · rw [if_pos hfile, if_pos hfile]
      exact ⟨_, rfl, String.toList_ofList⟩
    · rw [if_neg hfile, if_neg hfile, if_pos (hd.scheme.resolve_left hfile)]
      exact ⟨_, rfl, String.toList_ofList⟩
  have htrim : Text.trimEnd (· = '/') place.plainPath =
      .ofList (Text.trimEndList (· = '/') (placeOf p (bare p))) := by
    obtain ⟨n, hn⟩ := Text.exists_trimEndList '/' p.path
    rw [Text.trimEnd, hlist, hn, placeOf_slashes, trimEndList_replicate]
    rfl
  refine ⟨_, by rw [libraryLocation, directoryPath, hplace]; rfl, ?_⟩
  dsimp only
  rw [htrim]
  generalize Text.trimEndList (· = '/') (placeOf p (bare p)) = cs
  cases cs with
  | nil => rfl
  | cons c cs =>
    rw [if_neg (List.cons_ne_nil c cs), if_neg, String.toList_ofList]
    intro hempty
    simpa using congrArg String.toList hempty

/-- A slash in front of a path is one more character of its place. -/
theorem length_placeOf_cons (path : List Char) :
    (placeOf p ('/' :: path)).length = (placeOf p path).length + 1 := by
  unfold placeOf
  split_ifs
  · have hslash := Url.unescape_slash [] path
    rw [List.nil_append, Url.unescape_nil, List.nil_append] at hslash
    rw [hslash, List.length_cons]
  · simp only [List.length_append, List.length_cons]
    omega

theorem placeOf_ne_nil {path : List Char} (h : path ≠ []) : placeOf p path ≠ [] := by
  unfold placeOf
  split_ifs
  · exact fun hnil => h ((Url.unescape_eq_nil_iff path).1 hnil)
  · simp

/-- No bare path stands for the root. -/
theorem placeOf_bare_ne_root (hrooted : Url.rooted (bare p) = bare p) :
    placeOf p (bare p) ≠ ['/'] := by
  intro hroot
  have hbare := Text.trimEndList_cases (· = '/') p.path
  change (bare p = [] ∧ _) ∨ _ at hbare
  unfold placeOf at hroot
  split_ifs at hroot
  · rcases hbare with ⟨hnil, -⟩ | ⟨b, c, hb, hc⟩
    · rw [hnil, Url.unescape_nil] at hroot
      cases hroot
    · change bare p = b ++ [c] at hb
      -- The path begins with a slash, and what follows it is not empty.
      cases b with
      | nil =>
        rw [hb, Url.rooted] at hrooted
        have hslash : c ≠ '/' := by simpa using hc
        simp [hslash] at hrooted
      | cons d b =>
        rw [hb] at hrooted hroot
        have hd : d = '/' := by
          by_contra hd
          simp [Url.rooted, hd] at hrooted
        have hslash := Url.unescape_slash [] (b ++ [c])
        rw [List.nil_append, Url.unescape_nil, List.nil_append] at hslash
        rw [hd, List.cons_append, hslash, List.cons.injEq, Url.unescape_eq_nil_iff] at hroot
        exact List.append_ne_nil_of_right_ne_nil b (List.cons_ne_nil c []) hroot.2
  · simp at hroot

/-- Where a loader stores libraries is where a host looks for them. -/
theorem placeOf_rooted_eq_iff {location : List Char}
    (hl : let place := Text.trimEndList (· = '/') (placeOf p (bare p))
      location = if place = [] then ['/'] else place) :
    placeOf p (Url.rooted (bare p)) = location ↔ IsFaithful p := by
  dsimp only at hl
  constructor
  · intro heq
    have hrooted : Url.rooted (bare p) = bare p := by
      unfold Url.rooted at heq ⊢
      split_ifs at heq ⊢ with hcond
      · -- The path with a slash in front is longer than the trimmed one.
        have hne : bare p ≠ [] := by
          rintro hnil
          rw [hnil] at hcond
          cases hcond
        have hpos := List.length_pos_iff.2 (placeOf_ne_nil (p := p) hne)
        have hlength := congrArg List.length heq
        obtain ⟨n, hn⟩ := Text.exists_trimEndList '/' (placeOf p (bare p))
        have htrimmed := congrArg List.length hn
        rw [List.length_append] at htrimmed
        rw [length_placeOf_cons, hl] at hlength
        split_ifs at hlength
        · rw [List.length_singleton] at hlength
          omega
        · omega
      · rfl
    refine ⟨hrooted, ?_⟩
    rw [hrooted] at heq
    rcases Text.trimEndList_cases (· = '/') (placeOf p (bare p)) with ⟨hnil, -⟩ | ⟨b, c, hb, hc⟩
    · rw [if_pos hnil] at hl
      exact absurd (heq.trans hl) (placeOf_bare_ne_root hrooted)
    · rw [hb, if_neg (by simp)] at hl
      exact ⟨b, c, heq.trans hl, by simpa using hc⟩
  · rintro ⟨hrooted, b, c, hb, hc⟩
    rw [hb, Text.trimEndList_append (by simpa using hc), if_neg (by simp)] at hl
    rw [hrooted, hb, hl]

/-! ## Names behind the directory -/

variable {h : Host} {location : String}

/-- In a directory that is not the root, the name of a declaration file is folded to the file name
of a library. -/
theorem normalizePath_name (hl : h.libraryLocation = .ok location) (hroot : location ≠ "/")
    {f : String} (hf : IsName f) (hend : IsDeclaration f) :
    h.normalizePath (location ++ "/" ++ f) = .ok (location ++ "/" ++ fileName f) := by
  have hnamed : EndsInName location.toList :=
    (isLocation_of_libraryLocation hl).resolve_left hroot
  have hruntime : Text.endsWith (location ++ "/" ++ f) jsxRuntimeSegment = false := by
    obtain ⟨g, d, t, u, hg, -, -, hu⟩ := Library.exists_ending hf hend
    rw [Bool.eq_false_iff, ne_eq, Text.endsWith_iff, String.toList_append, hg]
    rintro ⟨r, hr⟩
    have hlast : 'e' = u := by
      have hreverse := congrArg List.reverse hr
      simp only [List.reverse_append, List.reverse_cons, List.reverse_nil, List.nil_append,
        List.cons_append] at hreverse
      exact (List.cons.inj hreverse).1
    rw [← hlast] at hu
    revert hu
    decide +kernel
  have hin : Text.startsWith (location ++ "/" ++ f) location = true := by
    rw [String.append_assoc, Text.startsWith_iff, String.toList_append]
    exact List.prefix_append _ _
  rw [normalizePath_eq hl, normalized_of_library hruntime hin, foldPath,
    cutDirectory_of_endsInName hnamed hf.no_slash]
  dsimp only
  rw [Library.foldLibraryName_eq hf hend]

/-- What a host reads under its own key in the library directory. -/
theorem read_library (hl : h.libraryLocation = .ok location) {name text : String}
    (hnormal : h.normalizePath (location ++ "/" ++ name) = .ok (location ++ "/" ++ name))
    (hs : h.store.get? (location ++ "/" ++ name) = some text) :
    h.read (location ++ "/" ++ name) = .ok (some text,
      [.fileRead (location ++ "/" ++ name) (location ++ "/" ++ name) true]) := by
  have hin : Text.startsWith (location ++ "/" ++ name) location = true := by
    rw [String.append_assoc, Text.startsWith_iff, String.toList_append]
    exact List.prefix_append _ _
  rw [normalizePath_eq hl, Except.ok.injEq] at hnormal
  rw [read_eq hl, hnormal, answerAt_self hs, hin]

/-- **Names of libraries.** Let the library directory be given by the URL of a directory. The file
name of a library is its own file name. A loader stores the library behind the path that the host
knows the directory by exactly if the path of the URL begins with a slash or is empty and ends in a
name once its escapes are undone; then the directory is not the root. Where it is not, the host
folds the name of a declaration file to the file name that the loader makes of it, and it reads what
is stored under such a name as it is. -/
theorem library_names_agree {h : Host} {p : Url.Parts} (hd : IsDirectoryUrl h.libraryDir p) :
    ∃ location, h.libraryLocation = .ok location ∧ (IsFaithful p → location ≠ "/") ∧
      (∀ n, IsName n → fileName (fileName n) = fileName n ∧
        (∃ url path, Library.primaryUrl h.libraryDir n = .ok url ∧ virtualPath url = .ok path ∧
          (path = location ++ "/" ++ fileName n ↔ IsFaithful p)) ∧
        (location ≠ "/" →
          let path := location ++ "/" ++ fileName n
          h.normalizePath path = .ok path ∧ ∀ text, h.store.get? path = some text →
            h.read path = .ok (some text, [.fileRead path path true]))) ∧
      (location ≠ "/" → ∀ f, IsName f → IsDeclaration f →
        h.normalizePath (location ++ "/" ++ f) = .ok (location ++ "/" ++ fileName f)) := by
  obtain ⟨location, hl, hplace⟩ := exists_place hd
  have hfolded (hroot : location ≠ "/") (f : String) (hf : IsName f) (hend : IsDeclaration f) :=
    normalizePath_name hl hroot hf hend
  refine ⟨location, hl, ?_, fun n hn => ⟨Library.fileName_fileName n, ?_, fun hroot => ?_⟩, hfolded⟩
  · rintro hfaithful rfl
    have hat := (placeOf_rooted_eq_iff hplace).2 hfaithful
    have hnamed := hfaithful.named
    rw [← hfaithful.rooted, hat] at hnamed
    exact not_endsInName_slash hnamed
  · obtain ⟨url, hurl, hpath⟩ := virtualPath_joinUrl hd hn
    refine ⟨url, _, hurl, hpath, ?_⟩
    rw [← placeOf_rooted_eq_iff hplace, ← String.toList_inj, String.toList_ofList,
      String.toList_append, String.toList_append, List.append_assoc]
    exact List.append_left_inj ('/' :: (fileName n).toList)
  · have hnormal := hfolded hroot (fileName n) hn.fileName (Library.isDeclaration_fileName n)
    rw [Library.fileName_fileName] at hnormal
    exact ⟨hnormal, fun text hs => read_library hl hnormal hs⟩

/-- A library directory whose URL ends in an escaped slash, and the library `dom` where a loader
stores it. -/
def behindEscapedSlash : Host where
  store := ModuleStore.empty.filled "/dts//lib.dom.d.ts" "interface Window {}\n"
  rootUrl := "file:///app/"
  libraryDir := "file:///dts%2F"

/-- A library may be stored where it is not looked for. The path of the directory has one segment,
which is neither empty nor dotted, and its end is a slash once it is decoded. The host drops this
slash, the joined URL keeps it, and so the host does not find the library under the path that it is
stored under. -/
theorem stored_elsewhere :
    let p : Url.Parts := ⟨"file".toList, [], "/dts%2F".toList, [], []⟩
    let stored := "/dts//lib.dom.d.ts"
    IsDirectoryUrl behindEscapedSlash.libraryDir p ∧ IsName "dom" ∧
      behindEscapedSlash.libraryLocation = .ok "/dts" ∧ fileName "dom" = "lib.dom.d.ts" ∧
      Library.primaryUrl behindEscapedSlash.libraryDir "dom" =
        .ok "file:///dts%2F/lib.dom.d.ts" ∧
      virtualPath "file:///dts%2F/lib.dom.d.ts" = .ok stored ∧
      stored ≠ "/dts" ++ "/" ++ fileName "dom" ∧
      behindEscapedSlash.normalizePath stored = .ok "/dts/lib.dom.d.ts" ∧
      behindEscapedSlash.store.get? stored = some "interface Window {}\n" ∧
      behindEscapedSlash.read stored = .ok (none, [.fileNotFound "/dts/lib.dom.d.ts"]) := by
  refine ⟨⟨by decide +kernel, .inl rfl, by decide, ⟨by decide, by decide⟩, .inl (by decide)⟩, ?_⟩
  decide +kernel

/-- In a directory on a host, the library `dom` is stored where it is looked for, in whatever
letters it is named. -/
theorem library_names_agree_withRuntime :
    let p : Url.Parts := ⟨"https".toList, "libs.example".toList, "/dts".toList, [], []⟩
    let path := "/https/libs.example/dts/" ++ fileName "DOM"
    IsDirectoryUrl withRuntime.libraryDir p ∧ IsFaithful p ∧
      (∃ url, Library.primaryUrl withRuntime.libraryDir "DOM" = .ok url ∧
        virtualPath url = .ok path) ∧
      withRuntime.read path = .ok (some "interface Window {}\n", [.fileRead path path true]) ∧
      withRuntime.normalizePath "/https/libs.example/dts/Dom.D.TS" =
        .ok ("/https/libs.example/dts/" ++ fileName "Dom.D.TS") := by
  have hd : IsDirectoryUrl withRuntime.libraryDir
      ⟨"https".toList, "libs.example".toList, "/dts".toList, [], []⟩ :=
    ⟨by decide +kernel, .inr rfl, by decide, ⟨by decide, by decide⟩, .inl (by decide)⟩
  have hfaithful : IsFaithful ⟨"https".toList, "libs.example".toList, "/dts".toList, [], []⟩ :=
    ⟨by decide, "/https/libs.example/dt".toList, 's', by decide, by decide⟩
  have hname : IsName "DOM" ∧ IsName "Dom.D.TS" := by decide
  obtain ⟨location, hl, hroot, hnames, hfold⟩ := library_names_agree hd
  obtain rfl : location = "/https/libs.example/dts" := by
    have hplace : withRuntime.libraryLocation = .ok "/https/libs.example/dts" := by decide +kernel
    exact Except.ok.inj (hl.symm.trans hplace)
  obtain ⟨-, ⟨url, path, hurl, hpath, heq⟩, hread⟩ := hnames "DOM" hname.1
  refine ⟨hd, hfaithful, ⟨url, hurl, ?_⟩, ?_, ?_⟩
  · rw [hpath, heq.2 hfaithful]
    rfl
  · exact (hread (hroot hfaithful)).2 _ (by decide +kernel)
  · exact hfold (hroot hfaithful) "Dom.D.TS" hname.2 (by unfold IsDeclaration; decide +kernel)

end ModuleGraph.Host
