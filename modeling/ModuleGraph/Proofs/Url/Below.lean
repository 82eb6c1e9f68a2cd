import ModuleGraph.Proofs.Url.Longer
/-!
# Directories and what is below them

A reference that ends in a slash names a directory, and what is below the directory is written
behind the slash. There are two ways to the URL of something below: the reference to the directory
is joined first and the rest is put behind the joined URL, or the rest is put behind the reference
and the whole is joined. From the URL of a file both ways lead to the same place. Dots are carried
out in the reference only, and where they leave no segment at all, the slash at the root stands for
the directory.

There is one reference that the ways part at: two slashes and nothing else, once tabs and line ends
are dropped. On its own it has neither an authority nor a path and names the base itself; with
something behind it, it begins an authority.

Results:
* `exists_mergedSegments`: what a reference adds to the segments of its base;
* `rooted_mergedPath_append`: merging a path, and what is below it;
* `joinChars_append`: joining a reference, and what is below it;
* `joinChars_slashes`: the reference that the ways part at;
* `extends_iff`: both ways lead to the same place but for that reference.
-/

namespace ModuleGraph.Url

/-! ## Merged paths -/

/-- The path of something below a directory, as it is written behind the slash of the directory: no
segment is empty, `.` or `..`, nothing begins a query or a fragment, and nothing is dropped. -/
structure IsBelow (cs : List Char) : Prop where
  nonempty : ∀ s ∈ Text.piecesAt '/' cs, s ≠ []
  plain : ∀ s ∈ Text.piecesAt '/' cs, IsPlain s
  noQuery : '?' ∉ cs
  noFragment : '#' ∉ cs
  visible : ∀ c ∈ cs, isLineControl c = false

instance (s : List Char) : Decidable (IsPlain s) :=
  inferInstanceAs (Decidable (s ≠ ['.'] ∧ s ≠ ['.', '.']))

theorem isBelow_iff {cs : List Char} : IsBelow cs ↔ (∀ s ∈ Text.piecesAt '/' cs, s ≠ []) ∧
    (∀ s ∈ Text.piecesAt '/' cs, IsPlain s) ∧ '?' ∉ cs ∧ '#' ∉ cs ∧
      cs.all (fun c => !isLineControl c) = true := by
  simp only [List.all_eq_true, Bool.not_eq_true']
  constructor
  · intro h
    exact ⟨h.nonempty, h.plain, h.noQuery, h.noFragment, h.visible⟩
  · rintro ⟨hnonempty, hplain, hquery, hfragment, hvisible⟩
    exact ⟨hnonempty, hplain, hquery, hfragment, hvisible⟩

instance (cs : List Char) : Decidable (IsBelow cs) := decidable_of_iff' _ isBelow_iff

theorem IsBelow.head?_ne {cs : List Char} (h : IsBelow cs) : cs ≠ [] ∧ cs.head? ≠ some '/' := by
  cases cs with
  | nil => exact absurd rfl (h.nonempty [] (by simp [Text.piecesAt]))
  | cons c cs =>
    refine ⟨List.cons_ne_nil c cs, ?_⟩
    rintro ⟨⟩
    exact absurd rfl (h.nonempty [] (by simp [Text.piecesAt]))

/-- What a reference in a directory adds to the segments of its base. The segments of the directory
do not depend on what is below it. -/
theorem exists_mergedSegments (base directory : List Char) : ∃ front, ∀ rest,
    (∀ s ∈ (Text.piecesAt '/' rest).dropLast, s ≠ []) →
      mergedSegments base (directory ++ '/' :: rest) = front ++ Text.piecesAt '/' rest := by
  have hhead (rest : List Char) :
      (directory ++ '/' :: rest).head? = (directory ++ ['/']).head? := by
    cases directory <;> rfl
  by_cases hroot : (directory ++ ['/']).head? = some '/'
  · refine ⟨Text.piecesAt '/' directory, fun rest _ => ?_⟩
    rw [mergedSegments, if_pos ((hhead rest).trans hroot), Text.piecesAt_append]
  · set above := Text.piecesAt '/' base
    set kept := if above.getLast? = some [] then above else above.dropLast with hkept
    obtain ⟨first, inner, hfront⟩ := List.exists_cons_of_ne_nil
      (List.append_ne_nil_of_right_ne_nil kept (Text.piecesAt_ne_nil '/' directory))
    refine ⟨first :: inner.filter fun s => !s.isEmpty, fun rest hrest => ?_⟩
    obtain ⟨init, last, hpieces⟩ :=
      (List.eq_nil_or_concat (Text.piecesAt '/' rest)).resolve_left (Text.piecesAt_ne_nil '/' rest)
    rw [List.concat_eq_append] at hpieces
    have hinit : init.filter (fun s => !s.isEmpty) = init := by
      rw [List.filter_eq_self]
      intro s hs
      rw [hpieces, List.dropLast_concat] at hrest
      simpa using hrest s hs
    unfold mergedSegments
    dsimp only
    rw [if_neg (fun h => hroot ((hhead rest).symm.trans h)), ← hkept, Text.piecesAt_append,
      ← List.append_assoc, hfront, hpieces, List.cons_append, ← List.append_assoc,
      dropInnerEmpty_concat, List.filter_append, hinit]
    simp

theorem mergedPath_of_ne_nil {base path : List Char}
    (h : joinSegments (removeDots (mergedSegments base path)) ≠ []) :
    mergedPath base path = joinSegments (removeDots (mergedSegments base path)) := by
  unfold mergedPath
  split
  · next hnil => exact absurd hnil h
  · rfl

theorem rooted_append_of_ne_nil {path : List Char} (h : path ≠ []) (rest : List Char) :
    rooted (path ++ rest) = rooted path ++ rest := by
  cases path with
  | nil => exact absurd rfl h
  | cons c path =>
    by_cases hc : c = '/'
    · simp [rooted, hc]
    · simp [rooted, hc]

/-- What is below a directory is found behind the merged path of the directory. -/
theorem rooted_mergedPath_append (base directory : List Char) {rest : List Char}
    (h : IsBelow rest) : rooted (mergedPath base (directory ++ '/' :: rest)) =
      rooted (mergedPath base (directory ++ ['/'])) ++ rest := by
  obtain ⟨front, hfront⟩ := exists_mergedSegments base directory
  have hdirectory : removeDots (mergedSegments base (directory ++ ['/'])) =
      (front.foldl walkSegment []).reverse ++ [[]] := by
    rw [hfront [] (by simp [Text.piecesAt])]
    exact removeDots_append front (by simp [IsPlain, Text.piecesAt]) (List.cons_ne_nil _ _)
  have hbelow : removeDots (mergedSegments base (directory ++ '/' :: rest)) =
      (front.foldl walkSegment []).reverse ++ Text.piecesAt '/' rest := by
    rw [hfront rest fun s hs => h.nonempty s (List.dropLast_subset _ hs)]
    exact removeDots_append front h.plain (Text.piecesAt_ne_nil '/' rest)
  obtain ⟨hne, hhead⟩ := h.head?_ne
  by_cases hdone : (front.foldl walkSegment []).reverse = []
  · -- Nothing is left of the directory but the root.
    rw [hdone] at hdirectory hbelow
    have hroot : mergedPath base (directory ++ ['/']) = ['/'] := by
      rw [mergedPath, hdirectory]
      rfl
    rw [hroot, mergedPath_of_ne_nil, hbelow]
    · simp [joinSegments_piecesAt, rooted, hne, hhead]
    · simpa [hbelow, joinSegments_piecesAt] using hne
  · have hsegments (last : List (List Char)) (hlast : last ≠ []) :
        joinSegments ((front.foldl walkSegment []).reverse ++ last) =
          joinSegments (front.foldl walkSegment []).reverse ++ '/' :: joinSegments last :=
      joinSegments_append hdone hlast
    rw [mergedPath_of_ne_nil, mergedPath_of_ne_nil, hdirectory, hbelow,
      hsegments _ (List.cons_ne_nil _ _), hsegments _ (Text.piecesAt_ne_nil '/' rest),
      joinSegments_piecesAt, rooted_append, rooted_append]
    · simp [joinSegments]
    · rw [hdirectory, hsegments _ (List.cons_ne_nil _ _)]
      simp
    · rw [hbelow, hsegments _ (Text.piecesAt_ne_nil '/' rest)]
      simp

/-! ## Joined references -/

/-- The base is the URL of a file: it has no authority, and its path begins with a slash. -/
structure IsFileBase (base : List Char) (b : Parts) : Prop where
  parts : splitClean [] (clean base) = .ok b
  scheme : b.scheme = "file".toList
  authority : b.authority = []
  root : b.path.head? = some '/'

namespace IsFileBase

variable {base : List Char} {b : Parts} (h : IsFileBase base b)

include h

theorem ne_nil : base ≠ [] := by
  rintro rfl
  have hscheme := h.scheme
  cases h.parts
  cases hscheme

theorem scheme_ne_nil : b.scheme ≠ [] := by
  rw [h.scheme]
  decide

/-- Files have relative references, and their paths have no parameters. -/
theorem relative : String.ofList b.scheme ∈ hierarchical := by
  rw [h.scheme]
  decide

theorem cutParameters_eq (path : List Char) : cutParameters b.scheme path = (path, []) := by
  rw [cutParameters, h.scheme]
  rfl

end IsFileBase

theorem query_eq_nil_of_not_mem {inherited cs : List Char} {p : Parts}
    (h : splitClean inherited cs = .ok p) (hq : '?' ∉ cs) (hf : '#' ∉ cs) :
    p.query = [] ∧ p.fragment = [] := by
  rw [splitClean_eq hq hf] at h
  split at h
  · cases h
  · cases h
    exact ⟨rfl, rfl⟩

theorem unsplit_plain {scheme : List Char} (h : scheme ≠ []) (authority path : List Char) :
    unsplit ⟨scheme, authority, path, [], []⟩ = written scheme authority (rooted path) := by
  simp [unsplit, written, rooted, h]

theorem written_append (scheme authority path rest : List Char) :
    written scheme authority (path ++ rest) = written scheme authority path ++ rest := by
  simp [written]

section

variable {base reference : List Char} {b r : Parts} (hbase : IsFileBase base b)
  (hr : splitClean b.scheme (clean reference) = .ok r)

include hbase hr

/-- What a reference names as seen from a file, by its parts. -/
theorem joinChars_of_file (hne : reference ≠ []) (hq : r.query = []) (hf : r.fragment = [])
    (hsome : r.authority ≠ [] ∨ r.path ≠ []) : joinChars base reference =
      .ok (if r.scheme ≠ b.scheme then reference
        else written b.scheme r.authority
          (rooted (if r.authority = [] then mergedPath b.path r.path else r.path))) := by
  unfold joinChars
  rw [if_neg (by simpa using hbase.ne_nil), if_neg (by simpa using hne), hbase.parts]
  simp only [bind, Except.bind, hr]
  by_cases hsame : r.scheme = b.scheme
  · obtain ⟨scheme, authority, path, query, fragment⟩ := r
    dsimp only at hsame hq hf hsome
    subst hsame hq hf
    by_cases hauthority : authority = []
    · have hpath := hsome.resolve_left fun h => h hauthority
      simp [hbase.relative, hbase.cutParameters_eq, hpath, hauthority, hbase.authority,
        withParameters, unsplit_plain hbase.scheme_ne_nil, pure, Except.pure]
    · simp [hbase.relative, hbase.cutParameters_eq, hauthority, withParameters,
        unsplit_plain hbase.scheme_ne_nil, pure, Except.pure]
  · simp [hsame, pure, Except.pure]

/-- What is below a directory is found behind the joined URL of the directory. -/
theorem joinChars_append {directory : List Char} (hslash : clean reference = directory ++ ['/'])
    (hq : '?' ∉ clean reference) (hf : '#' ∉ clean reference) (hpath : r.path ≠ [])
    (hcut : ∀ rest, cutScheme b.scheme (clean reference ++ rest) =
      ((cutScheme b.scheme (clean reference)).1, (cutScheme b.scheme (clean reference)).2 ++ rest))
    {rest : List Char} (hrest : IsBelow rest) :
    ∃ target, joinChars base reference = .ok target ∧
      joinChars base (reference ++ rest) = .ok (target ++ rest) := by
  obtain ⟨hnil, hhead⟩ := hrest.head?_ne
  have hne : clean reference ≠ [] := by simp [hslash]
  have hne' : reference ≠ [] := by
    rintro rfl
    exact hne rfl
  have hkept : rest.filter (fun c => !isLineControl c) = rest :=
    List.filter_eq_self.2 fun c hc => by rw [hrest.visible c hc]; rfl
  have hr' : splitClean b.scheme (clean (reference ++ rest)) =
      .ok { r with path := r.path ++ rest } := by
    rw [clean_append hne, hkept]
    exact splitClean_append_path (hcut rest) hhead hr hpath
      (by simp [hq, hrest.noQuery]) (by simp [hf, hrest.noFragment])
  obtain ⟨hquery, hfragment⟩ := query_eq_nil_of_not_mem hr hq hf
  obtain ⟨below, hbelow⟩ : ∃ below, r.path = below ++ ['/'] := by
    rw [hslash] at hr hq hf
    exact (path_of_append_slash hr hq hf).resolve_left hpath
  refine ⟨_, joinChars_of_file hbase hr hne' hquery hfragment (.inr hpath), ?_⟩
  rw [joinChars_of_file hbase hr' (by simp [hne']) hquery hfragment (.inr (by simp [hpath]))]
  dsimp only
  split_ifs with hscheme hauthority
  · rfl
  · rw [hbelow, List.append_assoc, List.singleton_append,
      rooted_mergedPath_append b.path below hrest, written_append]
  · rw [rooted_append_of_ne_nil hpath, written_append]

end

/-! ## References to directories -/

/-- How a reference to a directory begins: as a path as seen from the base, or from the root, or as
the URL of a host. -/
inductive BeginsDirectory (cs : List Char) : Prop
  | here (h : ['.', '/'] <+: cs)
  | above (h : ['.', '.', '/'] <+: cs)
  | root (h : ['/'] <+: cs) (hn : ¬ ['/', '/'] <+: cs)
  | host {p : Parts} (hp : splitClean [] (clean cs) = .ok p) (hs : p.scheme = "https".toList)
      (ha : p.authority ≠ [])

/-- A reference to a directory: it ends in a slash and has neither a query nor a fragment. -/
structure IsDirectoryReference (cs : List Char) : Prop where
  begins : BeginsDirectory cs
  slash : ∃ d, cs = d ++ ['/']
  noQuery : '?' ∉ cs
  noFragment : '#' ∉ cs

/-- What there is of a reference to a directory once it is cleaned. -/
theorem BeginsDirectory.clean_cases {cs : List Char} (h : BeginsDirectory cs) :
    ((clean cs).head? = some '.' ∨ (clean cs).head? = some '/') ∨
      HasScheme (clean cs) ∧ ∃ p, splitClean [] (clean cs) = .ok p ∧ p.authority ≠ [] := by
  cases h with
  | here h =>
    obtain ⟨r, rfl⟩ := h
    exact .inl (.inl (head?_clean rfl (by decide)))
  | above h =>
    obtain ⟨r, rfl⟩ := h
    exact .inl (.inl (head?_clean rfl (by decide)))
  | root h =>
    obtain ⟨r, rfl⟩ := h
    exact .inl (.inr (head?_clean rfl (by decide)))
  | host hp hs ha =>
    refine .inr ⟨hasScheme_of_scheme_ne_nil hp ?_, _, hp, ha⟩
    rw [hs]
    decide

theorem splitClean_of_hasScheme {cs : List Char} (h : HasScheme cs) (inherited : List Char) :
    splitClean inherited cs = splitClean [] cs := by
  obtain ⟨a, r, rfl, ha⟩ := h
  rw [splitClean_eq_ofRest, splitClean_eq_ofRest, cutScheme_of_isScheme ha,
    cutScheme_of_isScheme ha]

/-- A text without marks that ends in a slash has a path, unless the slash ends the sign of an
authority. -/
theorem path_ne_nil {inherited cs q : List Char} {p : Parts}
    (h : splitClean inherited cs = .ok p) (hq : '?' ∉ cs) (hf : '#' ∉ cs)
    (hrest : (cutScheme inherited cs).2 = q ++ ['/']) (hsign : q ≠ ['/']) : p.path ≠ [] := by
  rw [splitClean_eq hq hf, hrest, cutAuthority_append_slash hsign] at h
  split at h
  · cases h
  · cases h
    simp

namespace IsDirectoryReference

variable {cs : List Char} (h : IsDirectoryReference cs)

include h

theorem ne_nil : cs ≠ [] := by
  obtain ⟨d, rfl⟩ := h.slash
  simp

theorem clean_eq : ∃ d, clean cs = d ++ ['/'] := by
  obtain ⟨d, rfl⟩ := h.slash
  exact ⟨clean d, clean_append_slash d⟩

theorem noMarks : '?' ∉ clean cs ∧ '#' ∉ clean cs :=
  ⟨fun hmem => h.noQuery (mem_of_mem_clean hmem).1,
    fun hmem => h.noFragment (mem_of_mem_clean hmem).1⟩

theorem cutScheme_append (inherited rest : List Char) : cutScheme inherited (clean cs ++ rest) =
    ((cutScheme inherited (clean cs)).1, (cutScheme inherited (clean cs)).2 ++ rest) := by
  rcases h.begins.clean_cases with hhead | ⟨hscheme, -⟩
  · exact cutScheme_append_of_head? hhead inherited rest
  · exact Url.cutScheme_append hscheme inherited rest

/-- The reference has a path, unless it is the sign of an authority and nothing else. -/
theorem path_ne_nil {inherited : List Char} {p : Parts}
    (hp : splitClean inherited (clean cs) = .ok p) (hsign : clean cs ≠ ['/', '/']) :
    p.path ≠ [] := by
  obtain ⟨d, hd⟩ := h.clean_eq
  rcases h.begins.clean_cases with hhead | ⟨hscheme, p', hp', ha⟩
  · have hrest : (cutScheme inherited (clean cs)).2 = d ++ ['/'] := by
      rw [cutScheme_of_not_hasScheme (not_hasScheme_of_head? hhead), hd]
    refine Url.path_ne_nil hp h.noMarks.1 h.noMarks.2 hrest ?_
    rintro rfl
    exact hsign hd
  · rw [splitClean_of_hasScheme hscheme] at hp
    rw [hp] at hp'
    cases hp'
    rw [(splitClean_eq_ok hp).1] at ha
    -- What follows the scheme has more to it than the sign of an authority.
    have hsuffix := cutScheme_suffix [] (clean cs)
    rw [hd] at hsuffix
    rcases eq_append_slash_of_suffix hsuffix with hnil | ⟨q, hq⟩
    · rw [hd, hnil] at ha
      exact absurd rfl ha
    · rw [← hd] at hq
      refine Url.path_ne_nil hp h.noMarks.1 h.noMarks.2 hq ?_
      rintro rfl
      rw [hq] at ha
      exact ha rfl

/-- The reference has parts, unless it begins an authority. -/
theorem exists_parts (inherited : List Char) (hsign : ¬ ['/', '/'] <+: clean cs) :
    ∃ p, splitClean inherited (clean cs) = .ok p := by
  rcases h.begins.clean_cases with hhead | ⟨hscheme, p, hp, -⟩
  · have hauthority : cutAuthority (clean cs) = ([], clean cs) :=
      cutAuthority_of_not_slashes fun t ht => hsign ⟨t, ht.symm⟩
    rw [splitClean_eq h.noMarks.1 h.noMarks.2,
      cutScheme_of_not_hasScheme (not_hasScheme_of_head? hhead)]
    dsimp only
    rw [hauthority]
    exact ⟨_, rfl⟩
  · exact ⟨p, by rw [splitClean_of_hasScheme hscheme, hp]⟩

end IsDirectoryReference

/-! ## Both ways -/

/-- What is joined has parts. -/
theorem exists_parts_of_joinChars {base reference target : List Char} {b : Parts}
    (hbase : IsFileBase base b) (hne : reference ≠ [])
    (h : joinChars base reference = .ok target) :
    ∃ r, splitClean b.scheme (clean reference) = .ok r := by
  unfold joinChars at h
  rw [if_neg (by simpa using hbase.ne_nil), if_neg (by simpa using hne), hbase.parts] at h
  obtain ⟨b', hb', h⟩ := Action.bind_eq_ok_iff.1 h
  cases hb'
  obtain ⟨r, hr, -⟩ := Action.bind_eq_ok_iff.1 h
  exact ⟨r, hr⟩

section

variable {base reference : List Char} {b : Parts} (hbase : IsFileBase base b)

include hbase

/-- A reference to a directory can be joined, unless it begins an authority. -/
theorem exists_joinChars (h : IsDirectoryReference reference)
    (hsign : ¬ ['/', '/'] <+: clean reference) : ∃ target, joinChars base reference = .ok target := by
  obtain ⟨r, hr⟩ := h.exists_parts b.scheme hsign
  obtain ⟨hquery, hfragment⟩ := query_eq_nil_of_not_mem hr h.noMarks.1 h.noMarks.2
  have hpath : r.path ≠ [] := h.path_ne_nil hr fun heq => hsign (heq ▸ List.prefix_rfl)
  exact ⟨_, joinChars_of_file hbase hr h.ne_nil hquery hfragment (.inr hpath)⟩

/-- The sign of an authority without an authority names the base. -/
theorem joinChars_sign (h : clean reference = ['/', '/']) :
    ∃ tail, joinChars base reference = .ok ("file:///".toList ++ tail) := by
  have hne : reference ≠ [] := by
    rintro rfl
    cases h
  have hparts : splitClean b.scheme (clean reference) = .ok ⟨b.scheme, [], [], [], []⟩ := by
    rw [h]
    rfl
  have hjoin : joinChars base reference = .ok (unsplit { b with fragment := [] }) := by
    unfold joinChars
    rw [if_neg (by simpa using hbase.ne_nil), if_neg (by simpa using hne), hbase.parts]
    simp [bind, Except.bind, hparts, hbase.relative, hbase.cutParameters_eq, withParameters,
      pure, Except.pure]
  obtain ⟨tail, htail⟩ := written_prefix_unsplit (p := { b with fragment := [] })
    hbase.scheme_ne_nil
  obtain ⟨path, hpath⟩ := List.head?_eq_some_iff.1 hbase.root
  refine ⟨path ++ tail, ?_⟩
  rw [hjoin, ← htail]
  simp [written, rooted, hbase.scheme, hbase.authority, hpath]

/-- With something behind it, the sign of an authority begins one. -/
theorem joinChars_sign_append (h : clean reference = ['/', '/']) {c : Char} {rest : List Char}
    (hrest : IsBelow (c :: rest)) {target : List Char}
    (hjoin : joinChars base (reference ++ c :: rest) = .ok target) :
    ∃ tail, target = "file://".toList ++ c :: tail := by
  have hne : reference ++ c :: rest ≠ [] := by simp
  have hclean : clean (reference ++ c :: rest) = '/' :: '/' :: c :: rest := by
    rw [clean_append (by simp [h]), h, List.filter_eq_self.2]
    · rfl
    · intro d hd
      rw [hrest.visible d hd]
      rfl
  obtain ⟨r, hr⟩ := exists_parts_of_joinChars hbase hne hjoin
  have hc : endsAuthority c = false := by
    have hslash : c ≠ '/' := fun heq => hrest.head?_ne.2 (congrArg some heq)
    have hquery : c ≠ '?' := by
      rintro rfl
      exact hrest.noQuery List.mem_cons_self
    have hfragment : c ≠ '#' := by
      rintro rfl
      exact hrest.noFragment List.mem_cons_self
    simp [endsAuthority, hslash, hquery, hfragment]
  have hscheme : cutScheme b.scheme (clean (reference ++ c :: rest)) =
      (b.scheme, clean (reference ++ c :: rest)) :=
    cutScheme_of_not_hasScheme (not_hasScheme_of_head? (.inr (by rw [hclean, List.head?_cons]))) _
  have hauthority : (cutAuthority (clean (reference ++ c :: rest))).1 =
      c :: rest.takeWhile fun c => !endsAuthority c := by
    rw [hclean, cutAuthority, List.takeWhile_cons_of_pos (by simp [hc])]
  have hq : '?' ∉ clean (reference ++ c :: rest) := by simp [hclean, hrest.noQuery]
  have hf : '#' ∉ clean (reference ++ c :: rest) := by simp [hclean, hrest.noFragment]
  have hparts := hr
  rw [splitClean_eq hq hf, hscheme, hauthority] at hparts
  split at hparts
  · cases hparts
  · cases hparts
    rw [joinChars_of_file hbase hr hne rfl rfl (.inl (List.cons_ne_nil _ _))] at hjoin
    cases hjoin
    have hwritten (authority path : List Char) : written b.scheme (c :: authority) path =
        "file://".toList ++ c :: (authority ++ path) := by
      simp [written, hbase.scheme]
    simp only [ne_eq, not_true_eq_false, if_false, hwritten]
    exact ⟨_, rfl⟩

/-- **Both ways lead to the same place** but for the sign of an authority, provided that there is
one at all. -/
theorem extends_iff (h : IsDirectoryReference reference) {rest : List Char}
    (hrest : IsBelow rest) :
    (∃ target, joinChars base reference = .ok target ∧
        joinChars base (reference ++ rest) = .ok (target ++ rest)) ↔
      clean reference ≠ ['/', '/'] ∧ ∃ target, joinChars base reference = .ok target := by
  constructor
  · rintro ⟨target, hdirectory, hbelow⟩
    refine ⟨fun hsign => ?_, target, hdirectory⟩
    obtain ⟨tail, hfirst⟩ := joinChars_sign hbase hsign
    obtain ⟨c, rest, rfl⟩ := List.exists_cons_of_ne_nil hrest.head?_ne.1
    obtain ⟨tail', hsecond⟩ := joinChars_sign_append hbase hsign hrest hbelow
    rw [hdirectory] at hfirst
    cases hfirst
    have hc : '/' = c := congrArg (·[7]?) hsecond |> Option.some.inj
    exact hrest.head?_ne.2 (congrArg some hc.symm)
  · rintro ⟨hsign, target, hjoin⟩
    obtain ⟨d, hd⟩ := h.clean_eq
    obtain ⟨r, hr⟩ := exists_parts_of_joinChars hbase h.ne_nil hjoin
    exact joinChars_append hbase hr hd h.noMarks.1 h.noMarks.2 (h.path_ne_nil hr hsign)
      (h.cutScheme_append b.scheme) hrest

end

end ModuleGraph.Url
