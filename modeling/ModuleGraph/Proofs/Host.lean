import ModuleGraph.Host
import ModuleGraph.Proofs.Action
import ModuleGraph.Proofs.ModuleStore
import ModuleGraph.Proofs.Text.Affix
import ModuleGraph.Proofs.Text.Case
/-!
# Where redirections of the host lead

A host that finds a file under another path than the one it was asked for answers with a stub that
names the stored path. The compiler then asks for that path, so the stub is of use only if the path
is its own normal form. The name of a library is, wherever it stands. A path is not in two cases:
only one segment `/jsx-runtime` is dropped, so a stored path that still ends in one is looked up
under another key; and where the library directory is the root, every file directly under it gets
one more slash each time.

Results:
* `foldLibraryName_stem`: the name of a library is folded once;
* `normalizePath_normal_iff`: when a normal form is its own normal form;
* `leadsToText_iff`: **main theorem**: when a stub leads to the stored text;
* `runtime_stub_misses`: a stub that leads to no text.
-/

namespace ModuleGraph.Host

/-! ## Names of libraries -/

/-- The name of a library without its extension. -/
structure IsLibraryStem (stem : String) : Prop where
  opening : Text.startsWith stem Library.opening = true
  closing : Text.endsWith stem ".d" = true
  lowered : ∀ c ∈ stem.toList, Text.IsLowered c

theorem isLowered_ascii :
    (∀ c ∈ "lib.".toList, Text.lowerChar c = c ∧ c.toNat ≠ 0x3A3 ∧ c.toNat ≠ 0x130) ∧
    ∀ c ∈ ".d".toList, Text.lowerChar c = c ∧ c.toNat ≠ 0x3A3 ∧ c.toNat ≠ 0x130 :=
  ⟨List.all_iff_forall_prop.1 (by decide +kernel), List.all_iff_forall_prop.1 (by decide +kernel)⟩

theorem mem_of_mem_stem {name : String} {c : Char} (h : c ∈ (stem name).toList) :
    c ∈ name.toList := by
  unfold stem at h
  split at h
  · next before after hcut =>
    split at h
    · exact h
    · rw [String.toList_ofList] at h
      rw [(Text.cutAtLast_eq_some hcut).1]
      exact List.mem_append_left _ h
  · exact h

/-- A name is folded to the name of a library. -/
theorem exists_stem (name : String) : ∃ x, foldLibraryName name = x ++ ".ts" ∧ IsLibraryStem x ∧
    ('/' ∉ name.toList → '/' ∉ x.toList) := by
  obtain ⟨hopening, hclosing⟩ := isLowered_ascii
  have hlower : ∀ c ∈ (Text.lower (stem name)).toList, Text.IsLowered c :=
    fun c hc => Text.isLowered_of_mem_lower hc
  have hslash (hname : '/' ∉ name.toList) : '/' ∉ (Text.lower (stem name)).toList :=
    Text.not_mem_lower fun hmem => hname (mem_of_mem_stem hmem)
  unfold foldLibraryName
  simp only
  generalize Text.lower (stem name) = low at hlower hslash
  -- The beginning is put in front first, the ending behind after that.
  obtain ⟨front, hfront, hbegins, hlower, hslash⟩ : ∃ front,
      (if Text.startsWith low Library.opening then low else Library.opening ++ low) = front ∧
        Text.startsWith front Library.opening = true ∧
        (∀ c ∈ front.toList, Text.IsLowered c) ∧ ('/' ∉ name.toList → '/' ∉ front.toList) := by
    split
    · next h => exact ⟨low, rfl, h, hlower, hslash⟩
    · refine ⟨_, rfl, Text.startsWith_iff.2 ?_, fun c hc => ?_, fun hname hmem => ?_⟩
      · rw [String.toList_append]
        exact List.prefix_append _ _
      · rw [String.toList_append, List.mem_append] at hc
        exact hc.elim (hopening c) (hlower c)
      · rw [String.toList_append, List.mem_append] at hmem
        exact hmem.elim (by decide) (hslash hname)
  rw [hfront]
  split
  · next h => exact ⟨front, rfl, ⟨hbegins, h, hlower⟩, hslash⟩
  · refine ⟨_, rfl, ⟨Text.startsWith_iff.2 ?_, Text.endsWith_iff.2 ?_, fun c hc => ?_⟩,
      fun hname hmem => ?_⟩
    · rw [String.toList_append]
      exact (Text.startsWith_iff.1 hbegins).trans (List.prefix_append _ _)
    · rw [String.toList_append]
      exact List.suffix_append _ _
    · rw [String.toList_append, List.mem_append] at hc
      exact hc.elim (hlower c) (hclosing c)
    · rw [String.toList_append, List.mem_append] at hmem
      exact hmem.elim (hslash hname) (by decide)

theorem stem_append {x : String} (hx : IsLibraryStem x) : stem (x ++ ".ts") = x := by
  obtain ⟨r, hr⟩ := Text.startsWith_iff.1 hx.opening
  have hcut : Text.cutAtLast '.' (x ++ ".ts").toList = some (x.toList, ['t', 's']) := by
    rw [String.toList_append]
    exact Text.cutAtLast_append (by decide)
  rw [stem, hcut]
  simp only
  rw [if_neg, String.ofList_toList]
  rw [← hr]
  simp [Library.opening]

/-- The name of a library is folded once. -/
theorem foldLibraryName_stem {x : String} (hx : IsLibraryStem x) :
    foldLibraryName (x ++ ".ts") = x ++ ".ts" := by
  rw [foldLibraryName, stem_append hx, Text.lower_eq_self hx.lowered, if_pos hx.opening,
    if_pos hx.closing]

/-! ## Paths of libraries -/

/-- A path whose last name is folded to that of a library. -/
def foldPath (path : String) : String :=
  (cutDirectory path).1 ++ "/" ++ foldLibraryName (cutDirectory path).2

theorem toList_foldPath (path : String) : (foldPath path).toList =
    (cutDirectory path).1.toList ++ '/' :: (foldLibraryName (cutDirectory path).2).toList := by
  rw [foldPath, String.toList_append, String.toList_append, List.append_assoc]
  rfl

/-- The list is not empty and ends in another character than a slash. -/
def EndsInName (cs : List Char) : Prop := ∃ b c, cs = b ++ [c] ∧ c ≠ '/'

/-- What stands before the name of a file: a directory, nothing, or slashes only. -/
theorem cutDirectory_spec (path : String) : '/' ∉ (cutDirectory path).2.toList ∧
    (EndsInName (cutDirectory path).1.toList ∨
      (cutDirectory path = ("", path)) ∨
      ∃ slashes, path.toList = slashes ++ '/' :: (cutDirectory path).2.toList ∧
        (∀ c ∈ slashes, c = '/') ∧ (cutDirectory path).1.toList = slashes ++ ['/']) := by
  unfold cutDirectory
  cases hcut : Text.cutAtLast '/' path.toList with
  | none => exact ⟨Text.cutAtLast_eq_none.1 hcut, .inr (.inl rfl)⟩
  | some p =>
    obtain ⟨before, name⟩ := p
    obtain ⟨hpath, hname⟩ := Text.cutAtLast_eq_some hcut
    simp only [String.toList_ofList]
    refine ⟨hname, ?_⟩
    rcases Text.trimEndList_cases (· = '/') before with ⟨hnil, hall⟩ | ⟨b, c, hb, hc⟩
    · refine .inr (.inr ⟨before, hpath, fun c hc => by simpa using hall c hc, ?_⟩)
      rw [hnil]
      rfl
    · refine .inl ⟨b, c, ?_, by simpa using hc⟩
      rw [hb, if_neg (by simp)]

theorem cutDirectory_of_endsInName {directory name : String} (hd : EndsInName directory.toList)
    (hn : '/' ∉ name.toList) : cutDirectory (directory ++ "/" ++ name) = (directory, name) := by
  obtain ⟨b, c, hb, hc⟩ := hd
  have hcut : Text.cutAtLast '/' (directory ++ "/" ++ name).toList =
      some (directory.toList, name.toList) := by
    rw [String.toList_append, String.toList_append, List.append_assoc]
    exact Text.cutAtLast_append hn
  have htrim : Text.trimEndList (· = '/') directory.toList = directory.toList := by
    rw [hb]
    exact Text.trimEndList_append (by simpa using hc)
  rw [cutDirectory, hcut]
  simp only [htrim]
  rw [if_neg (by simp [hb]), String.ofList_toList, String.ofList_toList]

theorem cutDirectory_of_slashes {directory name : String} (hd : ∀ c ∈ directory.toList, c = '/')
    (hn : '/' ∉ name.toList) :
    cutDirectory (directory ++ "/" ++ name) = (directory ++ "/", name) := by
  have hcut : Text.cutAtLast '/' (directory ++ "/" ++ name).toList =
      some (directory.toList, name.toList) := by
    rw [String.toList_append, String.toList_append, List.append_assoc]
    exact Text.cutAtLast_append hn
  have htrim : Text.trimEndList (· = '/') directory.toList = [] :=
    Text.trimEndList_of_forall fun c hc => by simpa using hd c hc
  rw [cutDirectory, hcut]
  simp only [htrim, List.isEmpty_nil, if_true]
  rw [String.ofList_append, String.ofList_toList, String.ofList_toList]

theorem EndsInName.ne_nil {cs : List Char} (h : EndsInName cs) : cs ≠ [] := by
  obtain ⟨b, c, rfl, -⟩ := h
  exact List.append_ne_nil_of_right_ne_nil b (List.cons_ne_nil c [])

theorem EndsInName.tail {c : Char} {cs : List Char} (h : EndsInName (c :: cs)) :
    (cs = [] ∧ c ≠ '/') ∨ EndsInName cs := by
  obtain ⟨b, d, hb, hd⟩ := h
  cases b with
  | nil =>
    rw [List.nil_append, List.cons.injEq] at hb
    exact .inl ⟨hb.2, hb.1 ▸ hd⟩
  | cons x b =>
    rw [List.cons_append, List.cons.injEq] at hb
    exact .inr ⟨b, d, hb.2, hd⟩

theorem not_endsInName_slash : ¬EndsInName "/".toList := by
  intro h
  rcases EndsInName.tail h with ⟨-, hne⟩ | h
  · exact hne rfl
  · exact h.ne_nil rfl

/-- A directory that holds a name behind some slashes holds nothing behind more of them. -/
theorem not_prefix_of_slashes {location slashes name rest : List Char}
    (hl : EndsInName location) (hs : ∀ c ∈ slashes, c = '/') (hn : '/' ∉ name)
    (h : location <+: slashes ++ name) : ¬location <+: slashes ++ '/' :: rest := by
  induction slashes generalizing location with
  | nil =>
    intro h'
    cases location with
    | nil => exact hl.ne_nil rfl
    | cons c l =>
      rw [List.nil_append, List.cons_prefix_cons] at h'
      exact hn (h'.1 ▸ h.subset List.mem_cons_self)
  | cons s slashes ih =>
    intro h'
    cases location with
    | nil => exact hl.ne_nil rfl
    | cons c l =>
      rw [List.cons_append, List.cons_prefix_cons] at h h'
      rcases hl.tail with ⟨-, hc⟩ | hl
      · exact hc (h.1.trans (hs s List.mem_cons_self))
      · exact ih hl (fun d hd => hs d (List.mem_cons_of_mem s hd)) h.2 h'.2

/-- The path stands directly under the root: only slashes stand before its name. -/
def IsTopLevel (path : String) : Prop :=
  Text.startsWith path "/" = true ∧ '/' ∉ path.toList.dropWhile (· = '/')

theorem isTopLevel_of_slashes {path : String} {slashes name : List Char}
    (hpath : path.toList = slashes ++ '/' :: name) (hs : ∀ c ∈ slashes, c = '/')
    (hn : '/' ∉ name) : IsTopLevel path := by
  constructor
  · rw [Text.startsWith_iff, hpath]
    cases slashes with
    | nil => exact ⟨name, rfl⟩
    | cons c r =>
      rw [hs c List.mem_cons_self]
      exact ⟨r ++ '/' :: name, rfl⟩
  · rw [hpath, List.dropWhile_append_of_pos (by simpa using hs),
      List.dropWhile_cons_of_pos (by decide)]
    exact fun hmem => hn ((List.dropWhile_sublist _).subset hmem)

/-- What stands behind a character that is kept is kept. -/
theorem suffix_dropWhile {p : Char → Bool} {c : Char} (hc : p c = false) (b r : List Char) :
    c :: r <:+ (b ++ c :: r).dropWhile p := by
  induction b with
  | nil =>
    exact ⟨[], (List.dropWhile_cons_of_neg (by simp [hc])).symm⟩
  | cons x b ih =>
    rw [List.cons_append, List.dropWhile_cons]
    split
    · exact ih
    · exact (List.suffix_append b _).trans (List.suffix_cons x _)

theorem not_isTopLevel_of_endsInName {path : String} {directory name : List Char}
    (hpath : path.toList = directory ++ '/' :: name) (hd : EndsInName directory) :
    ¬IsTopLevel path := by
  rintro ⟨-, hn⟩
  obtain ⟨b, c, rfl, hc⟩ := hd
  apply hn
  rw [hpath, List.append_assoc, List.singleton_append]
  exact (suffix_dropWhile (by simpa using hc) b _).subset (by simp)

/-! ## Normal forms -/

/-- Where a library directory lies: at the root, or at a path that ends in a name. -/
def IsLocation (location : String) : Prop := location = "/" ∨ EndsInName location.toList

theorem isLocation_of_libraryLocation {h : Host} {location : String}
    (hl : h.libraryLocation = .ok location) : IsLocation location := by
  obtain ⟨place, -, hl⟩ := Action.bind_eq_ok_iff.1 hl
  cases hl
  unfold IsLocation
  rcases Text.trimEndList_cases (· = '/') place.plainPath.toList with ⟨hnil, -⟩ | ⟨b, c, hb, hc⟩
  · left
    exact if_pos (by rw [Text.trimEnd, hnil])
  · right
    have hlist : (Text.trimEnd (· = '/') place.plainPath).toList = b ++ [c] := by
      rw [Text.trimEnd, String.toList_ofList, hb]
    rw [if_neg (fun hempty => by simp [hempty] at hlist)]
    exact ⟨b, c, hlist, by simpa using hc⟩

/-- The path without the segment of the runtime, folded if it is one of a library. -/
def normalized (location path : String) : String :=
  if Text.startsWith (dropJsxRuntime path) location then foldPath (dropJsxRuntime path)
  else dropJsxRuntime path

theorem normalizePath_eq {h : Host} {location : String} (hl : h.libraryLocation = .ok location)
    (path : String) : h.normalizePath path = .ok (normalized location path) := by
  unfold normalizePath isLibraryPath normalized
  rw [hl]
  by_cases hlib : Text.startsWith (dropJsxRuntime path) location = true
  · rw [if_pos hlib]
    simp [Except.map, hlib, foldPath, bind, Except.bind, pure, Except.pure]
  · rw [if_neg hlib]
    simp [Except.map, hlib, bind, Except.bind, pure, Except.pure]

/-- The path of a library ends in the extension of a script. -/
theorem endsWith_runtime_foldPath (path : String) :
    Text.endsWith (foldPath path) jsxRuntimeSegment = false := by
  obtain ⟨x, hfold, -⟩ := exists_stem (cutDirectory path).2
  rw [Bool.eq_false_iff, ne_eq, Text.endsWith_iff, foldPath, hfold, ← String.append_assoc,
    String.toList_append]
  generalize ((cutDirectory path).1 ++ "/" ++ x).toList = front
  rintro ⟨r, hr⟩
  have hlast := congrArg List.getLast? hr
  simp [jsxRuntimeSegment] at hlast

/-- A path that ends in the segment of the runtime is what is left of it and the segment. -/
theorem eq_dropJsxRuntime_append {path : String}
    (h : Text.endsWith path jsxRuntimeSegment = true) :
    path = dropJsxRuntime path ++ jsxRuntimeSegment := by
  obtain ⟨r, hr⟩ := Text.endsWith_iff.1 h
  have hlength : path.length - jsxRuntimeSegment.length = r.length := by
    rw [← String.length_toList, ← hr, ← String.length_toList, List.length_append,
      Nat.add_sub_cancel]
  rw [dropJsxRuntime, if_pos h, Text.dropLast, hlength, ← hr, List.take_left, ← String.toList_inj,
    String.toList_append, String.toList_ofList, hr]

theorem dropJsxRuntime_eq_self {path : String}
    (h : Text.endsWith path jsxRuntimeSegment = false) : dropJsxRuntime path = path := by
  rw [dropJsxRuntime, h]
  rfl

/-- What a path is folded to: a directory and the name of a library. -/
theorem foldPath_spec (path : String) : ∃ directory x, foldPath path = directory ++ "/" ++
    (x ++ ".ts") ∧ IsLibraryStem x ∧ '/' ∉ (x ++ ".ts").toList ∧
    (EndsInName directory.toList ∨ (∀ c ∈ directory.toList, c = '/') ∧
      ∀ location, EndsInName location → location <+: path.toList →
        ¬location <+: (foldPath path).toList) := by
  obtain ⟨hname, hcut⟩ := cutDirectory_spec path
  obtain ⟨x, hfold, hx, hslash⟩ := exists_stem (cutDirectory path).2
  refine ⟨(cutDirectory path).1, x, by rw [foldPath, hfold], hx, ?_, ?_⟩
  · rw [String.toList_append, List.mem_append, not_or]
    exact ⟨hslash hname, by decide⟩
  · rcases hcut with hdir | hnone | ⟨slashes, hpath, hall, hdir⟩
    · exact .inl hdir
    · refine .inr ⟨by simp [hnone], fun location hl hpre => ?_⟩
      rw [hnone] at hname
      rw [toList_foldPath, hnone]
      have hnil : ∀ c ∈ ([] : List Char), c = '/' := fun c hc => absurd hc List.not_mem_nil
      exact not_prefix_of_slashes hl hnil hname hpre
    · have hall : ∀ c ∈ slashes ++ ['/'], c = '/' := by
        intro c hc
        rw [List.mem_append, List.mem_singleton] at hc
        exact hc.elim (hall c) id
      refine .inr ⟨hdir ▸ hall, fun location hl hpre => ?_⟩
      rw [hpath, List.append_cons] at hpre
      rw [toList_foldPath, hdir]
      exact not_prefix_of_slashes hl hall hname hpre

theorem foldPath_of_endsInName {directory x : String} (hd : EndsInName directory.toList)
    (hx : IsLibraryStem x) (hn : '/' ∉ (x ++ ".ts").toList) :
    foldPath (directory ++ "/" ++ (x ++ ".ts")) = directory ++ "/" ++ (x ++ ".ts") := by
  rw [foldPath, cutDirectory_of_endsInName hd hn]
  simp only
  rw [foldLibraryName_stem hx]

/-- Directly under the root, folding adds a slash. -/
theorem foldPath_of_slashes {directory x : String} (hd : ∀ c ∈ directory.toList, c = '/')
    (hx : IsLibraryStem x) (hn : '/' ∉ (x ++ ".ts").toList) :
    foldPath (directory ++ "/" ++ (x ++ ".ts")) ≠ directory ++ "/" ++ (x ++ ".ts") := by
  rw [foldPath, cutDirectory_of_slashes hd hn]
  simp only
  rw [foldLibraryName_stem hx]
  intro h
  have hlength := congrArg String.length h
  simp only [String.length_append] at hlength
  have hone : "/".length = 1 := rfl
  omega

/-- The normal form of a path is its own normal form unless it still ends in the segment of the
runtime, or stands directly under a library directory that is the root. -/
theorem normalized_normal_iff {location path : String} (hl : IsLocation location) :
    normalized location (normalized location path) = normalized location path ↔
      Text.endsWith (normalized location path) jsxRuntimeSegment = false ∧
        ¬(location = "/" ∧ IsTopLevel (normalized location path)) := by
  by_cases hlib : Text.startsWith (dropJsxRuntime path) location = true
  · -- A path of a library is folded, and the folded path ends in the extension of a script.
    have hkey : normalized location path = foldPath (dropJsxRuntime path) := if_pos hlib
    obtain ⟨directory, x, hfold, hx, hn, hdir⟩ := foldPath_spec (dropJsxRuntime path)
    have hend := endsWith_runtime_foldPath (dropJsxRuntime path)
    have hlist : (foldPath (dropJsxRuntime path)).toList =
        directory.toList ++ '/' :: (x ++ ".ts").toList := by
      rw [hfold, String.toList_append, String.toList_append, List.append_assoc]
      rfl
    rw [hkey, normalized, dropJsxRuntime_eq_self hend]
    rcases hdir with hd | ⟨hd, hout⟩
    · have hnot := not_isTopLevel_of_endsInName hlist hd
      have hfixed : foldPath (foldPath (dropJsxRuntime path)) =
          foldPath (dropJsxRuntime path) := by
        rw [hfold, foldPath_of_endsInName hd hx hn]
      rw [hfixed, ite_self]
      exact ⟨fun _ => ⟨hend, fun h => hnot h.2⟩, fun _ => rfl⟩
    · have htop := isTopLevel_of_slashes hlist hd hn
      have hmoved : foldPath (foldPath (dropJsxRuntime path)) ≠
          foldPath (dropJsxRuntime path) := by
        rw [hfold]
        exact foldPath_of_slashes hd hx hn
      rcases hl with rfl | hl
      · rw [if_pos htop.1]
        exact ⟨fun h => absurd h hmoved, fun h => absurd ⟨rfl, htop⟩ h.2⟩
      · have hpre := hout location.toList hl (Text.startsWith_iff.1 hlib)
        rw [if_neg (fun h => hpre (Text.startsWith_iff.1 h))]
        exact ⟨fun _ => ⟨hend, fun h => not_endsInName_slash (h.1 ▸ hl)⟩, fun _ => rfl⟩
  · -- Any other path is only left by the segment of the runtime.
    have hkey : normalized location path = dropJsxRuntime path := if_neg hlib
    rw [hkey]
    generalize dropJsxRuntime path = key at hlib
    have hroot : ¬(location = "/" ∧ IsTopLevel key) := by
      rintro ⟨rfl, htop⟩
      exact hlib htop.1
    cases hend : Text.endsWith key jsxRuntimeSegment with
    | false =>
      rw [normalized, dropJsxRuntime_eq_self hend, if_neg hlib]
      exact ⟨fun _ => ⟨rfl, hroot⟩, fun _ => rfl⟩
    | true =>
      refine ⟨fun h => ?_, fun h => absurd h.1 (by simp)⟩
      unfold normalized at h
      split at h
      · rw [← h, endsWith_runtime_foldPath] at hend
        cases hend
      · have hlength := congrArg String.length (eq_dropJsxRuntime_append hend)
        rw [h, String.length_append] at hlength
        have hpos : 0 < jsxRuntimeSegment.length := by decide
        omega

theorem exists_location {h : Host} {path key : String} (hk : h.normalizePath path = .ok key) :
    ∃ location, h.libraryLocation = .ok location ∧ IsLocation location := by
  cases hl : h.libraryLocation with
  | ok location => exact ⟨location, rfl, isLocation_of_libraryLocation hl⟩
  | error e =>
    unfold normalizePath isLibraryPath at hk
    rw [hl] at hk
    cases hk

/-- A normal form is its own normal form exactly if it does not end in the segment of the runtime
and does not stand directly under a library directory that is the root. -/
theorem normalizePath_normal_iff {h : Host} {path key : String}
    (hk : h.normalizePath path = .ok key) : h.normalizePath key = .ok key ↔
      Text.endsWith key jsxRuntimeSegment = false ∧
        ¬(h.libraryLocation = .ok "/" ∧ IsTopLevel key) := by
  obtain ⟨location, hl, hloc⟩ := exists_location hk
  rw [normalizePath_eq hl, Except.ok.injEq] at hk ⊢
  rw [← hk, hl, Except.ok.injEq]
  exact normalized_normal_iff hloc

/-! ## Redirections -/

/-- Asked for `path`, the host answers with the stub that names `key`. -/
def RefersTo (h : Host) (path key : String) : Prop :=
  key ≠ path ∧ ∃ isLibrary,
    h.read path = .ok (some (redirectStub key), [.fileRead path key isLibrary])

/-- The path is stored, it is its own normal form, and the host answers it with its own text. -/
def LeadsToText (h : Host) (key : String) : Prop :=
  ∃ text isLibrary, h.store.get? key = some text ∧ h.normalizePath key = .ok key ∧
    h.read key = .ok (some text, [.fileRead key key isLibrary])

/-- What a host finds for a path is stored under the normal form of the path. -/
theorem read_eq_ok_some_iff {h : Host} {path text : String} {events : List Event} :
    h.read path = .ok (some text, events) ↔ ∃ key stored isLibrary,
      h.normalizePath path = .ok key ∧ h.store.get? key = some stored ∧
      h.isLibraryPath key = .ok isLibrary ∧
      text = (if key = path then stored else redirectStub key) ∧
      events = [.fileRead path key isLibrary] := by
  unfold read lookup
  cases hk : h.normalizePath path with
  | error e => simp [bind, Except.bind]
  | ok key =>
    cases hs : h.store.get? key with
    | none => simp [bind, Except.bind, pure, Except.pure, hs]
    | some stored =>
      cases hl : h.isLibraryPath key with
      | error e => simp [bind, Except.bind, pure, Except.pure, hs, hl]
      | ok isLibrary =>
        simp only [bind, Except.bind, pure, Except.pure, hs, hl, Except.ok.injEq, Prod.mk.injEq,
          Option.some.injEq]
        constructor
        · rintro ⟨rfl, rfl⟩
          exact ⟨key, stored, isLibrary, rfl, hs, hl, rfl, rfl⟩
        · rintro ⟨k, stored', b, rfl, hs', hl', rfl, rfl⟩
          rw [hs, Option.some.injEq] at hs'
          rw [hl, Except.ok.injEq] at hl'
          exact ⟨hs' ▸ rfl, hl' ▸ rfl⟩

theorem contains_of_get? {s : ModuleStore} {path text : String} (h : s.get? path = some text) :
    s.contains path = true := by
  rw [ModuleStore.get?, Option.map_eq_some_iff] at h
  obtain ⟨v, hv, -⟩ := h
  exact ModuleStore.contains_of_text? hv

/-- **Where a stub leads.** The path that a stub names is always stored. It is its own normal form,
and the host answers it with the stored text itself, exactly if it does not end in the segment of
the runtime and does not stand directly under a library directory that is the root. -/
theorem leadsToText_iff {h : Host} {path key : String} (hr : h.RefersTo path key) :
    h.store.contains key = true ∧ (h.LeadsToText key ↔
      Text.endsWith key jsxRuntimeSegment = false ∧
        ¬(h.libraryLocation = .ok "/" ∧ IsTopLevel key)) := by
  obtain ⟨-, isLibrary, hread⟩ := hr
  obtain ⟨k, stored, b, hk, hstored, hlib, -, hevents⟩ := read_eq_ok_some_iff.1 hread
  obtain ⟨rfl, -⟩ : key = k ∧ isLibrary = b := by simpa using hevents
  refine ⟨contains_of_get? hstored, ?_⟩
  rw [← normalizePath_normal_iff hk]
  constructor
  · rintro ⟨-, -, -, hnormal, -⟩
    exact hnormal
  · intro hnormal
    refine ⟨stored, b, hstored, hnormal, read_eq_ok_some_iff.2 ?_⟩
    exact ⟨key, stored, b, hnormal, hstored, hlib, (if_pos rfl).symm, rfl⟩

/-- A store that holds the runtime module of a directory of the project, and a library. -/
def withRuntime : Host where
  store := ⟨(Table.empty.insert "/app/jsx/jsx-runtime" (some "export {};\n")).insert
    "/https/libs.example/dts/lib.dom.d.ts" (some "interface Window {}\n")⟩
  rootUrl := "file:///app/"
  libraryDir := "https://libs.example/dts"

/-- A stub may lead to no text. The runtime module of a directory is stored under a path that ends
in the segment of the runtime. Asked for the runtime of that module, the host refers to its path,
and asked for this path it finds nothing. -/
theorem runtime_stub_misses :
    let key := "/app/jsx/jsx-runtime"
    withRuntime.RefersTo (key ++ jsxRuntimeSegment) key ∧
      withRuntime.store.get? key = some "export {};\n" ∧
      withRuntime.normalizePath key = .ok "/app/jsx" ∧
      withRuntime.read key = .ok (none, [.fileNotFound "/app/jsx"]) ∧
      ¬withRuntime.LeadsToText key := by
  have hread : withRuntime.read "/app/jsx/jsx-runtime" =
      .ok (none, [.fileNotFound "/app/jsx"]) := by
    decide +kernel
  refine ⟨⟨by decide, false, by decide +kernel⟩, by decide, by decide +kernel, hread, ?_⟩
  rintro ⟨text, isLibrary, -, -, htext⟩
  rw [hread] at htext
  cases htext

/-- The name of a library is folded, and the stub leads to the library. -/
theorem leadsToText_iff_dom :
    let path := "/https/libs.example/dts/DOM.ts"
    let key := "/https/libs.example/dts/lib.dom.d.ts"
    withRuntime.RefersTo path key ∧ withRuntime.store.contains key = true ∧
      (withRuntime.LeadsToText key ↔ Text.endsWith key jsxRuntimeSegment = false ∧
        ¬(withRuntime.libraryLocation = .ok "/" ∧ IsTopLevel key)) := by
  have hr : withRuntime.RefersTo "/https/libs.example/dts/DOM.ts"
      "/https/libs.example/dts/lib.dom.d.ts" := ⟨by decide, true, by decide +kernel⟩
  exact ⟨hr, leadsToText_iff hr⟩

end ModuleGraph.Host
