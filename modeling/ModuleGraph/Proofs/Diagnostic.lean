import ModuleGraph.Diagnostic
import ModuleGraph.Proofs.FilePath.Normal
import ModuleGraph.Proofs.Host.Stored
/-!
# Where diagnostics come from

A diagnostic is one of the project if its file lies in the project directory, one of the library if
it lies in the library directory, and one of a dependency otherwise. Both tests look at the beginning
of the path alone, without asking for a slash behind it. So they also take in the files of a directory
that stands beside the one they are meant for and whose name begins like its name; everywhere else
they say where the file lies.

Results:
* `startsWith_iff_liesIn`: a path that begins like a directory lies in it or beside it;
* `currentDirectory_of_toUrl`: the project directory of a host is the one that its URL was made from;
* `report_eq`: each diagnostic is reported once, with its origin;
* `origin_by_place`: **main theorem**: which diagnostics are classified by where their file lies;
* `neighbour_taken_for_project`: a file beside the project that is taken for one of the project.
-/

namespace ModuleGraph

open Host (LiesIn IsNeighbour)

instance (path directory : String) : Decidable (LiesIn path directory) :=
  inferInstanceAs (Decidable (_ ∨ _))

instance (path directory : String) : Decidable (IsNeighbour path directory) :=
  inferInstanceAs (Decidable (_ ∧ _))

/-- A path that begins like a directory lies in it or beside it. -/
theorem startsWith_iff_liesIn {path directory : String} :
    Text.startsWith path directory = true ↔ LiesIn path directory ∨ IsNeighbour path directory := by
  constructor
  · intro h
    by_cases hin : LiesIn path directory
    · exact .inl hin
    · exact .inr ⟨h, hin⟩
  · rintro ((rfl | h) | h)
    · exact Text.startsWith_iff.2 (List.prefix_refl _)
    · rw [Text.startsWith_iff, String.toList_append] at h
      exact Text.startsWith_iff.2 ((List.prefix_append _ _).trans h)
    · exact h.1

/-! ## Directories of a host -/

theorem directoryPath_ne_empty {url directory : String} (h : directoryPath url = .ok directory) :
    directory ≠ "" := by
  obtain ⟨place, -, h⟩ := Action.bind_eq_ok_iff.1 h
  rw [← Except.ok.inj h]
  split_ifs with hempty
  · decide
  · exact hempty

namespace FilePath

/-- A normal path has no slash at its end, unless it is that of the root. -/
theorem IsNormal.endsInName {path : String} (h : IsNormal path) (hne : path ≠ "/") :
    Host.EndsInName path.toList := by
  obtain ⟨place, hplace, rfl⟩ := isNormal_iff.1 h
  obtain ⟨init, last, rfl⟩ := (List.eq_nil_or_concat place).resolve_left fun hnil =>
    hne (by rw [hnil]; rfl)
  rw [List.concat_eq_append] at hplace ⊢
  have hlast := hplace last (by simp)
  obtain ⟨b, c, hc⟩ := (List.eq_nil_or_concat last).resolve_left hlast.nonempty
  rw [List.concat_eq_append] at hc
  have hslash : c ≠ '/' := fun hslash => hlast.noSlash (by rw [hc, hslash]; simp)
  rw [toList_atPlace, joinComponents_eq]
  by_cases hinit : init = []
  · subst hinit
    exact ⟨'/' :: b, c, by rw [List.nil_append, Url.joinSegments, hc]; rfl, hslash⟩
  · refine ⟨'/' :: (Url.joinSegments init ++ '/' :: b), c, ?_, hslash⟩
    rw [Url.joinSegments_append hinit (List.cons_ne_nil last []), Url.joinSegments, hc]
    simp

end FilePath

/-- The directory that the URL of a file names: its path without slashes at its end. -/
theorem directoryPath_eq {url path : String} {authority written query fragment : List Char}
    (hp : Url.split url = .ok ⟨"file".toList, authority, written, query, fragment⟩)
    (hpath : Url.unescape written = path.toList) :
    directoryPath url =
      let directory := Text.trimEnd (· = '/') path
      .ok (if directory = "" then "/" else directory) := by
  have hplain : (Location.file (Url.unescape written)).plainPath = path := by
    rw [hpath]
    exact String.ofList_toList
  have hplace : Location.ofUrl url = .ok (.file (Url.unescape written)) := by
    simp only [Location.ofUrl, registryToNetworkUrl_of_none hp rfl, hp, Action.mapError_ok, bind,
      Except.bind]
    rfl
  simp only [directoryPath, hplace, hplain, bind, Except.bind]
  rfl

/-- The project directory of a host is the one that its URL was made from. -/
theorem currentDirectory_of_toUrl {h : Host} {root url : String} (hroot : FilePath.IsNormal root)
    (hurl : FilePath.toUrl root = .ok url) (hh : h.rootUrl = url ++ "/") :
    h.currentDirectory = .ok root := by
  have hwritten := hroot.keeps.written
  rw [hurl, Except.ok.injEq] at hwritten
  subst hwritten
  have hslash : Url.escapePath root ++ "/" = Url.escapePath (root ++ "/") := by
    rw [← String.toList_inj, String.toList_append, Url.toList_escapePath_append]
    rfl
  have hrooted : (root ++ "/").toList.head? = some '/' := by
    rw [String.toList_append, List.head?_append, hroot.rooted]
    rfl
  have htrim : Text.trimEnd (· = '/') (root ++ "/") = Text.trimEnd (· = '/') root := by
    have hlist : (root ++ "/").toList = root.toList ++ ['/'] := String.toList_append ..
    exact congrArg String.ofList (hlist ▸ Text.trimEndList_append_of_forall _ (by simp))
  have hdirectory := directoryPath_eq (Url.split_file hrooted) (Url.unescape_escapePath _)
  rw [Host.currentDirectory, hh, String.append_assoc, hslash, hdirectory, htrim]
  by_cases hne : root = "/"
  · subst hne
    rfl
  · obtain ⟨b, c, hb, hc⟩ := hroot.endsInName hne
    have hself : Text.trimEnd (· = '/') root = root := by
      have hlist : Text.trimEndList (· = '/') root.toList = root.toList := by
        rw [hb, Text.trimEndList_append (by simpa using hc)]
      exact (congrArg String.ofList hlist).trans String.ofList_toList
    have hnonempty : root ≠ "" := by
      rintro rfl
      simp at hb
    rw [hself]
    exact congrArg Except.ok (if_neg hnonempty)

namespace Diagnostic

variable {h : Host} {project library : String}

/-! ## Origins -/

/-- The origin of a file by the directory that it lies in. -/
def byPlace (project library file : String) : Origin :=
  if LiesIn file project then .project else if LiesIn file library then .library else .dependency

/-- The origin of a file by the beginning of its path. -/
def byText (project library file : String) : Origin :=
  if Text.startsWith file project then .project
  else if Text.startsWith file library then .library
  else .dependency

/-- The file stands beside the directory that decides about its origin. -/
def StandsBeside (project library file : String) : Prop :=
  IsNeighbour file project ∨ ¬ LiesIn file project ∧ IsNeighbour file library

instance (project library file : String) : Decidable (StandsBeside project library file) :=
  inferInstanceAs (Decidable (_ ∨ _))

theorem origin_eq (hp : h.currentDirectory = .ok project) (hl : h.libraryLocation = .ok library)
    (d : Diagnostic) : d.origin h = .ok (byText project library (d.fileName.getD "")) := by
  simp only [origin, hp, hl, bind, Except.bind, byText]
  split_ifs <;> rfl

/-- A path that begins like no directory stands beside none. -/
theorem byText_eq_byPlace_iff (file : String) :
    byText project library file = byPlace project library file ↔
      ¬ StandsBeside project library file := by
  rw [byText, byPlace, StandsBeside]
  by_cases hproject : LiesIn file project
  · rw [if_pos (startsWith_iff_liesIn.2 (.inl hproject)), if_pos hproject]
    exact iff_of_true rfl fun h => h.elim (fun h => h.2 hproject) fun h => h.1 hproject
  · rw [if_neg hproject]
    by_cases hbeside : IsNeighbour file project
    · rw [if_pos (startsWith_iff_liesIn.2 (.inr hbeside))]
      refine iff_of_false (fun heq => ?_) fun h => h (.inl hbeside)
      split_ifs at heq
    · have hout : ¬ Text.startsWith file project = true := fun h =>
        (startsWith_iff_liesIn.1 h).elim hproject hbeside
      rw [if_neg hout]
      by_cases hlibrary : LiesIn file library
      · rw [if_pos (startsWith_iff_liesIn.2 (.inl hlibrary)), if_pos hlibrary]
        exact iff_of_true rfl fun h => h.elim hbeside fun h => h.2.2 hlibrary
      · rw [if_neg hlibrary]
        by_cases hstands : IsNeighbour file library
        · rw [if_pos (startsWith_iff_liesIn.2 (.inr hstands))]
          exact iff_of_false (fun heq => nomatch heq) fun h => h (.inr ⟨hproject, hstands⟩)
        · rw [if_neg fun h => (startsWith_iff_liesIn.1 h).elim hlibrary hstands]
          exact iff_of_true rfl fun h => h.elim hbeside fun h => hstands h.2

/-- What is told about diagnostics: each of them once, in their order, with its origin. -/
theorem report_eq (hp : h.currentDirectory = .ok project) (hl : h.libraryLocation = .ok library)
    (ds : List Diagnostic) : report h ds =
      (ds.map fun d => .diagnosticReported (byText project library (d.fileName.getD "")) d.format,
        none) := by
  induction ds with
  | nil => rfl
  | cons d ds ih =>
    unfold report
    rw [origin_eq hp hl, ih]
    rfl

/-- How a host with these directories classifies diagnostics. -/
structure Classified (h : Host) (project library : String) : Prop where
  /-- A diagnostic without a file is one of a dependency. -/
  nowhere : ∀ d : Diagnostic, d.fileName = none → d.origin h = .ok .dependency
  /-- A file is classified by where it lies, unless it stands beside the directory that decides. -/
  byPlace_iff : ∀ (d : Diagnostic) (file : String), d.fileName = some file →
    (d.origin h = .ok (byPlace project library file) ↔ ¬ StandsBeside project library file)
  /-- A file beside the project is taken for one of the project. -/
  besideProject : ∀ (d : Diagnostic) (file : String), d.fileName = some file →
    IsNeighbour file project → d.origin h = .ok .project
  /-- Among the other files, one beside the library is taken for one of the library. -/
  besideLibrary : ∀ (d : Diagnostic) (file : String), d.fileName = some file →
    ¬ LiesIn file project → ¬ IsNeighbour file project → IsNeighbour file library →
    d.origin h = .ok .library
  /-- A module that is loaded from below the directory that the URL of the host was made from is one
  of the project, whatever the names are made of. -/
  below : ∀ root rootUrl, FilePath.IsNormal root → FilePath.toUrl root = .ok rootUrl →
    h.rootUrl = rootUrl ++ "/" →
    ∀ path url, FilePath.IsNormal path → LiesIn path root → FilePath.toUrl path = .ok url →
    ∃ key, virtualPath url = .ok key ∧
      ∀ d : Diagnostic, d.fileName = some key → d.origin h = .ok .project
  /-- Observers are told of each diagnostic once, in their order, with its origin. -/
  reported : ∀ ds : List Diagnostic, ∃ origins : List Origin,
    List.Forall₂ (fun d origin => d.origin h = .ok origin) ds origins ∧
    report h ds =
      (List.zipWith (fun d origin => .diagnosticReported origin d.format) ds origins, none)

/-- **Which diagnostics are classified by where their file lies.** All of them, but for those whose
file stands beside the directory that decides about it and has a path that begins like the path of
that directory. -/
theorem origin_by_place (hp : h.currentDirectory = .ok project)
    (hl : h.libraryLocation = .ok library) : Classified h project library where
  nowhere := by
    intro d hd
    have hnone {directory : String} (hne : directory ≠ "") :
        ¬ Text.startsWith "" directory = true := by
      intro hstart
      have hprefix := Text.startsWith_iff.1 hstart
      exact hne (String.toList_inj.1 (List.prefix_nil.1 hprefix))
    rw [origin_eq hp hl, hd, Option.getD_none, byText, if_neg (hnone (directoryPath_ne_empty hp)),
      if_neg (hnone (directoryPath_ne_empty hl))]
  byPlace_iff := by
    intro d file hd
    rw [origin_eq hp hl, hd, Option.getD_some, Except.ok.injEq]
    exact byText_eq_byPlace_iff file
  besideProject := by
    intro d file hd hbeside
    rw [origin_eq hp hl, hd, Option.getD_some, byText,
      if_pos (startsWith_iff_liesIn.2 (.inr hbeside))]
  besideLibrary := by
    intro d file hd hout hbeside hlibrary
    rw [origin_eq hp hl, hd, Option.getD_some, byText,
      if_neg fun h => (startsWith_iff_liesIn.1 h).elim hout hbeside,
      if_pos (startsWith_iff_liesIn.2 (.inr hlibrary))]
  below := by
    intro root rootUrl hroot hrootUrl hh path url hpath hin hurl
    have hproject := currentDirectory_of_toUrl hroot hrootUrl hh
    rw [hp, Except.ok.injEq] at hproject
    subst hproject
    have hwritten := hpath.keeps.written
    rw [hurl, Except.ok.injEq] at hwritten
    refine ⟨path, hwritten ▸ hpath.keeps.key, fun d hd => ?_⟩
    rw [origin_eq hp hl, hd, Option.getD_some, byText, if_pos (startsWith_iff_liesIn.2 (.inl hin))]
  reported := by
    intro ds
    refine ⟨ds.map fun d => byText project library (d.fileName.getD ""), ?_, ?_⟩
    · rw [List.forall₂_map_right_iff, List.forall₂_same]
      exact fun d _ => origin_eq hp hl d
    · rw [report_eq hp hl, List.zipWith_map_right, List.zipWith_self]

/-- A diagnostic about the beginning of a file. -/
def inFile (file : String) : Diagnostic := ⟨"m", some file, some 0, some 0⟩

theorem currentDirectory_besideLibraries :
    Host.besideLibraries.currentDirectory = .ok "/app" := by
  decide +kernel

/-- A file in a directory beside the project, whose name begins like that of the project, is taken
for one of the project. -/
theorem neighbour_taken_for_project :
    let file := "/app-extra/x.ts"
    let library := "/https/libs.example/dts"
    Host.besideLibraries.currentDirectory = .ok "/app" ∧
      Host.besideLibraries.libraryLocation = .ok library ∧
      ¬ LiesIn file "/app" ∧ byPlace "/app" library file = .dependency ∧
      (inFile file).origin Host.besideLibraries = .ok .project ∧
      report Host.besideLibraries [inFile file] =
        ([.diagnosticReported .project "/app-extra/x.ts:0:0: m"], none) := by
  refine ⟨currentDirectory_besideLibraries, Host.libraryLocation_besideLibraries, by decide,
    by decide, ?_, by decide +kernel⟩
  rw [origin_eq currentDirectory_besideLibraries Host.libraryLocation_besideLibraries]
  decide

/-- A file of the project, one of the library and one of a dependency are classified by where they
lie; a file beside the library is taken for one of the library. -/
theorem origin_by_place_besideLibraries :
    Host.besideLibraries.currentDirectory = .ok "/app" ∧
      Host.besideLibraries.libraryLocation = .ok "/https/libs.example/dts" ∧
    (inFile "/app/main.ts").origin Host.besideLibraries = .ok .project ∧
    (inFile "/https/libs.example/dts/lib.dom.d.ts").origin Host.besideLibraries = .ok .library ∧
    (inFile "/https/esm.sh/react.ts").origin Host.besideLibraries = .ok .dependency ∧
    (inFile "/https/libs.example/dts-extra/util.ts").origin Host.besideLibraries = .ok .library := by
  have hp := currentDirectory_besideLibraries
  have hl := Host.libraryLocation_besideLibraries
  have hclassified := origin_by_place hp hl
  have hplace (file : String)
      (hfile : ¬ StandsBeside "/app" "/https/libs.example/dts" file) :=
    (hclassified.byPlace_iff (inFile file) file rfl).2 hfile
  have hbeside : ¬ LiesIn "/https/libs.example/dts-extra/util.ts" "/https/libs.example/dts" := by
    decide
  refine ⟨hp, hl, ?_, ?_, ?_, ?_⟩
  · exact hplace "/app/main.ts" (by decide)
  · exact hplace "/https/libs.example/dts/lib.dom.d.ts" (by decide)
  · exact hplace "/https/esm.sh/react.ts" (by decide)
  · exact hclassified.besideLibrary _ _ rfl (by decide) (by decide) ⟨by decide, hbeside⟩

end Diagnostic

end ModuleGraph
