import ModuleGraph.Proofs.Host
/-!
# Which stored files a host reads as they are

The folding of names is meant for the files of the library directory. A host recognises these by the
beginning of their paths alone, without asking for a slash behind it, so it also folds the names in
directories that stand beside the library directory and whose names begin like its name. A file there
is read only if its name is already that of a library, and it is then taken for one.

Results:
* `read_eq`, `probe_eq`: what a host answers, by the key that it looks up;
* `reads_itself_iff`: **main theorem**: which files outside the library directory a host reads as
  they are;
* `neighbour_unread`: a stored file beside the library directory that cannot be read.
-/

namespace ModuleGraph.Host

variable {h : Host} {location path text : String}

/-! ## Answers of a host -/

/-- What a host answers that looks a path up under a key. -/
def answerAt (h : Host) (location path key : String) : Option String × List Event :=
  match h.store.get? key with
  | none => (none, [.fileNotFound key])
  | some text => (some (if key = path then text else redirectStub key),
      [.fileRead path key (Text.startsWith key location)])

theorem isLibraryPath_eq (hl : h.libraryLocation = .ok location) (path : String) :
    h.isLibraryPath path = .ok (Text.startsWith path location) := by
  rw [isLibraryPath, hl]
  rfl

theorem read_eq (hl : h.libraryLocation = .ok location) (path : String) :
    h.read path = .ok (h.answerAt location path (normalized location path)) := by
  rw [read, lookup, normalizePath_eq hl, answerAt]
  cases hs : h.store.get? (normalized location path) with
  | none => simp [bind, Except.bind, pure, Except.pure, hs]
  | some text => simp [bind, Except.bind, pure, Except.pure, hs, isLibraryPath_eq hl]

theorem probe_eq (hl : h.libraryLocation = .ok location) (path : String) :
    h.probe path = .ok (
      if (h.store.get? (normalized location path)).isSome then (true, [])
      else (false, if isQuietProbe path then [] else [.fileProbeMissed path])) := by
  rw [probe, lookup, normalizePath_eq hl]
  cases hs : h.store.get? (normalized location path) with
  | none => simp [bind, Except.bind, pure, Except.pure, hs]
  | some text => simp [bind, Except.bind, pure, Except.pure, hs]

/-! ## Files outside the library directory -/

/-- The path is that of the directory, or stands behind it and a slash. -/
def LiesIn (path directory : String) : Prop :=
  path = directory ∨ Text.startsWith path (directory ++ "/") = true

/-- The path begins like that of the directory, whose last name goes on in it. -/
def IsNeighbour (path directory : String) : Prop :=
  Text.startsWith path directory = true ∧ ¬ LiesIn path directory

theorem normalized_of_outside (hend : Text.endsWith path jsxRuntimeSegment = false)
    (hout : Text.startsWith path location = false) : normalized location path = path := by
  rw [normalized, dropJsxRuntime_eq_self hend, hout]
  rfl

theorem normalized_of_library (hend : Text.endsWith path jsxRuntimeSegment = false)
    (hin : Text.startsWith path location = true) : normalized location path = foldPath path := by
  rw [normalized, dropJsxRuntime_eq_self hend, if_pos hin]

/-- A host reads a stored file as it is if it looks the file up under its own path. -/
theorem answerAt_self (hs : h.store.get? path = some text) : h.answerAt location path path =
    (some text, [.fileRead path path (Text.startsWith path location)]) := by
  rw [answerAt, hs]
  simp

/-- Under another key there is another file, or none. -/
theorem answerAt_ne {key : String} (hne : key ≠ path) (isLibrary : Bool) :
    h.answerAt location path key ≠ (some text, [.fileRead path path isLibrary]) := by
  rw [answerAt]
  cases h.store.get? key with
  | none => simp
  | some other => simp [hne]

/-- **Which files are read as they are.** Of the stored files outside the library directory that do
not end in the segment of the runtime, a host reads exactly those as they are, and as no library,
that do not stand beside it under a longer name. A file that does is looked up under the name of a
library: it is read if it has that name, and then as a library; if it has not, the host answers for
whatever stands under that name. -/
theorem reads_itself_iff (hl : h.libraryLocation = .ok location)
    (hs : h.store.get? path = some text) (hend : Text.endsWith path jsxRuntimeSegment = false)
    (hout : ¬ LiesIn path location) :
    (h.read path = .ok (some text, [.fileRead path path false]) ∧ h.probe path = .ok (true, []) ↔
      ¬ IsNeighbour path location) ∧
    (IsNeighbour path location →
      (h.read path = .ok (some text, [.fileRead path path true]) ↔ foldPath path = path) ∧
      h.read path = .ok (h.answerAt location path (foldPath path)) ∧
      (h.probe path = .ok (true, []) ↔ (h.store.get? (foldPath path)).isSome = true)) := by
  by_cases hin : Text.startsWith path location = true
  · -- A neighbour of the library directory.
    have hneighbour : IsNeighbour path location := ⟨hin, hout⟩
    have hkey := normalized_of_library hend hin
    have hread := hkey ▸ read_eq hl path
    have hprobe := hkey ▸ probe_eq hl path
    refine ⟨⟨fun ⟨hself, _⟩ => ?_, fun hnot => absurd hneighbour hnot⟩, fun _ => ⟨?_, hread, ?_⟩⟩
    · rw [hread, Except.ok.injEq] at hself
      by_cases hfold : foldPath path = path
      · rw [hfold, answerAt_self hs, hin] at hself
        simp at hself
      · exact absurd hself (answerAt_ne hfold false)
    · rw [hread, Except.ok.injEq]
      constructor
      · intro hself
        by_contra hfold
        exact answerAt_ne hfold true hself
      · intro hfold
        rw [hfold, answerAt_self hs, hin]
    · rw [hprobe, Except.ok.injEq]
      cases (h.store.get? (foldPath path)).isSome <;> simp
  · have hkey := normalized_of_outside hend (Bool.eq_false_iff.2 hin)
    have hread := hkey ▸ read_eq hl path
    have hprobe := hkey ▸ probe_eq hl path
    have hnot : ¬ IsNeighbour path location := fun hneighbour => hin hneighbour.1
    refine ⟨⟨fun _ => hnot, fun _ => ⟨?_, ?_⟩⟩, fun hneighbour => absurd hneighbour hnot⟩
    · rw [hread, answerAt_self hs, Bool.eq_false_iff.2 hin]
    · rw [hprobe, hs]
      rfl

/-- A store with a file of the project, and with two files in a directory beside that of the
libraries. -/
def besideLibraries : Host where
  store := ((ModuleStore.empty.filled "/app/main.ts" "export {};\n").filled
    "/https/libs.example/dts-extra/util.ts" "export const n = 1;\n").filled
    "/https/libs.example/dts-extra/lib.dom.d.ts" "interface Window {}\n"
  rootUrl := "file:///app/"
  libraryDir := "https://libs.example/dts"

theorem libraryLocation_besideLibraries :
    besideLibraries.libraryLocation = .ok "/https/libs.example/dts" := by
  decide +kernel

/-- A stored file that is in no library directory may not be found: the name of its own directory
begins like that of the library directory. -/
theorem neighbour_unread :
    let location := "/https/libs.example/dts"
    let path := "/https/libs.example/dts-extra/util.ts"
    besideLibraries.libraryLocation = .ok location ∧ location ≠ "/" ∧
      besideLibraries.store.get? path = some "export const n = 1;\n" ∧
      Text.endsWith path jsxRuntimeSegment = false ∧ ¬ LiesIn path location ∧
      besideLibraries.read path =
        .ok (none, [.fileNotFound "/https/libs.example/dts-extra/lib.util.d.ts"]) ∧
      besideLibraries.probe path = .ok (false, [.fileProbeMissed path]) := by
  refine ⟨libraryLocation_besideLibraries, by decide, by decide, by decide, ?_, by decide +kernel,
    by decide +kernel⟩
  rintro (h | h)
  · revert h
    decide
  · revert h
    decide

/-- The file of the project is read as it is; of the two files beside the libraries, the one with
the name of a library is. -/
theorem reads_itself_iff_besideLibraries :
    (besideLibraries.read "/app/main.ts" =
        .ok (some "export {};\n", [.fileRead "/app/main.ts" "/app/main.ts" false]) ∧
      besideLibraries.probe "/app/main.ts" = .ok (true, [])) ∧
    let beside := "/https/libs.example/dts-extra/lib.dom.d.ts"
    besideLibraries.read beside =
      .ok (some "interface Window {}\n", [.fileRead beside beside true]) := by
  have hl := libraryLocation_besideLibraries
  have hmain : ¬ LiesIn "/app/main.ts" "/https/libs.example/dts" := by
    rintro (h | h) <;> revert h <;> decide
  have hbeside : ¬ LiesIn "/https/libs.example/dts-extra/lib.dom.d.ts"
      "/https/libs.example/dts" := by
    rintro (h | h) <;> revert h <;> decide
  constructor
  · exact (reads_itself_iff hl (by decide) (by decide) hmain).1.2 fun h =>
      absurd h.1 (by decide)
  · exact ((reads_itself_iff hl (by decide) (by decide) hbeside).2 ⟨by decide, hbeside⟩).1.2
      (by decide +kernel)

end ModuleGraph.Host
