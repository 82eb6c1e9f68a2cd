import ModuleGraph.Proofs.ImportMap
import ModuleGraph.Proofs.Url.Absolute
/-!
# Specifiers that no entry of an import map matches

Such a specifier is a reference as seen from the importer's URL, unless it is bare. Two things are
read on the way, the specifier on its own and the reference, and either can turn out to be
malformed; then the specifier is no URL, bare or not. Nothing else goes wrong.

Results:
* `isBareSpecifier_eq_ok`: the test for bare specifiers;
* `ends_resolve`: the ways in which the resolution ends;
* `unmapped_resolution`: **main theorem**: when it is refused as bare, when it is malformed, and what
  it names otherwise: from a file or a host, an absolute URL.
-/

namespace ModuleGraph

/-! ## Bare specifiers -/

/-- The specifier is neither an absolute URL nor a path: it begins neither with a scheme and a
colon, nor with a point, nor with a slash. -/
def IsBare (specifier : String) : Prop :=
  ¬ Url.HasScheme specifier.toList ∧ specifier.toList.head? ≠ some '.' ∧
    specifier.toList.head? ≠ some '/'

theorem Text.startsWith_singleton {s : String} {c : Char} :
    Text.startsWith s (.ofList [c]) = true ↔ s.toList.head? = some c := by
  rw [Text.startsWith_iff, String.toList_ofList]
  cases s.toList with
  | nil => simp
  | cons x cs => simp [eq_comm]

/-- The test for bare specifiers answers rightly, if it answers. -/
theorem isBareSpecifier_eq_ok {s : String} {b : Bool} (h : isBareSpecifier s = .ok b) :
    b = true ↔ IsBare s := by
  obtain ⟨absolute, ha, rfl⟩ := Action.map_eq_ok_iff.1 h
  have hpoint : Text.startsWith s "." = true ↔ s.toList.head? = some '.' := Text.startsWith_singleton
  have hslash : Text.startsWith s "/" = true ↔ s.toList.head? = some '/' := Text.startsWith_singleton
  have habsolute : absolute = true ↔ Url.HasScheme s.toList := by
    by_cases hs : Url.HasScheme s.toList
    · rw [isAbsoluteUrl_of_hasScheme hs] at ha
      obtain ⟨p, -, rfl⟩ := Action.map_eq_ok_iff.1 ha
      exact iff_of_true rfl hs
    · rw [isAbsoluteUrl_of_not_hasScheme hs] at ha
      cases ha
      exact iff_of_false Bool.false_ne_true hs
  rw [IsBare, ← habsolute, ne_eq, ne_eq, ← hpoint, ← hslash]
  simp [and_assoc]

namespace ImportMap

variable {m : ImportMap} {source specifier : String}

/-- The specifier can be read on its own, and as a reference in the module at `source`. -/
def IsReadable (source specifier : String) : Prop :=
  (∃ bare, isBareSpecifier specifier = .ok bare) ∧ ∃ url, Url.join source specifier = .ok url

/-- The first problem that the specifier has, on its own or as a reference. -/
def HasProblem (source specifier : String) (p : Url.Problem) : Prop :=
  isBareSpecifier specifier = .error p ∨
    (∃ bare, isBareSpecifier specifier = .ok bare) ∧ Url.join source specifier = .error p

theorem HasProblem.not_isReadable {p : Url.Problem} (h : HasProblem source specifier p) :
    ¬ IsReadable source specifier := by
  rintro ⟨⟨bare, hbare⟩, url, hurl⟩
  rcases h with h | ⟨-, h⟩
  · rw [h] at hbare
    cases hbare
  · rw [h] at hurl
    cases hurl

/-! ## Unmapped resolution -/

/-- How the resolution of a specifier that is not mapped ends. -/
inductive Ends (source specifier : String) : Except Fault String → Prop
  | malformed {p : Url.Problem} (h : HasProblem source specifier p) :
    Ends source specifier
      (.error (.unresolved specifier source (some (invalidUrlText specifier source p))))
  | bare (h : IsReadable source specifier) (hbare : IsBare specifier) :
    Ends source specifier (.error (.bare specifier source))
  | joined {url : String} (h : IsReadable source specifier) (hbare : ¬ IsBare specifier)
    (hurl : Url.join source specifier = .ok url) : Ends source specifier (.ok url)

theorem ends_resolve (h : m.entryFor? source specifier = none) :
    Ends source specifier (m.resolve source specifier) := by
  rw [resolve, h]
  cases hbare : isBareSpecifier specifier with
  | error p => exact .malformed (.inl hbare)
  | ok bare =>
    cases hurl : Url.join source specifier with
    | error p => exact .malformed (.inr ⟨⟨bare, hbare⟩, hurl⟩)
    | ok url =>
      have hread : IsReadable source specifier := ⟨⟨bare, hbare⟩, url, hurl⟩
      have hiff := isBareSpecifier_eq_ok hbare
      cases bare with
      | true => exact .bare hread (hiff.1 rfl)
      | false => exact .joined hread (fun hb => Bool.false_ne_true (hiff.2 hb)) hurl

namespace Ends

variable {result : Except Fault String} (h : Ends source specifier result)

include h

theorem bare_iff : result = .error (.bare specifier source) ↔
    IsReadable source specifier ∧ IsBare specifier := by
  cases h with
  | malformed hp => exact iff_of_false (by simp) fun hb => hp.not_isReadable hb.1
  | bare hread hbare => exact iff_of_true rfl ⟨hread, hbare⟩
  | joined hread hbare hurl => exact iff_of_false (by simp) fun hb => hbare hb.2

theorem malformed_iff : (∃ said, result = .error (.unresolved specifier source said)) ↔
    ¬ IsReadable source specifier := by
  cases h with
  | malformed hp => exact iff_of_true ⟨_, rfl⟩ hp.not_isReadable
  | bare hread hbare => exact iff_of_false (by simp) fun hnot => hnot hread
  | joined hread hbare hurl => exact iff_of_false (by simp) fun hnot => hnot hread

theorem joined_iff (url : String) : result = .ok url ↔
    IsReadable source specifier ∧ ¬ IsBare specifier ∧ Url.join source specifier = .ok url := by
  cases h with
  | malformed hp => exact iff_of_false (by simp) fun hj => hp.not_isReadable hj.1
  | bare hread hbare => exact iff_of_false (by simp) fun hj => hj.2.1 hbare
  | joined hread hbare hurl => simp [hread, hbare, hurl]

theorem faults {e : Fault} (he : result = .error e) : e = .bare specifier source ∨
    ∃ p, HasProblem source specifier p ∧
      e = .unresolved specifier source (some (invalidUrlText specifier source p)) := by
  cases h with
  | malformed hp =>
    cases he
    exact .inr ⟨_, hp, rfl⟩
  | bare =>
    cases he
    exact .inl rfl
  | joined => cases he

end Ends

/-- The map has no entry for the specifier in the module at `source`. -/
theorem entryFor?_eq_none (hscope : ∀ scope, m.Governs source scope → scope.2.Lacks specifier)
    (htop : m.imports.Lacks specifier) : m.entryFor? source specifier = none := by
  cases hentry : m.entryFor? source specifier with
  | none => rfl
  | some e =>
    rcases exists_decides_iff.1 ⟨e, entryFor?_eq_some_iff.1 hentry⟩ with ⟨scope, hs, hm⟩ | hm
    · exact absurd (hscope scope hs) hm
    · exact absurd htop hm

/-- What a specifier that is not mapped resolves to in the module at `source`. -/
structure ResolvesUnmapped (m : ImportMap) (source specifier : String) : Prop where
  /-- It is refused as bare exactly if it can be read and is bare. -/
  bare_iff : m.resolve source specifier = .error (.bare specifier source) ↔
    IsReadable source specifier ∧ IsBare specifier
  /-- It is malformed exactly if it cannot be read. -/
  malformed_iff : (∃ said, m.resolve source specifier =
    .error (.unresolved specifier source said)) ↔ ¬ IsReadable source specifier
  /-- Otherwise it is a reference. -/
  joined_iff : ∀ url, m.resolve source specifier = .ok url ↔
    IsReadable source specifier ∧ ¬ IsBare specifier ∧ Url.join source specifier = .ok url
  /-- There is no other fault, and the fault names the specifier and the importer, and the first
  problem if there is one. -/
  faults : ∀ e, m.resolve source specifier = .error e →
    e = .bare specifier source ∨ ∃ p, HasProblem source specifier p ∧
      e = .unresolved specifier source (some (invalidUrlText specifier source p))
  /-- From a file or a host, what it names is absolute. -/
  absolute : Url.scheme source = .ok "file" ∨ Url.scheme source = .ok "https" →
    ∀ url, m.resolve source specifier = .ok url → Url.HasScheme url.toList

/-- A specifier that is not bare begins as an absolute URL or as a path does. -/
theorem begins_of_not_isBare (h : ¬ IsBare specifier) : Url.HasScheme specifier.toList ∨
    specifier.toList.head? = some '.' ∨ specifier.toList.head? = some '/' := by
  by_contra hnone
  rw [not_or, not_or] at hnone
  exact h hnone

/-- **main theorem**: a specifier without an entry in the authoritative scope and at the top level is
refused as bare, is malformed, or is a reference. -/
theorem unmapped_resolution (hscope : ∀ scope, m.Governs source scope → scope.2.Lacks specifier)
    (htop : m.imports.Lacks specifier) : m.ResolvesUnmapped source specifier := by
  have hends := ends_resolve (entryFor?_eq_none hscope htop)
  refine ⟨hends.bare_iff, hends.malformed_iff, hends.joined_iff, fun e he => hends.faults he, ?_⟩
  intro hsource url hok
  obtain ⟨-, hbare, hurl⟩ := (hends.joined_iff url).1 hok
  exact Url.hasScheme_of_join hsource (begins_of_not_isBare hbare) hurl

/-- In a module below both scopes of `nested`, a path is a reference: neither the authoritative scope,
which is the inner one, nor the top level has an entry for it. -/
theorem unmapped_resolution_sibling :
    nested.ResolvesUnmapped "https://app.test/in/x.ts" "./y.ts" ∧
      nested.resolve "https://app.test/in/x.ts" "./y.ts" = .ok "https://app.test/in/y.ts" ∧
      Url.HasScheme "https://app.test/in/y.ts".toList := by
  have hinner : nested.scopeFor? "https://app.test/in/x.ts" =
      some ("https://app.test/in/", .ofList [("c", "https://scope.test/c.ts")]) := rfl
  have hscope : ∀ scope, nested.Governs "https://app.test/in/x.ts" scope →
      scope.2.Lacks "./y.ts" := by
    intro scope hs
    rw [← scopeFor?_eq_some_iff, hinner] at hs
    cases hs
    exact Mapping.match?_eq_none_iff.1 (by decide)
  have h := unmapped_resolution hscope (Mapping.match?_eq_none_iff.1 (by decide))
  have hok : nested.resolve "https://app.test/in/x.ts" "./y.ts" =
      .ok "https://app.test/in/y.ts" := by decide
  exact ⟨h, hok, h.absolute (.inr (by decide)) _ hok⟩

example : nested.resolve "https://app.test/in/x.ts" "react" =
      .error (.bare "react" "https://app.test/in/x.ts") ∧
    nested.resolve "https://app.test/in/x.ts" "https://[oops/x.ts" =
      .error (.unresolved "https://[oops/x.ts" "https://app.test/in/x.ts" (some
        "Invalid URL 'https://[oops/x.ts' in https://app.test/in/x.ts: Invalid IPv6 URL")) := by
  decide +kernel

end ImportMap

end ModuleGraph
