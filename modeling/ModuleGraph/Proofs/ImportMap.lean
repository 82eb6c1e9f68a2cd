import Mathlib.Data.List.Nodup
import Mathlib.Tactic.SplitIfs
import ModuleGraph.ImportMap
import ModuleGraph.Proofs.Table
import ModuleGraph.Proofs.Text.Affix
/-!
# Which entry of an import map decides

Two searches decide what a mapped specifier stands for: the longest scope that the importer's URL
begins with, and the longest entry for the specifier, of that scope or else of the top level. Both
are one loop over the entries of a table, which keeps the longest candidate so far. Candidates are
beginnings of one text, so two of the same length are the same key: the longest one is unique, and
the order of the entries does not matter.

Results:
* `longestAmong_eq_some_iff`, `longestAmong_eq_none_iff`: what the loop finds;
* `ImportMap.entryFor?_eq_some_iff`: the entry that decides;
* `ImportMap.Decides.unique`: there is one such entry at most;
* `ImportMap.mapped_resolution`: **main theorem**: what a mapped specifier resolves to.
-/

namespace ModuleGraph

variable {α : Type}

/-! ## The longest candidate -/

/-- The longer of the best candidate so far and another entry; the earlier one of two of a
length. -/
def longerOf (best : Option (String × α)) (e : String × α) : Option (String × α) :=
  match best with
  | some b => if b.1.length < e.1.length then some e else best
  | none => some e

/-- The longest of the entries whose key is a candidate. -/
def longestAmong (p : String → Bool) (es : List (String × α)) : Option (String × α) :=
  es.foldl (fun best e => if p e.1 then longerOf best e else best) none

/-- The entry is among the others, its key is a candidate, and no other candidate is longer. -/
structure IsLongest (P : String → Prop) (es : List (String × α)) (e : String × α) : Prop where
  mem : e ∈ es
  candidate : P e.1
  longest : ∀ e' ∈ es, P e'.1 → e'.1.length ≤ e.1.length

/-- What the loop has found in the entries that it has seen. -/
def Found (p : String → Bool) (seen : List (String × α)) : Option (String × α) → Prop
  | none => ∀ e ∈ seen, p e.1 = false
  | some b => IsLongest (fun key => p key = true) seen b

theorem found_step {p : String → Bool} {seen : List (String × α)} {best : Option (String × α)}
    (h : Found p seen best) (e : String × α) :
    Found p (seen ++ [e]) (if p e.1 then longerOf best e else best) := by
  have hcases : ∀ {x}, x ∈ seen ++ [e] → x ∈ seen ∨ x = e := by
    intro x hx
    simpa using hx
  cases he : p e.1 with
  | false =>
    rw [if_neg Bool.false_ne_true]
    cases best with
    | none =>
      intro x hx
      rcases hcases hx with hx | rfl
      · exact h x hx
      · exact he
    | some b =>
      refine ⟨List.mem_append_left _ h.mem, h.candidate, fun x hx hp => ?_⟩
      rcases hcases hx with hx | rfl
      · exact h.longest x hx hp
      · rw [he] at hp
        cases hp
  | true =>
    rw [if_pos rfl]
    have hself : e ∈ seen ++ [e] := List.mem_append_right _ List.mem_cons_self
    cases best with
    | none =>
      refine ⟨hself, he, fun x hx hp => ?_⟩
      rcases hcases hx with hx | rfl
      · rw [h x hx] at hp
        cases hp
      · exact Nat.le_refl _
    | some b =>
      rw [longerOf]
      split_ifs with hlt
      · refine ⟨hself, he, fun x hx hp => ?_⟩
        rcases hcases hx with hx | rfl
        · exact Nat.le_of_lt (Nat.lt_of_le_of_lt (h.longest x hx hp) hlt)
        · exact Nat.le_refl _
      · refine ⟨List.mem_append_left _ h.mem, h.candidate, fun x hx hp => ?_⟩
        rcases hcases hx with hx | rfl
        · exact h.longest x hx hp
        · exact Nat.le_of_not_lt hlt

theorem found_foldl {p : String → Bool} (es : List (String × α)) {seen : List (String × α)}
    {best : Option (String × α)} (h : Found p seen best) :
    Found p (seen ++ es) (es.foldl (fun best e => if p e.1 then longerOf best e else best) best) := by
  induction es generalizing seen best with
  | nil =>
    rw [List.append_nil]
    exact h
  | cons e es ih =>
    have hnext := ih (found_step h e)
    rwa [List.append_assoc, List.singleton_append] at hnext

theorem found_longestAmong (p : String → Bool) (es : List (String × α)) :
    Found p es (longestAmong p es) := by
  have hstart : Found p ([] : List (String × α)) none := fun _ he => absurd he List.not_mem_nil
  exact found_foldl es hstart

theorem longestAmong_eq_none_iff {p : String → Bool} {es : List (String × α)} :
    longestAmong p es = none ↔ ∀ e ∈ es, p e.1 = false := by
  have h := found_longestAmong p es
  constructor
  · intro hnone
    rw [hnone] at h
    exact h
  · intro hall
    cases hbest : longestAmong p es with
    | none => rfl
    | some b =>
      rw [hbest] at h
      have hcandidate : p b.1 = true := h.candidate
      rw [hall b h.mem] at hcandidate
      cases hcandidate

/-- Beginnings of one text that are as long as each other are the same. -/
theorem eq_of_prefixes {a b s : String} (ha : a.toList <+: s.toList) (hb : b.toList <+: s.toList)
    (hlen : a.length = b.length) : a = b := by
  refine String.toList_injective ?_
  rcases List.prefix_or_prefix_of_prefix ha hb with h | h
  · exact h.eq_of_length (by rw [String.length_toList, String.length_toList, hlen])
  · exact (h.eq_of_length (by rw [String.length_toList, String.length_toList, hlen])).symm

/-- Where candidates are beginnings of one text, there is one longest entry at most. -/
theorem IsLongest.unique {P : String → Prop} {t : Table α} {s : String}
    (hP : ∀ key, P key → key.toList <+: s.toList) {e e' : String × α}
    (h : IsLongest P t.entries e) (h' : IsLongest P t.entries e') : e = e' := by
  have hkey : e.1 = e'.1 := eq_of_prefixes (hP _ h.candidate) (hP _ h'.candidate)
    (Nat.le_antisymm (h'.longest e h.mem h.candidate) (h.longest e' h'.mem h'.candidate))
  exact List.inj_on_of_nodup_map t.distinct h.mem h'.mem hkey

theorem IsLongest.of_perm {P : String → Prop} {es es' : List (String × α)} {e : String × α}
    (h : IsLongest P es e) (hperm : es.Perm es') : IsLongest P es' e :=
  ⟨hperm.mem_iff.1 h.mem, h.candidate, fun e' he' => h.longest e' (hperm.mem_iff.2 he')⟩

/-- The loop finds the longest candidate. -/
theorem longestAmong_eq_some_iff {p : String → Bool} {t : Table α} {s : String}
    (hp : ∀ key, p key = true → key.toList <+: s.toList) {e : String × α} :
    longestAmong p t.entries = some e ↔ IsLongest (fun key => p key = true) t.entries e := by
  have h := found_longestAmong p t.entries
  constructor
  · intro hsome
    rw [hsome] at h
    exact h
  · intro he
    cases hbest : longestAmong p t.entries with
    | none =>
      rw [hbest] at h
      have hcandidate : p e.1 = true := he.candidate
      rw [h e he.mem] at hcandidate
      cases hcandidate
    | some b =>
      rw [hbest] at h
      rw [IsLongest.unique hp h he]

theorem IsLongest.congr {P Q : String → Prop} {es : List (String × α)} {e : String × α}
    (h : ∀ key, P key ↔ Q key) : IsLongest P es e ↔ IsLongest Q es e := by
  constructor
  · intro he
    exact ⟨he.mem, (h _).1 he.candidate, fun e' he' hq => he.longest e' he' ((h _).2 hq)⟩
  · intro he
    exact ⟨he.mem, (h _).2 he.candidate, fun e' he' hp => he.longest e' he' ((h _).1 hp)⟩

/-! ## Mappings -/

namespace Mapping

/-- The key is one for the specifier: it equals it, or it ends in a slash and begins it. -/
def IsFor (specifier key : String) : Prop :=
  specifier = key ∨ ['/'] <:+ key.toList ∧ key.toList <+: specifier.toList

/-- The entry is the longest one of the mapping for the specifier. -/
def Decides (m : Mapping) (specifier : String) (e : String × String) : Prop :=
  IsLongest (IsFor specifier) m.entries e

/-- The mapping has no entry for the specifier. -/
def Lacks (m : Mapping) (specifier : String) : Prop := ∀ e ∈ m.entries, ¬ IsFor specifier e.1

theorem matchesSpecifier_iff {key specifier : String} :
    matchesSpecifier key specifier = true ↔ IsFor specifier key := by
  simp [matchesSpecifier, IsFor, Text.startsWith_iff, Text.endsWith_iff]

theorem IsFor.isPrefix {key specifier : String} (h : IsFor specifier key) :
    key.toList <+: specifier.toList := by
  rcases h with rfl | ⟨-, h⟩
  · exact List.prefix_rfl
  · exact h

theorem match?_eq (m : Mapping) (specifier : String) :
    m.match? specifier = longestAmong (fun key => matchesSpecifier key specifier) m.entries := by
  have hlonger : longer = longerOf := by
    funext best e
    cases best <;> rfl
  rw [match?, longestAmong, hlonger]

theorem match?_eq_some_iff {m : Mapping} {specifier : String} {e : String × String} :
    m.match? specifier = some e ↔ m.Decides specifier e := by
  rw [match?_eq, longestAmong_eq_some_iff fun key hkey => (matchesSpecifier_iff.1 hkey).isPrefix]
  exact IsLongest.congr fun key => matchesSpecifier_iff

theorem match?_eq_none_iff {m : Mapping} {specifier : String} :
    m.match? specifier = none ↔ m.Lacks specifier := by
  rw [match?_eq, longestAmong_eq_none_iff]
  refine forall₂_congr fun e _ => ?_
  rw [← matchesSpecifier_iff, Bool.not_eq_true]

theorem Decides.not_lacks {m : Mapping} {specifier : String} {e : String × String}
    (h : m.Decides specifier e) : ¬ m.Lacks specifier := fun hl => hl e h.mem h.candidate

theorem exists_decides {m : Mapping} {specifier : String} (h : ¬ m.Lacks specifier) :
    ∃ e, m.Decides specifier e := by
  rw [← match?_eq_none_iff, ← ne_eq, Option.ne_none_iff_exists'] at h
  obtain ⟨e, he⟩ := h
  exact ⟨e, match?_eq_some_iff.1 he⟩

end Mapping

/-! ## Import maps -/

namespace ImportMap

/-- The scope is the authoritative one for the importer: the longest one that its URL begins
with. -/
def Governs (m : ImportMap) (source : String) (scope : String × Mapping) : Prop :=
  IsLongest (fun key => key.toList <+: source.toList) m.scopes.entries scope

/-- The entry that decides about a specifier. -/
inductive Decides (m : ImportMap) (source specifier : String) (e : String × String) : Prop
  /-- The longest one of the authoritative scope. -/
  | inScope {scope : String × Mapping} (hs : m.Governs source scope)
      (he : scope.2.Decides specifier e)
  /-- The longest one of the top level, if the authoritative scope has none. -/
  | atTop (hs : ∀ scope, m.Governs source scope → scope.2.Lacks specifier)
      (he : m.imports.Decides specifier e)

theorem scopeFor?_eq (m : ImportMap) (source : String) : m.scopeFor? source =
    longestAmong (fun key => Text.startsWith source key) m.scopes.entries := by
  rw [scopeFor?, longestAmong]
  congr 1
  funext best e
  cases best <;> rfl

theorem scopeFor?_eq_some_iff {m : ImportMap} {source : String} {scope : String × Mapping} :
    m.scopeFor? source = some scope ↔ m.Governs source scope := by
  rw [scopeFor?_eq, longestAmong_eq_some_iff fun key hkey => Text.startsWith_iff.1 hkey]
  exact IsLongest.congr fun key => Text.startsWith_iff

theorem Governs.unique {m : ImportMap} {source : String} {scope scope' : String × Mapping}
    (h : m.Governs source scope) (h' : m.Governs source scope') : scope = scope' :=
  IsLongest.unique (fun _ hkey => hkey) h h'

theorem entryFor?_eq_some_iff {m : ImportMap} {source specifier : String} {e : String × String} :
    m.entryFor? source specifier = some e ↔ m.Decides source specifier e := by
  rw [entryFor?]
  cases hscope : m.scopeFor? source with
  | none =>
    have hnone : ∀ scope, ¬ m.Governs source scope := fun scope hs => by
      rw [scopeFor?_eq_some_iff.2 hs] at hscope
      cases hscope
    change m.imports.match? specifier = some e ↔ _
    rw [Mapping.match?_eq_some_iff]
    constructor
    · exact fun he => .atTop (fun scope hs => absurd hs (hnone scope)) he
    · rintro (⟨hs, -⟩ | ⟨-, he⟩)
      · exact absurd hs (hnone _)
      · exact he
  | some scope =>
    have hs := scopeFor?_eq_some_iff.1 hscope
    cases hmatch : scope.2.match? specifier with
    | some e' =>
      have he' := Mapping.match?_eq_some_iff.1 hmatch
      change ((scope.2.match? specifier).orElse fun _ => m.imports.match? specifier) = some e ↔ _
      rw [hmatch, Option.orElse_some]
      constructor
      · rintro ⟨⟩
        exact .inScope hs he'
      · rintro (⟨hs', he⟩ | ⟨hlacks, -⟩)
        · rw [hs.unique hs', Mapping.match?_eq_some_iff.2 he] at hmatch
          exact hmatch.symm
        · exact absurd (hlacks scope hs) he'.not_lacks
    | none =>
      have hlacks := Mapping.match?_eq_none_iff.1 hmatch
      change ((scope.2.match? specifier).orElse fun _ => m.imports.match? specifier) = some e ↔ _
      rw [hmatch, Option.orElse_none, Mapping.match?_eq_some_iff]
      constructor
      · exact fun he => .atTop (fun scope' hs' => hs.unique hs' ▸ hlacks) he
      · rintro (⟨hs', he⟩ | ⟨-, he⟩)
        · exact absurd (hs.unique hs' ▸ hlacks) he.not_lacks
        · exact he

/-- One entry decides at most. -/
theorem Decides.unique {m : ImportMap} {source specifier : String} {e e' : String × String}
    (h : m.Decides source specifier e) (h' : m.Decides source specifier e') : e = e' :=
  Option.some.inj ((entryFor?_eq_some_iff.2 h).symm.trans (entryFor?_eq_some_iff.2 h'))

/-- An entry decides wherever the authoritative scope or the top level has one. -/
theorem exists_decides_iff {m : ImportMap} {source specifier : String} :
    (∃ e, m.Decides source specifier e) ↔
      (∃ scope, m.Governs source scope ∧ ¬ scope.2.Lacks specifier) ∨
        ¬ m.imports.Lacks specifier := by
  constructor
  · rintro ⟨e, ⟨hs, he⟩ | ⟨-, he⟩⟩
    · exact .inl ⟨_, hs, he.not_lacks⟩
    · exact .inr he.not_lacks
  · intro h
    by_cases hscoped : ∃ scope, m.Governs source scope ∧ ¬ scope.2.Lacks specifier
    · obtain ⟨scope, hs, hm⟩ := hscoped
      obtain ⟨e, he⟩ := Mapping.exists_decides hm
      exact ⟨e, .inScope hs he⟩
    · obtain ⟨e, he⟩ := Mapping.exists_decides (h.resolve_left hscoped)
      refine ⟨e, .atTop (fun scope hs => ?_) he⟩
      by_contra hlacks
      exact hscoped ⟨scope, hs, hlacks⟩

theorem Decides.isFor {m : ImportMap} {source specifier : String} {e : String × String}
    (h : m.Decides source specifier e) : Mapping.IsFor specifier e.1 := by
  cases h with
  | inScope hs he => exact he.candidate
  | atTop hs he => exact he.candidate

/-- A mapped specifier stands for the target, with what follows the key behind it. -/
theorem resolve_of_decides {m : ImportMap} {source specifier : String} {e : String × String}
    (h : m.Decides source specifier e) {rest : List Char}
    (hrest : specifier.toList = e.1.toList ++ rest) :
    m.resolve source specifier = .ok (e.2 ++ String.ofList rest) := by
  have hdrop : Text.dropFirst specifier e.1.length = String.ofList rest := by
    rw [Text.dropFirst, hrest, ← String.length_toList, List.drop_left]
  rw [resolve, entryFor?_eq_some_iff.2 h, ← hdrop]

theorem resolve_congr {m m' : ImportMap} {source specifier : String}
    (h : ∀ e, m.Decides source specifier e ↔ m'.Decides source specifier e) :
    m'.resolve source specifier = m.resolve source specifier := by
  have hentry : m'.entryFor? source specifier = m.entryFor? source specifier := by
    refine Option.ext fun e => ?_
    rw [entryFor?_eq_some_iff, entryFor?_eq_some_iff, h]
  rw [resolve, resolve, hentry]

theorem not_governs_empty (source : String) (scope : String × Mapping) :
    ¬ empty.Governs source scope := fun h => absurd h.mem List.not_mem_nil

theorem not_decides_empty (source specifier : String) (e : String × String) :
    ¬ empty.Decides source specifier e := by
  rintro (⟨hs, -⟩ | ⟨-, he⟩)
  · exact not_governs_empty source _ hs
  · exact absurd he.mem List.not_mem_nil

/-! ## Other orders -/

/-- The same import map, but that the entries, the scopes and the entries of each scope may stand in
another order. -/
structure Reordered (m m' : ImportMap) : Prop where
  imports : m.imports.entries.Perm m'.imports.entries
  scopes : ∀ s ∈ m.scopes.entries, ∃ s' ∈ m'.scopes.entries,
    s'.1 = s.1 ∧ s.2.entries.Perm s'.2.entries
  back : ∀ s' ∈ m'.scopes.entries, ∃ s ∈ m.scopes.entries,
    s.1 = s'.1 ∧ s'.2.entries.Perm s.2.entries

namespace Reordered

variable {m m' : ImportMap} (h : m.Reordered m') {source specifier : String}

include h

theorem symm : m'.Reordered m := ⟨h.imports.symm, h.back, h.scopes⟩

theorem governs {scope : String × Mapping} (hs : m.Governs source scope) :
    ∃ scope', m'.Governs source scope' ∧ scope.2.entries.Perm scope'.2.entries := by
  obtain ⟨scope', hmem, hkey, hperm⟩ := h.scopes scope hs.mem
  refine ⟨scope', ⟨hmem, ?_, fun other hother hbegins => ?_⟩, hperm⟩
  · rw [hkey]
    exact hs.candidate
  · obtain ⟨twin, htwin, htwinkey, -⟩ := h.back other hother
    rw [← htwinkey, hkey]
    exact hs.longest twin htwin (htwinkey ▸ hbegins)

theorem decides {e : String × String} (he : m.Decides source specifier e) :
    m'.Decides source specifier e := by
  cases he with
  | inScope hs he =>
    obtain ⟨scope', hs', hperm⟩ := h.governs hs
    exact .inScope hs' (he.of_perm hperm)
  | atTop hs he =>
    refine .atTop (fun scope' hs' e' he' => ?_) (he.of_perm h.imports)
    obtain ⟨scope, hscope, hperm⟩ := h.symm.governs hs'
    exact hs scope hscope e' (hperm.mem_iff.1 he')

end Reordered

/-! ## Mapped resolution -/

/-- What the entries of an import map say about a specifier in the module at `source`. -/
structure Resolves (m : ImportMap) (source specifier : String) : Prop where
  /-- The entry that decides gives its target, with what follows its key in the specifier. -/
  mapped : ∀ e, m.Decides source specifier e → ∃ rest : List Char,
    specifier.toList = e.1.toList ++ rest ∧
      m.resolve source specifier = .ok (e.2 ++ String.ofList rest)
  /-- There is such an entry if the authoritative scope or the top level has one. -/
  decided : (∃ scope, m.Governs source scope ∧ ¬ scope.2.Lacks specifier) ∨
    ¬ m.imports.Lacks specifier → ∃ e, m.Decides source specifier e
  /-- An authoritative scope with an entry decides alone, whatever stands elsewhere. -/
  alone : ∀ scope, m.Governs source scope → ¬ scope.2.Lacks specifier → ∀ m' : ImportMap,
    m'.Governs source scope → m'.resolve source specifier = m.resolve source specifier
  /-- The other scopes do not matter. -/
  others : ∀ m' : ImportMap, m'.imports = m.imports →
    (∀ scope, m'.Governs source scope ↔ m.Governs source scope) →
    m'.resolve source specifier = m.resolve source specifier
  /-- A specifier without an entry is resolved as if there were no import map. -/
  unmapped : (∀ scope, m.Governs source scope → scope.2.Lacks specifier) →
    m.imports.Lacks specifier → m.resolve source specifier = empty.resolve source specifier
  /-- Nothing depends on an order. -/
  order : ∀ m', m.Reordered m' → m'.resolve source specifier = m.resolve source specifier

/-- **main theorem**: the longest entry of the authoritative scope decides, or else the longest one of
the top level, in whatever order they stand. -/
theorem mapped_resolution (m : ImportMap) (source specifier : String) :
    m.Resolves source specifier where
  mapped e he := by
    obtain ⟨rest, hrest⟩ := he.isFor.isPrefix
    exact ⟨rest, hrest.symm, resolve_of_decides he hrest.symm⟩
  decided h := exists_decides_iff.2 h
  alone scope hs hm m' hs' := by
    refine resolve_congr fun e' => ?_
    obtain ⟨e, he⟩ := Mapping.exists_decides hm
    have h : m.Decides source specifier e := .inScope hs he
    have h' : m'.Decides source specifier e := .inScope hs' he
    exact ⟨fun h₁ => h.unique h₁ ▸ h', fun h₁ => h'.unique h₁ ▸ h⟩
  others m' himports hscopes := by
    refine resolve_congr fun e => ?_
    constructor
    · rintro (⟨hs, he⟩ | ⟨hs, he⟩)
      · exact .inScope ((hscopes _).2 hs) he
      · exact .atTop (fun scope hscope => hs scope ((hscopes scope).1 hscope)) (himports ▸ he)
    · rintro (⟨hs, he⟩ | ⟨hs, he⟩)
      · exact .inScope ((hscopes _).1 hs) he
      · exact .atTop (fun scope hscope => hs scope ((hscopes scope).2 hscope)) (himports ▸ he)
  unmapped hscopes himports := by
    refine (resolve_congr fun e => ⟨fun he => ?_, fun he => ?_⟩).symm
    · rcases exists_decides_iff.1 ⟨e, he⟩ with ⟨scope, hs, hm⟩ | hm
      · exact absurd (hscopes scope hs) hm
      · exact absurd himports hm
    · exact absurd he (not_decides_empty source specifier e)
  order m' h := resolve_congr fun _ => ⟨fun he => h.decides he, fun he => h.symm.decides he⟩

/-- Two scopes, one in the other; the inner one has no entry for what begins with `a/`. -/
def nested : ImportMap :=
  ⟨.ofList [("a/", "https://top.test/a/"), ("a/b/", "https://top.test/ab/")],
    .ofList [("https://app.test/", .ofList [("a/", "https://scope.test/a/")]),
      ("https://app.test/in/", .ofList [("c", "https://scope.test/c.ts")])]⟩

example : nested.resolve "https://app.test/x.ts" "a/b/c.ts" = .ok "https://scope.test/a/b/c.ts" ∧
    nested.resolve "https://app.test/in/x.ts" "a/b/c.ts" = .ok "https://top.test/ab/c.ts" := by
  decide

end ImportMap

end ModuleGraph
