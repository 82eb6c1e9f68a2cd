import ModuleGraph.Proofs.ImportMap
/-!
# Import maps on top of one another

The entries of one import map are put on top of those of another, scope by scope. What decides about
a specifier is found in the layers one by one: the longest entry of a layered mapping is the longer
one of the longest entries of both, and where these are as long as each other they have one key, under
which the upper layer's target stands. The same goes for scopes, but that a scope of both layers has
the entries of both.

Import maps are values. Layering makes a new one, and the two that it is made of are what they were.

Results:
* `Found.append`: what the loop finds in two lists is the longer one of what it finds in either;
* `Mapping.match?_layer`: the longest entry of a layered mapping;
* `ImportMap.scopedMatch?_merged`: the longest entry of a scope of a layered import map;
* `ImportMap.layering`: **main theorem**: layers can be put together in any grouping, and entries and
  scopes are found in them one by one.
-/

namespace ModuleGraph

variable {α : Type}

/-! ## The longer of two candidates -/

/-- The first candidate, unless the second one is longer. -/
def unlessLonger (x : Option (String × α)) : Option (String × α) → Option (String × α)
  | none => x
  | some e => longerOf x e

section

variable {x y : Option (String × α)} {e : String × α}

theorem unlessLonger_eq_some (h : unlessLonger x y = some e) :
    (x = some e ∧ ∀ d, y = some d → d.1.length ≤ e.1.length) ∨
      (y = some e ∧ ∀ b, x = some b → b.1.length < e.1.length) := by
  cases y with
  | none => exact .inl ⟨h, fun d hd => by cases hd⟩
  | some d =>
    cases x with
    | none => exact .inr ⟨h, fun b hb => by cases hb⟩
    | some b =>
      rw [unlessLonger, longerOf] at h
      split_ifs at h with hlt
      · cases h
        refine .inr ⟨rfl, fun b' hb => ?_⟩
        cases hb
        exact hlt
      · cases h
        refine .inl ⟨rfl, fun d' hd => ?_⟩
        cases hd
        exact Nat.le_of_not_lt hlt

theorem unlessLonger_eq_none (h : unlessLonger x y = none) : x = none ∧ y = none := by
  cases y with
  | none => exact ⟨h, rfl⟩
  | some d =>
    cases x with
    | none => cases h
    | some b =>
      rw [unlessLonger, longerOf] at h
      split_ifs at h

theorem unlessLonger_none_left (y : Option (String × α)) : unlessLonger none y = y := by
  cases y <;> rfl

end

section

variable {p : String → Bool} {xs ys : List (String × α)} {x y : Option (String × α)}

/-- What is found is as long as any candidate. -/
theorem Found.exists_of_mem (h : Found p xs x) {e : String × α} (he : e ∈ xs)
    (hp : p e.1 = true) : ∃ b, x = some b ∧ e.1.length ≤ b.1.length := by
  cases x with
  | none =>
    rw [h e he] at hp
    cases hp
  | some b => exact ⟨b, rfl, h.longest e he hp⟩

/-- What is found in two lists is the longer one of what is found in either. -/
theorem Found.append (hx : Found p xs x) (hy : Found p ys y) :
    Found p (xs ++ ys) (unlessLonger x y) := by
  cases hz : unlessLonger x y with
  | none =>
    obtain ⟨rfl, rfl⟩ := unlessLonger_eq_none hz
    intro e he
    exact (List.mem_append.1 he).elim (hx e) (hy e)
  | some e =>
    rcases unlessLonger_eq_some hz with ⟨rfl, hle⟩ | ⟨rfl, hlt⟩
    · refine ⟨List.mem_append_left _ hx.mem, hx.candidate, fun e' he' hp => ?_⟩
      rcases List.mem_append.1 he' with he' | he'
      · exact hx.longest e' he' hp
      · obtain ⟨d, hd, hlen⟩ := hy.exists_of_mem he' hp
        exact hlen.trans (hle d hd)
    · refine ⟨List.mem_append_right _ hy.mem, hy.candidate, fun e' he' hp => ?_⟩
      rcases List.mem_append.1 he' with he' | he'
      · obtain ⟨b, hb, hlen⟩ := hx.exists_of_mem he' hp
        exact hlen.trans (hlt b hb).le
      · exact hy.longest e' he' hp

/-- What is longer than what is found has none of the keys that were searched. -/
theorem Found.not_mem_keys (h : Found p xs x) {e : String × α} (hp : p e.1 = true)
    (hlonger : ∀ b, x = some b → b.1.length < e.1.length) : e.1 ∉ xs.map Prod.fst := by
  intro hmem
  obtain ⟨d, hd, hkey⟩ := List.mem_map.1 hmem
  obtain ⟨b, hb, hle⟩ := h.exists_of_mem hd (hkey ▸ hp)
  exact absurd (hlonger b hb) (Nat.not_lt.2 (hkey ▸ hle))

end

section

variable {p : String → Bool} {s : String} (hp : ∀ key, p key = true → key.toList <+: s.toList)

include hp

/-- Only the keys are searched. -/
theorem map_fst_longestAmong {t : Table α} {es : List (String × α)}
    (hkeys : ∀ k, k ∈ t.keys ↔ k ∈ es.map Prod.fst) {best : Option (String × α)}
    (h : Found p es best) : (longestAmong p t.entries).map Prod.fst = best.map Prod.fst := by
  cases best with
  | none =>
    have hnone : longestAmong p t.entries = none := by
      rw [longestAmong_eq_none_iff]
      intro e he
      obtain ⟨e', he', hkey⟩ := List.mem_map.1 ((hkeys e.1).1 (List.mem_map_of_mem he))
      rw [← hkey]
      exact h e' he'
    rw [hnone]
  | some b =>
    obtain ⟨e, he, hkey⟩ := List.mem_map.1 ((hkeys b.1).2 (List.mem_map_of_mem h.mem))
    have hlongest : longestAmong p t.entries = some e := by
      refine (longestAmong_eq_some_iff hp).2 ⟨he, hkey ▸ h.candidate, fun e' he' hp' => ?_⟩
      obtain ⟨d, hd, hkey'⟩ := List.mem_map.1 ((hkeys e'.1).1 (List.mem_map_of_mem he'))
      rw [← hkey', hkey]
      exact h.longest d hd (hkey' ▸ hp')
    rw [hlongest]
    exact congrArg some hkey

/-- The key that is found in a layered table. -/
theorem map_fst_longestAmong_layerWith (put : Option α → α → α) (lower upper : Table α) :
    (longestAmong p (Table.layerWith put lower upper).entries).map Prod.fst =
      (unlessLonger (longestAmong p upper.entries) (longestAmong p lower.entries)).map Prod.fst := by
  refine map_fst_longestAmong hp (fun k => ?_)
    ((found_longestAmong p upper.entries).append (found_longestAmong p lower.entries))
  rw [Table.mem_keys_layerWith, List.map_append, List.mem_append, or_comm]
  rfl

/-- The entry that is found where upper values take the place of lower ones. -/
theorem longestAmong_layer (lower upper : Table α) :
    longestAmong p (lower.layer upper).entries =
      unlessLonger (longestAmong p upper.entries) (longestAmong p lower.entries) := by
  have hkey := map_fst_longestAmong_layerWith hp (fun _ value => value) lower upper
  have hupper := found_longestAmong p upper.entries
  have hlower := found_longestAmong p lower.entries
  have hlayer := found_longestAmong p (lower.layer upper).entries
  rw [← Table.layer_eq] at hkey
  cases hz : unlessLonger (longestAmong p upper.entries) (longestAmong p lower.entries) with
  | none =>
    rw [hz] at hkey
    exact Option.map_eq_none_iff.1 hkey
  | some e =>
    rw [hz] at hkey
    obtain ⟨e', he', hfst⟩ := Option.map_eq_some_iff.1 hkey
    rw [he'] at hlayer ⊢
    have hvalue : (lower.layer upper).get? e.1 = some e.2 := by
      rw [Table.layer_eq, Table.get?_layerWith]
      rcases unlessLonger_eq_some hz with ⟨hx, -⟩ | ⟨hy, hlonger⟩
      · rw [hx] at hupper
        rw [Table.get?_of_mem hupper.mem]
        rfl
      · rw [hy] at hlower
        have hnone : upper.get? e.1 = none :=
          Table.lookup_eq_none (hupper.not_mem_keys hlower.candidate hlonger)
        rw [hnone, Table.get?_of_mem hlower.mem]
        rfl
    rw [← hfst, Table.get?_of_mem hlayer.mem] at hvalue
    rw [Prod.ext hfst (Option.some.inj hvalue)]

end

/-- The longest entry of a layered mapping for a specifier is that of the upper layer, unless that of
the lower one is longer. -/
theorem Mapping.match?_layer (lower upper : Mapping) (specifier : String) :
    match? (lower.layer upper) specifier =
      unlessLonger (match? upper specifier) (match? lower specifier) := by
  rw [match?_eq, match?_eq, match?_eq,
    longestAmong_layer fun key hkey => (matchesSpecifier_iff.1 hkey).isPrefix]

/-! ## Layered import maps -/

namespace ImportMap

/-- The entries of a scope with those of an upper layer on top. -/
def putScope (lower : Option Mapping) (upper : Mapping) : Mapping :=
  (lower.getD .empty).layer upper

theorem layerScopes_eq (scopes other : Table Mapping) :
    layerScopes scopes other = Table.layerWith putScope scopes other := rfl

theorem putScope_none (upper : Mapping) : putScope none upper = upper := Table.empty_layer upper

theorem putScope_putScope (lower : Option Mapping) (x y : Mapping) :
    putScope (some (putScope lower x)) y = putScope lower (putScope (some x) y) :=
  Table.layer_assoc _ x y

theorem merged_assoc (a b c : ImportMap) : (a.merged b).merged c = a.merged (b.merged c) := by
  unfold merged
  simp only [layerScopes_eq]
  rw [Table.layer_assoc, Table.layerWith_assoc putScope_none putScope_putScope]

theorem empty_merged (a : ImportMap) : empty.merged a = a := by
  unfold merged empty
  rw [layerScopes_eq, Table.empty_layer, Table.layerWith_empty_left putScope_none]

/-- The longest entry of a scope; a scope that is not there has none. -/
def scopedMatch? (m : ImportMap) (scope specifier : String) : Option (String × String) :=
  (m.scopes.get? scope).bind fun mapping => Mapping.match? mapping specifier

theorem scopedMatch?_merged (a b : ImportMap) (scope specifier : String) :
    (a.merged b).scopedMatch? scope specifier =
      unlessLonger (b.scopedMatch? scope specifier) (a.scopedMatch? scope specifier) := by
  unfold scopedMatch? merged
  rw [layerScopes_eq, Table.get?_layerWith]
  cases b.scopes.get? scope with
  | none =>
    rw [Option.bind_none, unlessLonger_none_left]
    rfl
  | some upper =>
    cases a.scopes.get? scope with
    | none =>
      rw [Option.map_some, putScope_none]
      rfl
    | some lower => exact Mapping.match?_layer lower upper specifier

/-- How two import maps, and three, come to be one. -/
structure Layering (a b c : ImportMap) : Prop where
  /-- The order of entries and scopes is part of an import map. -/
  assoc : (a.merged b).merged c = a.merged (b.merged c)
  empty_right : a.merged empty = a
  empty_left : empty.merged a = a
  /-- What the lower layer has keeps its place, what is new comes behind it. -/
  order : (a.merged b).imports.keys =
    a.imports.keys ++ b.imports.keys.filter (fun k => k ∉ a.imports.keys)
  scopeOrder : (a.merged b).scopes.keys =
    a.scopes.keys ++ b.scopes.keys.filter (fun k => k ∉ a.scopes.keys)
  /-- At the top level, the longer of the matches is the match, that of the upper layer where both are
  as long as each other. -/
  atTop : ∀ specifier, Mapping.match? (a.merged b).imports specifier =
    unlessLonger (Mapping.match? b.imports specifier) (Mapping.match? a.imports specifier)
  /-- So it is in every scope. -/
  inScope : ∀ scope specifier, (a.merged b).scopedMatch? scope specifier =
    unlessLonger (b.scopedMatch? scope specifier) (a.scopedMatch? scope specifier)
  /-- The longer of the authoritative scopes is the authoritative one. -/
  governing : ∀ source, ((a.merged b).scopeFor? source).map Prod.fst =
    (unlessLonger (b.scopeFor? source) (a.scopeFor? source)).map Prod.fst

/-- **main theorem**: layers can be put together in any grouping, and what decides in them is found one
by one. -/
theorem layering (a b c : ImportMap) : Layering a b c where
  assoc := merged_assoc a b c
  empty_right := rfl
  empty_left := empty_merged a
  order := Table.keys_layerWith (fun _ value => value) a.imports b.imports
  scopeOrder := Table.keys_layerWith putScope a.scopes b.scopes
  atTop specifier := Mapping.match?_layer a.imports b.imports specifier
  inScope scope specifier := scopedMatch?_merged a b scope specifier
  governing source := by
    rw [scopeFor?_eq, scopeFor?_eq, scopeFor?_eq]
    exact map_fst_longestAmong_layerWith (fun key hkey => Text.startsWith_iff.1 hkey) putScope _ _

/-- A layer on top of `nested`, with a shorter entry than it has. -/
def overNested : ImportMap :=
  ⟨.ofList [("a/", "https://over.test/a/")],
    .ofList [("https://app.test/", .ofList [("a/", "https://over.test/scope/")])]⟩

example : let m := nested.merged overNested
    m.resolve "https://else.test/x.ts" "a/b/c.ts" = .ok "https://top.test/ab/c.ts" ∧
    m.resolve "https://else.test/x.ts" "a/c.ts" = .ok "https://over.test/a/c.ts" ∧
    m.resolve "https://app.test/x.ts" "a/b/c.ts" = .ok "https://over.test/scope/b/c.ts" := by
  decide

end ImportMap

end ModuleGraph
