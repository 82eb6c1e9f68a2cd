import Mathlib.Tactic.SplitIfs
import ModuleGraph.Table
/-!
# Tables as finite maps

A table is known by two views: `get?`, the value under each key, and `keys`, the keys in the order
in which they came.

Results:
* `get?_insert`: inserting changes the value under one key;
* `keys_insert_of_mem`, `keys_insert_of_not_mem`: a key that is there keeps its place, a new one
  comes last;
* `contains_iff`, `get?_isSome_iff`: a key is there exactly if it has a value;
* `insert_mapValues`: other values under every key, and one more key;
* `eq_of_get?`: the keys in their order and the values under them are all there is to a table;
* `get?_layerWith`, `keys_layerWith`, `layerWith_assoc`: one table on top of another, for any way of
  putting a value on top of a value.
-/

namespace ModuleGraph.Table

variable {α : Type}

theorem lookup_cons_eq_if {κ : Type} [BEq κ] [LawfulBEq κ] [DecidableEq κ] (k key : κ) (value : α)
    (es : List (κ × α)) :
    ((key, value) :: es).lookup k = if k = key then some value else es.lookup k := by
  by_cases h : k = key
  · rw [if_pos h, h, List.lookup_cons_self]
  · have hb : (k == key) = false := by simpa using h
    rw [if_neg h, List.lookup_cons, hb]

theorem lookup_insertEntry (key k : String) (value : α) (es : List (String × α)) :
    (insertEntry key value es).lookup k = if k = key then some value else es.lookup k := by
  induction es with
  | nil => rw [insertEntry, lookup_cons_eq_if]
  | cons e r ih =>
    obtain ⟨k', v⟩ := e
    by_cases he : k' = key
    · rw [insertEntry, if_pos he, lookup_cons_eq_if, lookup_cons_eq_if, he]
      split_ifs <;> rfl
    · rw [insertEntry, if_neg he, lookup_cons_eq_if, lookup_cons_eq_if, ih]
      by_cases hk : k = k'
      · rw [if_pos hk, if_pos hk, if_neg (hk ▸ he)]
      · rw [if_neg hk, if_neg hk]

theorem map_fst_insertEntry_of_mem {key : String} {value : α} {es : List (String × α)}
    (h : key ∈ es.map Prod.fst) : (insertEntry key value es).map Prod.fst = es.map Prod.fst := by
  induction es with
  | nil => simp at h
  | cons e r ih =>
    by_cases he : e.1 = key
    · rw [insertEntry, if_pos he, List.map_cons, List.map_cons, he]
    · rw [List.map_cons, List.mem_cons] at h
      have hr : key ∈ r.map Prod.fst := h.resolve_left fun h => he h.symm
      rw [insertEntry, if_neg he, List.map_cons, List.map_cons, ih hr]

theorem map_fst_insertEntry_of_not_mem {key : String} {value : α} {es : List (String × α)}
    (h : key ∉ es.map Prod.fst) :
    (insertEntry key value es).map Prod.fst = es.map Prod.fst ++ [key] := by
  induction es with
  | nil => rfl
  | cons e r ih =>
    rw [List.map_cons, List.mem_cons, not_or] at h
    rw [insertEntry, if_neg (fun he => h.1 he.symm), List.map_cons, List.map_cons, ih h.2]
    rfl

theorem mem_keys_iff_lookup {k : String} {es : List (String × α)} :
    k ∈ es.map Prod.fst ↔ (es.lookup k).isSome := by
  induction es with
  | nil => simp
  | cons e r ih =>
    obtain ⟨k', v⟩ := e
    rw [List.map_cons, List.mem_cons, lookup_cons_eq_if, ih]
    by_cases hk : k = k' <;> simp [hk]

/-- Inserting changes the value under one key. -/
@[simp] theorem get?_insert (t : Table α) (key k : String) (value : α) :
    (t.insert key value).get? k = if k = key then some value else t.get? k :=
  lookup_insertEntry key k value t.entries

@[simp] theorem get?_empty (k : String) : (empty : Table α).get? k = none := rfl

@[simp] theorem keys_empty : (empty : Table α).keys = [] := rfl

/-- A key has a value exactly if it is one of the keys. -/
theorem get?_isSome_iff (t : Table α) (k : String) : (t.get? k).isSome ↔ k ∈ t.keys :=
  mem_keys_iff_lookup.symm

theorem contains_iff (t : Table α) (k : String) : t.contains k = true ↔ k ∈ t.keys := by
  simp [contains, keys]

theorem keys_insert_of_mem {t : Table α} {key : String} (h : key ∈ t.keys) (value : α) :
    (t.insert key value).keys = t.keys :=
  map_fst_insertEntry_of_mem h

theorem keys_insert_of_not_mem {t : Table α} {key : String} (h : key ∉ t.keys) (value : α) :
    (t.insert key value).keys = t.keys ++ [key] :=
  map_fst_insertEntry_of_not_mem h

theorem keys_nodup (t : Table α) : t.keys.Nodup := t.distinct

/-! ## Tables of lists -/

theorem insertEntry_of_not_mem {key : String} {value : α} {es : List (String × α)}
    (h : key ∉ es.map Prod.fst) : insertEntry key value es = es ++ [(key, value)] := by
  induction es with
  | nil => rfl
  | cons e es ih =>
    rw [List.map_cons, List.mem_cons, not_or] at h
    rw [insertEntry, if_neg (Ne.symm h.1), ih h.2, List.cons_append]

theorem entries_foldl_insert (es : List (String × α)) (t : Table α)
    (h : ((t.entries ++ es).map Prod.fst).Nodup) :
    (es.foldl (fun acc e => acc.insert e.1 e.2) t).entries = t.entries ++ es := by
  induction es generalizing t with
  | nil => rw [List.foldl_nil, List.append_nil]
  | cons e es ih =>
    have hcons : t.entries ++ e :: es = t.entries ++ [e] ++ es := by
      rw [List.append_assoc, List.singleton_append]
    have hnew : e.1 ∉ t.entries.map Prod.fst := by
      rw [List.map_append, List.map_cons] at h
      exact fun hmem => (List.nodup_append.1 h).2.2 _ hmem _ List.mem_cons_self rfl
    have hinsert : (t.insert e.1 e.2).entries = t.entries ++ [e] := insertEntry_of_not_mem hnew
    rw [List.foldl_cons, ih _ (by rwa [hinsert, ← hcons]), hinsert, hcons]

/-- A list with distinct keys is the list of the entries of its table. -/
theorem entries_ofList {es : List (String × α)} (h : (es.map Prod.fst).Nodup) :
    (ofList es).entries = es := by
  rw [ofList, entries_foldl_insert es empty h]
  rfl

theorem ofList_entries (t : Table α) : ofList t.entries = t := by
  have h := entries_ofList t.distinct
  obtain ⟨es, hes⟩ := t
  generalize ofList es = t' at h ⊢
  obtain ⟨es', hes'⟩ := t'
  subst h
  rfl

/-! ## Other values -/

variable {β : Type}

theorem insertEntry_map (f : α → β) (key : String) (value : α) (es : List (String × α)) :
    insertEntry key (f value) (es.map fun e => (e.1, f e.2)) =
      (insertEntry key value es).map fun e => (e.1, f e.2) := by
  induction es with
  | nil => rfl
  | cons e es ih =>
    by_cases he : e.1 = key
    · rw [List.map_cons, insertEntry, insertEntry, if_pos he, if_pos he, List.map_cons]
    · rw [List.map_cons, insertEntry, insertEntry, if_neg he, if_neg he, List.map_cons, ih]

theorem insert_mapValues (f : α → β) (t : Table α) (key : String) (value : α) :
    (t.mapValues f).insert key (f value) = (t.insert key value).mapValues f := by
  unfold insert mapValues
  simp only [insertEntry_map]

@[simp] theorem contains_mapValues (f : α → β) (t : Table α) (key : String) :
    (t.mapValues f).contains key = t.contains key := by
  simp [contains, mapValues, Function.comp_def]

/-! ## Tables on top of one another -/

/-- `t` with the entries of `other` on top, each put under its key by `put`, which sees what stands
there. -/
def layerWith (put : Option α → α → α) (t other : Table α) : Table α :=
  other.entries.foldl (fun acc e => acc.insert e.1 (put (acc.get? e.1) e.2)) t

theorem layer_eq (t other : Table α) : t.layer other = layerWith (fun _ value => value) t other := rfl

theorem lookup_eq_none {k : String} {es : List (String × α)} (h : k ∉ es.map Prod.fst) :
    es.lookup k = none := by
  rwa [← Option.not_isSome_iff_eq_none, ← mem_keys_iff_lookup]

/-- An entry gives its key its value. -/
theorem lookup_of_mem {e : String × α} {es : List (String × α)} (h : (es.map Prod.fst).Nodup)
    (he : e ∈ es) : es.lookup e.1 = some e.2 := by
  induction es with
  | nil => cases he
  | cons x es ih =>
    rw [List.map_cons, List.nodup_cons] at h
    rw [lookup_cons_eq_if]
    rcases List.mem_cons.1 he with rfl | he
    · exact if_pos rfl
    · have hne : e.1 ≠ x.1 := fun heq => h.1 (heq ▸ List.mem_map_of_mem he)
      rw [if_neg hne, ih h.2 he]

theorem get?_of_mem {t : Table α} {e : String × α} (h : e ∈ t.entries) : t.get? e.1 = some e.2 :=
  lookup_of_mem t.distinct h

theorem get?_foldl_put (put : Option α → α → α) {es : List (String × α)}
    (h : (es.map Prod.fst).Nodup) (t : Table α) (k : String) :
    (es.foldl (fun acc e => acc.insert e.1 (put (acc.get? e.1) e.2)) t).get? k =
      ((es.lookup k).map (put (t.get? k))).or (t.get? k) := by
  induction es generalizing t with
  | nil => rfl
  | cons e es ih =>
    rw [List.map_cons, List.nodup_cons] at h
    rw [List.foldl_cons, ih h.2, lookup_cons_eq_if, get?_insert]
    by_cases hk : k = e.1
    · rw [if_pos hk, if_pos hk, hk, lookup_eq_none h.1]
      rfl
    · rw [if_neg hk, if_neg hk]

/-- Under a key that both have stands what `put` makes of both values. -/
theorem get?_layerWith (put : Option α → α → α) (t other : Table α) (k : String) :
    (layerWith put t other).get? k = ((other.get? k).map (put (t.get? k))).or (t.get? k) :=
  get?_foldl_put put other.distinct t k

theorem keys_foldl_put (put : Option α → α → α) {es : List (String × α)}
    (h : (es.map Prod.fst).Nodup) (t : Table α) :
    (es.foldl (fun acc e => acc.insert e.1 (put (acc.get? e.1) e.2)) t).keys =
      t.keys ++ (es.map Prod.fst).filter fun k => k ∉ t.keys := by
  induction es generalizing t with
  | nil => rw [List.foldl_nil, List.map_nil, List.filter_nil, List.append_nil]
  | cons e es ih =>
    rw [List.map_cons, List.nodup_cons] at h
    rw [List.foldl_cons, ih h.2, List.map_cons]
    by_cases hmem : e.1 ∈ t.keys
    · rw [keys_insert_of_mem hmem, List.filter_cons_of_neg (by simpa using hmem)]
    · have hrest : (es.map Prod.fst).filter (fun k => k ∉ t.keys ++ [e.1]) =
          (es.map Prod.fst).filter fun k => k ∉ t.keys := by
        refine List.filter_congr fun k hk => ?_
        have hne : k ≠ e.1 := fun heq => h.1 (heq ▸ hk)
        simp [hne]
      rw [keys_insert_of_not_mem hmem, List.filter_cons_of_pos (by simpa using hmem), hrest,
        List.append_assoc, List.singleton_append]

/-- The keys of `t` keep their places; the new ones come behind them, in their order. -/
theorem keys_layerWith (put : Option α → α → α) (t other : Table α) :
    (layerWith put t other).keys = t.keys ++ other.keys.filter fun k => k ∉ t.keys :=
  keys_foldl_put put other.distinct t

theorem mem_keys_layerWith (put : Option α → α → α) (t other : Table α) (k : String) :
    k ∈ (layerWith put t other).keys ↔ k ∈ t.keys ∨ k ∈ other.keys := by
  rw [keys_layerWith, List.mem_append, List.mem_filter]
  by_cases hk : k ∈ t.keys <;> simp [hk]

theorem entries_eq_of_lookup {es es' : List (String × α)} (h : (es.map Prod.fst).Nodup)
    (hkeys : es.map Prod.fst = es'.map Prod.fst) (hlookup : ∀ k, es.lookup k = es'.lookup k) :
    es = es' := by
  induction es generalizing es' with
  | nil => exact (List.map_eq_nil_iff.1 hkeys.symm).symm
  | cons e es ih =>
    obtain ⟨key, value⟩ := e
    obtain _ | ⟨⟨key', value'⟩, es'⟩ := es'
    · cases hkeys
    obtain ⟨rfl, hrest⟩ : key = key' ∧ es.map Prod.fst = es'.map Prod.fst := List.cons.inj hkeys
    have hfirst := hlookup key
    rw [lookup_cons_eq_if, lookup_cons_eq_if, if_pos rfl, if_pos rfl, Option.some.injEq] at hfirst
    rw [List.map_cons, List.nodup_cons] at h
    rw [hfirst, ih h.2 hrest fun k => ?_]
    have hk := hlookup k
    rw [lookup_cons_eq_if, lookup_cons_eq_if] at hk
    by_cases heq : k = key
    · rw [heq, lookup_eq_none h.1, lookup_eq_none (hrest ▸ h.1)]
    · rwa [if_neg heq, if_neg heq] at hk

/-- A table is known by its keys in their order and the values under them. -/
theorem eq_of_get? {t t' : Table α} (hkeys : t.keys = t'.keys)
    (hget : ∀ k, t.get? k = t'.get? k) : t = t' := by
  have h : t.entries = t'.entries := entries_eq_of_lookup t.distinct hkeys hget
  obtain ⟨es, hes⟩ := t
  obtain ⟨es', hes'⟩ := t'
  cases h
  rfl

section

variable {put : Option α → α → α} (hnew : ∀ value, put none value = value)

include hnew

theorem layerWith_empty_left (t : Table α) : layerWith put empty t = t := by
  refine eq_of_get? ?_ fun k => ?_
  · rw [keys_layerWith, keys_empty, List.nil_append, List.filter_eq_self]
    exact fun k _ => decide_eq_true List.not_mem_nil
  · rw [get?_layerWith, get?_empty, Option.or_none]
    cases t.get? k with
    | none => rfl
    | some value => exact congrArg some (hnew value)

/-- Layering is associative if putting one value after the other is putting what they come to. -/
theorem layerWith_assoc (hput : ∀ value x y, put (some (put value x)) y = put value (put (some x) y))
    (a b c : Table α) :
    layerWith put (layerWith put a b) c = layerWith put a (layerWith put b c) := by
  refine eq_of_get? ?_ fun k => ?_
  · rw [keys_layerWith, keys_layerWith, keys_layerWith, keys_layerWith, List.filter_append,
      List.filter_filter, List.append_assoc]
    congr 2
    refine List.filter_congr fun k _ => ?_
    by_cases ha : k ∈ a.keys <;> by_cases hb : k ∈ b.keys <;> simp [ha, hb]
  · rw [get?_layerWith, get?_layerWith, get?_layerWith, get?_layerWith]
    cases a.get? k <;> cases b.get? k <;> cases c.get? k <;> simp [hnew, hput]

end

theorem layer_assoc (a b c : Table α) : (a.layer b).layer c = a.layer (b.layer c) := by
  simp only [layer_eq]
  exact layerWith_assoc (fun _ => rfl) (fun _ _ _ => rfl) a b c

@[simp] theorem empty_layer (t : Table α) : empty.layer t = t := by
  rw [layer_eq]
  exact layerWith_empty_left (fun _ => rfl) t

@[simp] theorem layer_empty (t : Table α) : t.layer empty = t := rfl

end ModuleGraph.Table
