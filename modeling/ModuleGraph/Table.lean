/-!
# Tables

Finite maps from texts that remember the order in which their keys first came. A key stands in
a table once; a later value for it takes the place of the earlier one.
-/

namespace ModuleGraph

/-- A finite map with texts as keys, in the order in which the keys came. -/
structure Table (α : Type) where
  entries : List (String × α)
  distinct : (entries.map Prod.fst).Nodup

namespace Table

variable {α : Type}

/-- A value for `key` in the place of the earlier one, or at the end. -/
def insertEntry (key : String) (value : α) : List (String × α) → List (String × α)
  | [] => [(key, value)]
  | e :: r => if e.1 = key then (key, value) :: r else e :: insertEntry key value r

theorem mem_keys_insertEntry {key k : String} {value : α} {es : List (String × α)} :
    k ∈ (insertEntry key value es).map Prod.fst ↔ k = key ∨ k ∈ es.map Prod.fst := by
  induction es with
  | nil => simp [insertEntry]
  | cons e r ih =>
    by_cases h : e.1 = key
    · simp [insertEntry, h]
    · rw [insertEntry, if_neg h, List.map_cons, List.mem_cons, ih, List.map_cons, List.mem_cons]
      exact or_left_comm

theorem nodup_insertEntry {key : String} {value : α} {es : List (String × α)}
    (h : (es.map Prod.fst).Nodup) : ((insertEntry key value es).map Prod.fst).Nodup := by
  induction es with
  | nil => simp [insertEntry]
  | cons e r ih =>
    rw [List.map_cons, List.nodup_cons] at h
    by_cases he : e.1 = key
    · rw [insertEntry, if_pos he, List.map_cons, List.nodup_cons]
      exact ⟨he ▸ h.1, h.2⟩
    · rw [insertEntry, if_neg he, List.map_cons, List.nodup_cons]
      refine ⟨fun hm => ?_, ih h.2⟩
      rcases mem_keys_insertEntry.1 hm with hk | hk
      · exact he hk
      · exact h.1 hk

/-- The table without keys. -/
def empty : Table α := ⟨[], List.nodup_nil⟩

instance : Inhabited (Table α) := ⟨empty⟩

/-- The table with `value` under `key`. A key that is there keeps its place, a new one comes
last. -/
def insert (t : Table α) (key : String) (value : α) : Table α :=
  ⟨insertEntry key value t.entries, nodup_insertEntry t.distinct⟩

/-- The value under a key. -/
def get? (t : Table α) (key : String) : Option α := t.entries.lookup key

/-- The key stands in the table. -/
def contains (t : Table α) (key : String) : Bool := t.entries.any (·.1 = key)

/-- The keys in their order. -/
def keys (t : Table α) : List String := t.entries.map Prod.fst

/-- The number of keys. -/
def size (t : Table α) : Nat := t.entries.length

/-- `t` with the entries of `other` on top. -/
def layer (t other : Table α) : Table α :=
  other.entries.foldl (fun acc e => acc.insert e.1 e.2) t

/-- The table of a list of entries, of which later ones take the place of earlier ones. -/
def ofList (es : List (String × α)) : Table α :=
  es.foldl (fun acc e => acc.insert e.1 e.2) empty

/-- Another value under every key. -/
def mapValues {β : Type} (f : α → β) (t : Table α) : Table β :=
  ⟨t.entries.map fun e => (e.1, f e.2), by
    simpa [List.map_map, Function.comp_def] using t.distinct⟩

end Table

end ModuleGraph
