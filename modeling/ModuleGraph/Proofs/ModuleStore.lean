import ModuleGraph.ModuleStore
import ModuleGraph.Proofs.Table
/-!
# Operations of the module store

Each operation is described by what it does to two views: `text?`, which tells a path that is not
reserved from one that is reserved and from one with its final text, and the paths in the order of
their reservation.

Results:
* `reserve_of_contains`, `reserve_of_not_contains`: a path is claimed once, and comes last;
* `fill_eq_ok_iff`: a text is accepted exactly for a path that is reserved and not yet filled, and
  changes nothing else;
* `add_eq_ok_iff`: a file that is known up front is accepted exactly under a free path.
-/

namespace ModuleGraph.ModuleStore

/-- What is stored under a path: nothing, a claim (`some none`), or its final text. -/
def text? (s : ModuleStore) (path : String) : Option (Option String) := s.files.get? path

@[simp] theorem text?_empty (path : String) : empty.text? path = none := rfl

@[simp] theorem paths_empty : empty.paths = [] := rfl

theorem contains_iff_mem (s : ModuleStore) (path : String) :
    s.contains path = true ↔ path ∈ s.paths :=
  s.files.contains_iff path

theorem text?_isSome_iff (s : ModuleStore) (path : String) :
    (s.text? path).isSome ↔ path ∈ s.paths :=
  s.files.get?_isSome_iff path

theorem contains_iff_text? (s : ModuleStore) (path : String) :
    s.contains path = true ↔ (s.text? path).isSome := by
  rw [contains_iff_mem, text?_isSome_iff]

theorem contains_of_text? {s : ModuleStore} {path : String} {v : Option String}
    (h : s.text? path = some v) : s.contains path = true := by
  rw [contains_iff_text?, h]
  rfl

theorem text?_eq_none_iff (s : ModuleStore) (path : String) :
    s.text? path = none ↔ s.contains path = false := by
  rw [← Option.not_isSome_iff_eq_none, text?_isSome_iff, ← contains_iff_mem, Bool.not_eq_true]

theorem isSettled_iff (s : ModuleStore) (path : String) :
    s.isSettled path = true ↔ ∃ text, s.text? path = some (some text) := by
  unfold isSettled text?
  split
  · next h => simp [h]
  · next h => simpa using h

theorem paths_nodup (s : ModuleStore) : s.paths.Nodup := s.files.keys_nodup

/-! ## Claiming a path -/

/-- The store in which a path is claimed that was free. -/
def claimed (s : ModuleStore) (path : String) : ModuleStore := ⟨s.files.insert path none⟩

theorem reserve_of_contains {s : ModuleStore} {path : String} (h : s.contains path = true) :
    s.reserve path = (false, s) := by
  rw [reserve, if_pos h]

theorem reserve_of_not_contains {s : ModuleStore} {path : String} (h : s.contains path = false) :
    s.reserve path = (true, s.claimed path) := by
  rw [reserve, if_neg (by simp [h]), claimed]

@[simp] theorem text?_claimed (s : ModuleStore) (path p : String) :
    (s.claimed path).text? p = if p = path then some none else s.text? p :=
  s.files.get?_insert path p none

theorem contains_claimed (s : ModuleStore) (path p : String) :
    (s.claimed path).contains p = true ↔ p = path ∨ s.contains p = true := by
  rw [contains_iff_text?, contains_iff_text?, text?_claimed]
  by_cases h : p = path <;> simp [h]

theorem paths_claimed {s : ModuleStore} {path : String} (h : s.contains path = false) :
    (s.claimed path).paths = s.paths ++ [path] := by
  apply Table.keys_insert_of_not_mem
  intro hm
  rw [(s.contains_iff_mem path).2 hm] at h
  cases h

/-! ## Filling a path -/

/-- The store in which a path has its final text. -/
def filled (s : ModuleStore) (path text : String) : ModuleStore :=
  ⟨s.files.insert path (some text)⟩

@[simp] theorem text?_filled (s : ModuleStore) (path text p : String) :
    (s.filled path text).text? p = if p = path then some (some text) else s.text? p :=
  s.files.get?_insert path p (some text)

theorem contains_filled (s : ModuleStore) (path text p : String) :
    (s.filled path text).contains p = true ↔ p = path ∨ s.contains p = true := by
  rw [contains_iff_text?, contains_iff_text?, text?_filled]
  by_cases h : p = path <;> simp [h]

theorem paths_filled {s : ModuleStore} {path : String} (h : s.contains path = true)
    (text : String) : (s.filled path text).paths = s.paths :=
  Table.keys_insert_of_mem ((s.contains_iff_mem path).1 h) _

/-- A text is accepted exactly for a path that is reserved and not yet filled. -/
theorem fill_eq_ok_iff (s s' : ModuleStore) (path text : String) :
    s.fill path text = .ok s' ↔ s.text? path = some none ∧ s' = s.filled path text := by
  unfold fill text? filled
  rcases h : s.files.get? path with _ | _ | old
  · simp
  · simp [eq_comm]
  · simp

theorem fill_of_reserved {s : ModuleStore} {path : String} (h : s.text? path = some none)
    (text : String) : s.fill path text = .ok (s.filled path text) :=
  (fill_eq_ok_iff ..).2 ⟨h, rfl⟩

/-- A file that is known up front is accepted exactly under a free path. -/
theorem add_eq_ok_iff (s s' : ModuleStore) (path text : String) :
    s.add path text = .ok s' ↔
      s.contains path = false ∧ s' = (s.claimed path).filled path text := by
  unfold add
  cases h : s.contains path with
  | true => simp [reserve_of_contains h]
  | false => simp [reserve_of_not_contains h, fill_eq_ok_iff]

end ModuleGraph.ModuleStore
