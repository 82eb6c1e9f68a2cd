import ModuleGraph.Loading.Schedule
import ModuleGraph.Proofs.ModuleStore
/-!
# What a load task is after

A task that is ready aims at a path: it works out which path it would claim, and which URLs may have
the text. Whatever becomes of that is told here by the demand of the task: its aim, its verdict on a
fault, what it tells of it, and how its phase goes on.

Results:
* `Demand.aim`: the path that a task tries to claim, and the URLs that it then fetches;
* `aimAt_eq_ok_iff`, `aim_target_eq_ok_iff`, `aim_library_eq_ok_iff`: when there is something to aim
  at;
* `Demand.aim_urls`: the URL of the module comes first, with at most one other behind it.
-/

namespace ModuleGraph

/-- The path of a module that a notice says is loaded. -/
def Notice.loaded? : Notice → Option String
  | .event (.fileLoaded _ path _ _) => some path
  | _ => none

namespace Loading

variable {σ : Type}

/-- The phase holds a claim: the task has reserved a path and is not done with it. -/
def Phase.claim? : Phase → Option Claim
  | .fetching k _ _ => some k
  | .rewriting k _ => some k
  | _ => none

/-- The claim on the path of `asUrl` for the module at `url`, with the URLs that may have the
text. -/
def aimAt (url asUrl : String) (fallbacks : List String) : Except Fault (Claim × List String) :=
  match virtualPath asUrl with
  | .error e => .error (.module url e)
  | .ok path => .ok (⟨url, path⟩, url :: fallbacks)

/-- What a task tries to claim, with the URLs that may have the text in the order in which they
are fetched; or the fault that keeps it from claiming anything. -/
def Demand.aim (c : Setting σ) : Demand → Except Fault (Claim × List String)
  | .module url asUrl => aimAt url asUrl []
  | .target source t =>
    match c.importMap.resolve source t.specifier with
    | .error e => .error e
    | .ok url => aimAt url url []
  | .library name | .required name =>
    match Library.primaryUrl c.libraryDir name, Library.fallbackUrl c.bundledDir name with
    | .ok url, .ok fallback => aimAt url url [fallback]
    | .error p, _ | _, .error p => .error (.foreign (.ofUrl p))

theorem aimAt_eq_ok_iff (url asUrl : String) (fallbacks urls : List String) (k : Claim) :
    aimAt url asUrl fallbacks = .ok (k, urls) ↔
      k.url = url ∧ virtualPath asUrl = .ok k.path ∧ urls = url :: fallbacks := by
  unfold aimAt
  cases hp : virtualPath asUrl with
  | error e =>
    constructor
    · intro h
      cases h
    · rintro ⟨-, hpath, -⟩
      cases hpath
  | ok path =>
    constructor
    · intro h
      cases h
      exact ⟨rfl, rfl, rfl⟩
    · rintro ⟨rfl, hpath, rfl⟩
      rw [Except.ok.injEq] at hpath
      rw [hpath]

theorem aimAt_eq_error_iff (url asUrl : String) (fallbacks : List String) (e : Fault) :
    aimAt url asUrl fallbacks = .error e ↔
      ∃ cause, virtualPath asUrl = .error cause ∧ e = .module url cause := by
  unfold aimAt
  cases hp : virtualPath asUrl with
  | error cause =>
    constructor
    · intro h
      cases h
      exact ⟨cause, rfl, rfl⟩
    · rintro ⟨_, hcause, rfl⟩
      cases hcause
      rfl
  | ok path =>
    constructor
    · intro h
      cases h
    · rintro ⟨_, hcause, -⟩
      cases hcause

theorem aim_target_eq_ok_iff (c : Setting σ) (source : String) (t : Target) (k : Claim)
    (urls : List String) : (Demand.target source t).aim c = .ok (k, urls) ↔
      c.importMap.resolve source t.specifier = .ok k.url ∧ virtualPath k.url = .ok k.path ∧
        urls = [k.url] := by
  unfold Demand.aim
  dsimp only
  cases hr : c.importMap.resolve source t.specifier with
  | error e => simp
  | ok url =>
    dsimp only
    rw [aimAt_eq_ok_iff, Except.ok.injEq]
    constructor
    · rintro ⟨rfl, hpath, rfl⟩
      exact ⟨rfl, hpath, rfl⟩
    · rintro ⟨rfl, hpath, rfl⟩
      exact ⟨rfl, hpath, rfl⟩

theorem aim_library_eq_ok_iff (c : Setting σ) (name : String) (k : Claim) (urls : List String) :
    (Demand.library name).aim c = .ok (k, urls) ↔
      Library.primaryUrl c.libraryDir name = .ok k.url ∧ virtualPath k.url = .ok k.path ∧
        ∃ fallback, Library.fallbackUrl c.bundledDir name = .ok fallback ∧
          urls = [k.url, fallback] := by
  unfold Demand.aim
  dsimp only
  cases hurl : Library.primaryUrl c.libraryDir name with
  | error p => simp
  | ok url =>
    cases hfallback : Library.fallbackUrl c.bundledDir name with
    | error p => simp
    | ok fallback =>
      dsimp only
      rw [aimAt_eq_ok_iff, Except.ok.injEq]
      constructor
      · rintro ⟨rfl, hpath, rfl⟩
        exact ⟨rfl, hpath, fallback, rfl, rfl⟩
      · rintro ⟨rfl, hpath, _, hfallback', rfl⟩
        cases hfallback'
        exact ⟨rfl, hpath, rfl⟩

/-- The first URL that may have the text is that of the claim, and there is one more at most. -/
theorem Demand.aim_urls {c : Setting σ} {d : Demand} {k : Claim} {urls : List String}
    (h : d.aim c = .ok (k, urls)) :
    ∃ fallbacks, urls = k.url :: fallbacks ∧ fallbacks.length ≤ 1 := by
  cases d with
  | module url asUrl =>
    obtain ⟨rfl, -, rfl⟩ := (aimAt_eq_ok_iff ..).1 h
    exact ⟨[], rfl, Nat.zero_le 1⟩
  | target source t =>
    obtain ⟨-, -, rfl⟩ := (aim_target_eq_ok_iff ..).1 h
    exact ⟨[], rfl, Nat.zero_le 1⟩
  | library name =>
    obtain ⟨-, -, fallback, -, rfl⟩ := (aim_library_eq_ok_iff ..).1 h
    exact ⟨[fallback], rfl, Nat.le_refl 1⟩
  | required name =>
    obtain ⟨-, -, fallback, -, rfl⟩ := (aim_library_eq_ok_iff c name k urls).1 h
    exact ⟨[fallback], rfl, Nat.le_refl 1⟩

/-- How a task ends whose load has a fault. -/
def Demand.verdict : Demand → Fault → Outcome
  | .module .., e => .failed e
  | .target .., e | .library _, e => if e.isOwn then .reported else .failed e
  | .required name, e => .failed (if e.isOwn then .library name (e.describe false) else e)

/-- What is told of a load that has a fault. -/
def Demand.complaint : Demand → Fault → List Notice
  | .target source t, e => if e.isOwn then [.event (Rewrite.report source t e)] else []
  | .library name, e => if e.isOwn then [.event (.libraryMissing name (e.describe false))] else []
  | _, _ => []

theorem loaded?_of_mem_complaint {d : Demand} {e : Fault} {n : Notice} (h : n ∈ d.complaint e) :
    n.loaded? = none := by
  unfold Demand.complaint at h
  split at h
  · split_ifs at h
    · rw [List.mem_singleton] at h
      rw [h]
      rfl
    · cases h
  · split_ifs at h
    · rw [List.mem_singleton] at h
      rw [h]
      rfl
    · cases h
  · cases h

/-- How a task may end whose load yields a path: with that path, unless the draft that asked for it
refuses the edit. -/
def Demand.Yields (d : Demand) (path : String) (o : Outcome) : Prop :=
  o = .loaded path ∨ (∃ source t, d = .target source t) ∧ ∃ e, o = .failed e

/-- What is known of the end of a task from what its load yields. -/
def Demand.Ends (d : Demand) : Except Fault String → Outcome → Prop
  | .error e, o => o = d.verdict e
  | .ok path, o => d.Yields path o

/-- The same task, into whose draft an edit may have been written. -/
inductive Task.Kept : Task → Task → Prop
  | same (t : Task) : Kept t t
  | edited {t : Task} {k : Claim} {d : Draft} (h : t.phase = .rewriting k d) (e : Editor) :
      Kept t { t with phase := .rewriting k { d with editor := e } }

/-- How the phase of a task goes on when the task advances. -/
inductive Phase.Leads : Phase → Phase → Prop
  | ended {p : Phase} (h : ∀ o, p ≠ .finished o) (o : Outcome) : Leads p (.finished o)
  | claimed (k : Claim) {urls : List String} (h : urls.length ≤ 2) :
      Leads .ready (.fetching k urls [])
  | retried (k : Claim) (url : String) (urls errors errors' : List String) :
      Leads (.fetching k (url :: urls) errors) (.fetching k urls errors')
  | drafted (k : Claim) (url : String) (urls errors : List String) {d : Draft}
      (h : d.rest.isSome = true) : Leads (.fetching k (url :: urls) errors) (.rewriting k d)
  | proceeded (k : Claim) {d : Draft} (h : d.rest.isSome = true) (pending : List Nat) :
      Leads (.rewriting k d) (.rewriting k { d with rest := none, pending := pending })

end Loading

end ModuleGraph
