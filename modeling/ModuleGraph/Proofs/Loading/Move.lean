import Mathlib.Data.List.Nodup
import ModuleGraph.Proofs.Loading.Turn
/-!
# Moves and their effects

What may happen to a store that is written through its loads and `add` alone: a task advances, a
load is asked for, a file is added. The deeds of all moves make a log. `Effect` says what a move does
to the world and to the store, next to the deeds that it leaves behind.

Results:
* `reached_play`: moves lead to states that can be reached;
* `State.Turn.place`: whose deeds a step leaves behind;
* `State.move_effect`: every move has such an effect;
* `Effect.contains`, `Effect.text?_iff`: what the store holds afterwards.
-/

namespace ModuleGraph.Loading

variable {σ : Type}

/-- What may happen: a task advances, somebody outside asks for a load, a file is added. -/
inductive Move where
  | step (place : Nat)
  | ask (d : Demand)
  | add (path text : String)
  deriving DecidableEq

namespace State

/-- The state after a move. A file under a path that is taken is not accepted. -/
def move (c : Setting σ) (s : State σ) : Move → State σ
  | .step i => s.step c i
  | .ask d => (s.ask none [d]).1
  | .add path text =>
    match s.store.add path text with
    | .ok store => { s with store := store }
    | .error _ => s

/-- The deeds of a move. -/
def moveDeeds (c : Setting σ) (s : State σ) : Move → List Deed
  | .step i => s.deeds c i
  | .ask _ => []
  | .add path text => if s.store.contains path then [] else [.added path text]

/-- The state after a list of moves. -/
def play (c : Setting σ) (s : State σ) (moves : List Move) : State σ :=
  moves.foldl (fun s m => s.move c m) s

/-- The deeds of a list of moves, in their order. -/
def log (c : Setting σ) : State σ → List Move → List Deed
  | _, [] => []
  | s, m :: r => s.moveDeeds c m ++ log c (s.move c m) r

end State

/-- The states that allowed moves lead to, each with the deeds so far. -/
inductive Reached (c : Setting σ) (world : σ) (allowed : Move → Prop) : State σ → List Deed → Prop
  | start : Reached c world allowed (.start world) []
  | move {s : State σ} {log : List Deed} {m : Move} (h : Reached c world allowed s log)
      (hm : allowed m) : Reached c world allowed (s.move c m) (log ++ s.moveDeeds c m)

theorem Reached.play {c : Setting σ} {world : σ} {allowed : Move → Prop} {s : State σ}
    {log : List Deed} (h : Reached c world allowed s log) (moves : List Move)
    (hm : ∀ m ∈ moves, allowed m) :
    Reached c world allowed (s.play c moves) (log ++ s.log c moves) := by
  induction moves generalizing s log with
  | nil => simpa [State.play, State.log] using h
  | cons m r ih =>
    have hr := ih (h.move (hm m List.mem_cons_self)) fun n hn => hm n (List.mem_cons_of_mem m hn)
    rw [List.append_assoc] at hr
    exact hr

theorem reached_play (c : Setting σ) (world : σ) {allowed : Move → Prop} {moves : List Move}
    (hm : ∀ m ∈ moves, allowed m) :
    Reached c world allowed ((State.start world).play c moves)
      ((State.start world).log c moves) := by
  have hstart : Reached c world allowed (.start world) [] := .start
  have h := hstart.play moves hm
  rwa [List.nil_append] at h

/-! ## What a deed says -/

namespace Deed

/-- The task that did it. -/
def place? : Deed → Option Nat
  | claimed i _ _ | fetched i _ _ _ | drafted i _ _ | filled i _ _ => some i
  | added .. => none

/-- The path that it is about. -/
def path : Deed → String
  | claimed _ k _ => k.path
  | fetched _ path _ _ | drafted _ path _ | filled _ path _ | added path _ => path

/-- The path that is taken by it. -/
def taken? : Deed → Option String
  | claimed _ k _ => some k.path
  | added path _ => some path
  | _ => none

/-- The URL that is fetched. -/
def url? : Deed → Option String
  | fetched _ _ url _ => some url
  | _ => none

/-- The path whose text is taken into a draft. -/
def drafted? : Deed → Option String
  | drafted _ path _ => some path
  | _ => none

/-- The path that is filled. -/
def filled? : Deed → Option String
  | filled _ path _ => some path
  | _ => none

end Deed

/-- The deeds of one task. -/
def own (i : Nat) (log : List Deed) : List Deed := log.filter fun d => d.place? = some i

theorem mem_own {i : Nat} {log : List Deed} {d : Deed} :
    d ∈ own i log ↔ d ∈ log ∧ d.place? = some i := by
  simp [own]

theorem own_append_of_place {i : Nat} {log ds : List Deed} (h : ∀ d ∈ ds, d.place? = some i) :
    own i (log ++ ds) = own i log ++ ds := by
  have hds : ds.filter (fun d => d.place? = some i) = ds := by
    rw [List.filter_eq_self]
    simpa using h
  rw [own, List.filter_append, hds, own]

theorem own_append_of_ne {i : Nat} {log ds : List Deed} (h : ∀ d ∈ ds, d.place? ≠ some i) :
    own i (log ++ ds) = own i log := by
  have hds : ds.filter (fun d => d.place? = some i) = [] := by
    rw [List.filter_eq_nil_iff]
    simpa using h
  rw [own, List.filter_append, hds, List.append_nil, own]

/-- The deeds of a step are those of the task that advances. -/
theorem State.Turn.place {c : Setting σ} {s s' : State σ} {i : Nat} {ds : List Deed}
    (h : State.Turn c s i ds s') : ∀ d ∈ ds, d.place? = some i := by
  intro d hd
  cases h with
  | rest h => cases hd
  | broken ht h hc => cases hd
  | answered ht hp ha hs hc => cases hd
  | claimed ht hp ha hs =>
    rw [List.mem_singleton.1 hd]
    rfl
  | retried ht hp hr hurls =>
    rw [List.mem_singleton.1 hd]
    rfl
  | lost ht hp hr htold hc =>
    rw [List.mem_singleton.1 hd]
    rfl
  | drafted ht hp hr =>
    rcases List.mem_cons.1 hd with rfl | hd
    · rfl
    · rw [List.mem_singleton.1 hd]
      rfl
  | proceeded ht hp hd' hrest hr => cases hd
  | settled ht hp hd' hrest htext hs hc =>
    rw [List.mem_singleton.1 hd]
    rfl

/-! ## What a move does to the world and the store -/

/-- The deeds of a move together with the world and the store after it, and the paths that it tells
to be loaded. -/
inductive Effect (c : Setting σ) (s : State σ) :
    List Deed → σ → ModuleStore → List String → Prop
  | nothing : Effect c s [] s.world s.store []
  | claimed {i : Nat} {k : Claim} {urls : List String} (hs : s.store.contains k.path = false) :
      Effect c s [.claimed i k urls] s.world (s.store.claimed k.path) []
  | missed {i : Nat} {path url : String} {e : Fault} (hr : (c.fetch url s.world).1 = .error e) :
      Effect c s [.fetched i path url (.error e)] (c.fetch url s.world).2 s.store []
  | drafted {i : Nat} {path url : String} {source : Fetch.Source}
      (hr : (c.fetch url s.world).1 = .ok source) :
      Effect c s [.fetched i path url (.ok source), .drafted i path source]
        (c.fetch url s.world).2 s.store []
  | filled {i : Nat} {path text : String} (hs : s.store.text? path = some none) :
      Effect c s [.filled i path text] s.world (s.store.filled path text) [path]
  | added {path text : String} (hs : s.store.contains path = false) :
      Effect c s [.added path text] s.world ((s.store.claimed path).filled path text) []

namespace State

/-- The paths that are told to be loaded, in their order. -/
def told (s : State σ) : List String := s.notices.filterMap Notice.loaded?

theorem filterMap_loaded?_eq_nil {notices : List Notice} (h : ∀ n ∈ notices, n.loaded? = none) :
    notices.filterMap Notice.loaded? = [] := by
  rwa [List.filterMap_eq_nil_iff]

theorem Concluded.told {s s' : State σ} {i : Nat} {t : Task} {r : Except Fault String}
    (h : Concluded s i t r s') : s'.told = s.told := by
  cases h with
  | faulted e =>
    have hnil : (t.demand.complaint e).filterMap Notice.loaded? = [] :=
      filterMap_loaded?_eq_nil fun n hn => loaded?_of_mem_complaint hn
    rw [State.told, finish, enter_notices, List.filterMap_append, hnil, List.append_nil, State.told]
  | plain h => rfl
  | written h he => rfl
  | clashed h he => rfl

theorem Turn.effect {c : Setting σ} {s s' : State σ} {i : Nat} {ds : List Deed}
    (h : Turn c s i ds s') :
    ∃ new, Effect c s ds s'.world s'.store new ∧ s'.told = s.told ++ new := by
  cases h with
  | rest h => exact ⟨[], .nothing, (List.append_nil _).symm⟩
  | broken ht h hc =>
    rw [hc.world, hc.store, hc.told]
    exact ⟨[], .nothing, (List.append_nil _).symm⟩
  | answered ht hp ha hs hc =>
    rw [hc.world, hc.store, hc.told]
    exact ⟨[], .nothing, (List.append_nil _).symm⟩
  | claimed ht hp ha hs => exact ⟨[], .claimed hs, (List.append_nil _).symm⟩
  | retried ht hp hr hurls =>
    refine ⟨[], .missed hr, ?_⟩
    simp [State.told, fetchNotice, Notice.loaded?]
  | lost ht hp hr htold hc =>
    rw [hc.world, hc.store, hc.told]
    refine ⟨[], .missed hr, ?_⟩
    have hnil := filterMap_loaded?_eq_nil fun n hn => (congrArg Notice.loaded? (htold n hn)).trans rfl
    rw [State.told, List.filterMap_append, hnil, State.told]
  | drafted ht hp hr =>
    refine ⟨[], .drafted hr, ?_⟩
    have hnil : ∀ fileName tree,
        ((Rewrite.syntaxEvents fileName tree).map Notice.event).filterMap Notice.loaded? = [] := by
      intro fileName tree
      unfold Rewrite.syntaxEvents
      split_ifs <;> rfl
    rw [State.told, enter_notices, List.filterMap_append, hnil, State.told]
  | proceeded ht hp hd hrest hr => exact ⟨[], .nothing, (List.append_nil _).symm⟩
  | settled ht hp hd hrest htext hs hc =>
    rw [hc.world, hc.store, hc.told]
    refine ⟨[_], .filled hs, ?_⟩
    rw [State.told, List.filterMap_append, State.told]
    rfl

/-- What is asked for from outside comes last. -/
theorem tasks_of_ask {c : Setting σ} {s : State σ} {d : Demand} {j : Nat} {u : Task}
    (hu : (s.move c (.ask d)).tasks[j]? = some u) :
    s.tasks[j]? = some u ∨ s.tasks.length ≤ j ∧ u = ⟨none, d, .ready⟩ := by
  rw [move, ask] at hu
  by_cases hlt : j < s.tasks.length
  · rw [List.getElem?_append_left hlt] at hu
    exact .inl hu
  · rw [List.getElem?_append_right (Nat.le_of_not_lt hlt)] at hu
    exact .inr ⟨Nat.le_of_not_lt hlt, List.mem_singleton.1 (List.mem_of_getElem? hu)⟩

@[simp] theorem tasks_add (c : Setting σ) (s : State σ) (path text : String) :
    (s.move c (.add path text)).tasks = s.tasks := by
  rw [move]
  cases s.store.add path text <;> rfl

theorem move_effect (c : Setting σ) (s : State σ) (m : Move) :
    ∃ new, Effect c s (s.moveDeeds c m) (s.move c m).world (s.move c m).store new ∧
      (s.move c m).told = s.told ++ new := by
  cases m with
  | step i => exact (step_turn c s i).effect
  | ask d => exact ⟨[], .nothing, (List.append_nil _).symm⟩
  | add path text =>
    cases hc : s.store.contains path with
    | true =>
      have hadd : ∃ p, s.store.add path text = .error p := by
        rw [ModuleStore.add, ModuleStore.reserve_of_contains hc]
        exact ⟨_, rfl⟩
      obtain ⟨p, hp⟩ := hadd
      simp only [moveDeeds, move, hc, hp, if_true]
      exact ⟨[], .nothing, (List.append_nil _).symm⟩
    | false =>
      have hadd := (ModuleStore.add_eq_ok_iff s.store _ path text).2 ⟨hc, rfl⟩
      simp only [moveDeeds, move, hc, hadd, Bool.false_eq_true, if_false]
      exact ⟨[], .added hc, (List.append_nil _).symm⟩

end State

namespace Effect

variable {c : Setting σ} {s : State σ} {ds : List Deed} {world : σ} {store : ModuleStore}
  {new : List String}

/-- No path is given up. -/
theorem contains (h : Effect c s ds world store new) {path : String}
    (hp : s.store.contains path = true) : store.contains path = true := by
  cases h with
  | nothing => exact hp
  | claimed hs => exact (ModuleStore.contains_claimed ..).2 (.inr hp)
  | missed hr => exact hp
  | drafted hr => exact hp
  | filled hs => exact (ModuleStore.contains_filled ..).2 (.inr hp)
  | added hs =>
    exact (ModuleStore.contains_filled ..).2 (.inr ((ModuleStore.contains_claimed ..).2 (.inr hp)))

/-- A path that is there is left alone, unless it is filled. -/
theorem text?_eq (h : Effect c s ds world store new) {path : String}
    (hp : s.store.contains path = true) (hne : ∀ i text, .filled i path text ∉ ds) :
    store.text? path = s.store.text? path := by
  have hfree : ∀ {q}, s.store.contains q = false → path ≠ q := by
    rintro q hq rfl
    rw [hp] at hq
    cases hq
  cases h with
  | nothing => rfl
  | claimed hs => rw [ModuleStore.text?_claimed, if_neg (hfree hs)]
  | missed hr => rfl
  | drafted hr => rfl
  | @filled i q text hs =>
    have hq : path ≠ q := by
      rintro rfl
      exact hne i text List.mem_cons_self
    rw [ModuleStore.text?_filled, if_neg hq]
  | added hs =>
    rw [ModuleStore.text?_filled, if_neg (hfree hs), ModuleStore.text?_claimed, if_neg (hfree hs)]

/-- The paths that are taken come last. -/
theorem paths (h : Effect c s ds world store new) :
    store.paths = s.store.paths ++ ds.filterMap Deed.taken? := by
  cases h with
  | nothing => exact (List.append_nil _).symm
  | claimed hs => exact ModuleStore.paths_claimed hs
  | missed hr => exact (List.append_nil _).symm
  | drafted hr => exact (List.append_nil _).symm
  | filled hs =>
    rw [ModuleStore.paths_filled (ModuleStore.contains_of_text? hs)]
    exact (List.append_nil _).symm
  | added hs =>
    rw [ModuleStore.paths_filled ((ModuleStore.contains_claimed ..).2 (.inl rfl))]
    exact ModuleStore.paths_claimed hs

theorem fetches (h : Effect c s ds world store new) :
    world = (ds.filterMap Deed.url?).foldl (fun w url => (c.fetch url w).2) s.world := by
  cases h with
  | nothing => rfl
  | claimed hs => rfl
  | missed hr => rfl
  | drafted hr => rfl
  | filled hs => rfl
  | added hs => rfl

theorem filled? (h : Effect c s ds world store new) : new = ds.filterMap Deed.filled? := by
  cases h with
  | nothing => rfl
  | claimed hs => rfl
  | missed hr => rfl
  | drafted hr => rfl
  | filled hs => rfl
  | added hs => rfl

/-- A path gets a text exactly if a deed says so. -/
theorem text?_iff (h : Effect c s ds world store new) (path text : String) :
    store.text? path = some (some text) ↔ s.store.text? path = some (some text) ∨
      .added path text ∈ ds ∨ ∃ i, .filled i path text ∈ ds := by
  have hfree : ∀ {q}, s.store.contains q = false → s.store.text? q ≠ some (some text) := by
    intro q hq ht
    rw [ModuleStore.contains_of_text? ht] at hq
    cases hq
  cases h with
  | nothing => simp
  | @claimed i k urls hs =>
    by_cases hp : path = k.path
    · subst hp
      simpa using hfree hs
    · simp [hp]
  | missed hr => simp
  | drafted hr => simp
  | @filled i q text' hs =>
    by_cases hp : path = q
    · subst hp
      simp [hs, eq_comm]
    · simp [hp]
  | @added q text' hs =>
    by_cases hp : path = q
    · subst hp
      simp [hfree hs, eq_comm]
    · simp [hp]

/-- A path that is filled was reserved until then. -/
theorem reserved (h : Effect c s ds world store new) {i : Nat} {path text : String}
    (hd : .filled i path text ∈ ds) : s.store.text? path = some none := by
  cases h with
  | nothing => cases hd
  | claimed hs => simp at hd
  | missed hr => simp at hd
  | drafted hr => simp at hd
  | filled hs =>
    simp only [List.mem_singleton, Deed.filled.injEq] at hd
    rw [hd.2.1]
    exact hs
  | added hs => simp at hd

/-- What is fetched is what the world answers. -/
theorem reply (h : Effect c s ds world store new) {i : Nat} {path url : String}
    {r : Except Fault Fetch.Source} (hd : .fetched i path url r ∈ ds) :
    (c.fetch url s.world).1 = r := by
  cases h with
  | nothing => cases hd
  | claimed hs => simp at hd
  | filled hs => simp at hd
  | added hs => simp at hd
  | missed hr =>
    simp only [List.mem_singleton, Deed.fetched.injEq] at hd
    obtain ⟨-, -, rfl, rfl⟩ := hd
    exact hr
  | drafted hr =>
    simp only [List.mem_cons, Deed.fetched.injEq, reduceCtorEq, List.not_mem_nil, or_false] at hd
    obtain ⟨-, -, rfl, rfl⟩ := hd
    exact hr

end Effect

end ModuleGraph.Loading
