import ModuleGraph.Proofs.Fetch.Escape
import ModuleGraph.Proofs.Loading.Graph
import ModuleGraph.Proofs.Loading.Mirror
/-!
# Loads that differ in where a text came from

Two loads of which one has its text from another URL need not be told apart. A text is rewritten by
what its stretches lead to, and where they lead to the same URLs from both, tasks stay in step: they
come to the same phases, ask for the same modules and fill the same paths, up to the wording of
faults. The worlds need not be the same either, as long as what is fetched next is.

Results:
* `State.Alike.draft`: a text that two URLs have, whose stretches lead to the same URLs from both;
* `State.Alike.step`: a step on both sides, if what it fetches has the same fate;
* `State.Alike.follow`, `State.Alike.runFor`: whole runs.
-/

namespace ModuleGraph

theorem Rewrite.original_of_apply {e e' : Editor} {t : Target} {path : String}
    (h : apply e t path = .ok e') : e'.original = e.original := by
  rw [apply, Action.mapError_eq_ok_iff, Editor.overwrite] at h
  split at h
  · split at h
    · cases h
    · cases h
      rfl
  · cases h

namespace Loading

variable {σ : Type}

/-- The stretch leads to the same URL from both, or to none from either. -/
def Setting.LeadsAlike (c : Setting σ) (source source' : String) (t : Target) : Prop :=
  SameFate (c.importMap.resolve source t.specifier) (c.importMap.resolve source' t.specifier)

/-- Two demands that lead to the same URL. -/
inductive Demand.Alike (c : Setting σ) : Demand → Demand → Prop
  | same (d : Demand) : Alike c d d
  | target {source source' : String} {t : Target} (h : c.LeadsAlike source source' t) :
      Alike c (.target source t) (.target source' t)

/-- The same outcome, up to the wording of a fault. -/
inductive Outcome.Alike : Outcome → Outcome → Prop
  | loaded (path : String) : Alike (.loaded path) (.loaded path)
  | reported : Alike .reported .reported
  | failed {e e' : Fault} (h : e.isOwn = e'.isOwn) : Alike (.failed e) (.failed e')

/-- Two drafts of one text, what is left to be asked for in which leads to the same URLs. -/
structure Draft.Alike (c : Setting σ) (d d' : Draft) : Prop where
  editor : d.editor = d'.editor
  rest : d.rest = d'.rest
  pending : d.pending = d'.pending
  asks : ∀ tree rs t, d.rest = some tree → Rewrite.specifiers d.editor.original tree = .ok rs →
    .module t ∈ rs → c.LeadsAlike d.source.url d'.source.url t

theorem Draft.Alike.edited {c : Setting σ} {d d' : Draft} (h : d.Alike c d') {e : Editor}
    (he : e.original = d.editor.original) :
    Draft.Alike c { d with editor := e } { d' with editor := e } :=
  ⟨rfl, h.rest, h.pending, fun tree rs t hrest hrs => h.asks tree rs t hrest (he ▸ hrs)⟩

/-- The same phase, up to the URL that the text of a draft came from and the wording of faults. -/
inductive Phase.Alike (c : Setting σ) : Phase → Phase → Prop
  | ready : Alike c .ready .ready
  | fetching (k : Claim) (urls errors errors' : List String) :
      Alike c (.fetching k urls errors) (.fetching k urls errors')
  | rewriting (k : Claim) {d d' : Draft} (h : d.Alike c d') :
      Alike c (.rewriting k d) (.rewriting k d')
  | finished {o o' : Outcome} (h : o.Alike o') : Alike c (.finished o) (.finished o')

structure Task.Alike (c : Setting σ) (t t' : Task) : Prop where
  parent : t.parent = t'.parent
  demand : t.demand.Alike c t'.demand
  phase : t.phase.Alike c t'.phase

theorem Demand.alike_demandOf {c : Setting σ} {source source' : String} {r : Request}
    (h : ∀ t, r = .module t → c.LeadsAlike source source' t) :
    (State.demandOf source r).Alike c (State.demandOf source' r) := by
  cases r with
  | module t => exact .target (h t rfl)
  | library name => exact .same _

namespace State

/-! ## When runs are over -/

theorem runFor_of_isOver (c : Setting σ) {awaited : List Nat} {s : State σ}
    (h : s.isOver awaited = true) (n : Nat) : s.runFor c awaited n = s := by
  cases n with
  | zero => rfl
  | succ n => exact if_pos h

theorem runFor_add (c : Setting σ) (awaited : List Nat) (n m : Nat) (s : State σ) :
    s.runFor c awaited (n + m) = (s.runFor c awaited n).runFor c awaited m := by
  induction n generalizing s with
  | zero => rw [Nat.zero_add, runFor]
  | succ n ih =>
    rw [Nat.succ_add]
    by_cases h : s.isOver awaited = true
    · rw [runFor_of_isOver c h, runFor_of_isOver c h, runFor_of_isOver c h]
    · have hstep : ∀ n, s.runFor c awaited (n + 1) = (s.round c).runFor c awaited n := fun n => if_neg h
      rw [hstep, hstep, ih]

/-- Further rounds change nothing in a run that is over. -/
theorem runFor_eq_of_isOver {c : Setting σ} {awaited : List Nat} {s : State σ} {n m : Nat}
    (h : (s.runFor c awaited n).isOver awaited = true) (hle : n ≤ m) :
    s.runFor c awaited m = s.runFor c awaited n := by
  obtain ⟨k, rfl⟩ := Nat.exists_eq_add_of_le hle
  rw [runFor_add, runFor_of_isOver c h]

theorem allFinished_iff (s : State σ) :
    s.AllFinished ↔ s.allFinished (List.range s.tasks.length) = true := by
  rw [allFinished, List.all_eq_true]
  constructor
  · intro h i hi
    have ht := List.getElem?_eq_getElem (List.mem_range.1 hi)
    rw [outcome?, ht, Option.bind_some, Task.isSome_outcome?_iff]
    exact h i _ ht
  · intro h i t ht
    have hi := h i (List.mem_range.2 (List.getElem?_eq_some_iff.1 ht).1)
    rwa [outcome?, ht, Option.bind_some, Task.isSome_outcome?_iff] at hi

/-! ## States that are alike -/

/-- The stores are the same, and so are the tasks, up to where texts came from; the worlds are
related. -/
structure Alike (c : Setting σ) (R : σ → σ → Prop) (s s' : State σ) : Prop where
  world : R s.world s'.world
  store : s.store = s'.store
  length : s.tasks.length = s'.tasks.length
  tasks : ∀ i : Nat, Option.Rel (Task.Alike c) s.tasks[i]? s'.tasks[i]?

namespace Alike

variable {c : Setting σ} {R : σ → σ → Prop} {s s' : State σ}

theorem withStore (h : s.Alike c R s') (store : ModuleStore) :
    Alike c R { s with store := store } { s' with store := store } :=
  ⟨h.world, rfl, h.length, h.tasks⟩

theorem tell (h : s.Alike c R s') (n n' : Notice) : (s.tell n).Alike c R (s'.tell n') :=
  ⟨h.world, h.store, h.length, h.tasks⟩

theorem enter (h : s.Alike c R s') (i : Nat) {p p' : Phase} (hp : p.Alike c p') :
    (s.enter i p).Alike c R (s'.enter i p') := by
  refine ⟨h.world, h.store, ?_, fun j => ?_⟩
  · rw [enter_length, enter_length, h.length]
  · have htask := h.tasks j
    rw [State.enter, State.enter, List.getElem?_modify, List.getElem?_modify]
    generalize s.tasks[j]? = a at htask
    generalize s'.tasks[j]? = b at htask
    cases htask with
    | none => exact .none
    | some ht =>
      refine .some ?_
      split
      · exact ⟨ht.parent, ht.demand, hp⟩
      · exact ht

theorem finish (h : s.Alike c R s') (i : Nat) {o o' : Outcome} (ho : o.Alike o') :
    (s.finish i o).Alike c R (s'.finish i o') := h.enter i (.finished ho)

/-- Both sides ask for what the same requests lead to. -/
theorem ask (h : s.Alike c R s') (parent : Option Nat) {source source' : String}
    (rs : List Request) (hrs : ∀ t, .module t ∈ rs → c.LeadsAlike source source' t) :
    (s.ask parent (rs.map (demandOf source))).1.Alike c R
        (s'.ask parent (rs.map (demandOf source'))).1 ∧
      (s.ask parent (rs.map (demandOf source))).2 =
        (s'.ask parent (rs.map (demandOf source'))).2 := by
  refine ⟨⟨h.world, h.store, ?_, fun i => ?_⟩, ?_⟩
  · simp [State.ask, h.length]
  · simp only [State.ask, List.getElem?_append, List.map_map, List.getElem?_map, h.length]
    split
    · exact h.tasks i
    · cases hr : rs[i - s'.tasks.length]? with
      | none => exact .none
      | some r =>
        refine .some ⟨rfl, ?_, .ready⟩
        exact Demand.alike_demandOf fun t ht => hrs t (ht ▸ List.mem_of_getElem? hr)
  · simp [State.ask, h.length]

theorem outcome? (h : s.Alike c R s') (i : Nat) :
    Option.Rel Outcome.Alike (s.outcome? i) (s'.outcome? i) := by
  have htask := h.tasks i
  rw [State.outcome?, State.outcome?]
  generalize s.tasks[i]? = a at htask
  generalize s'.tasks[i]? = b at htask
  cases htask with
  | none => exact .none
  | @some t t' ht =>
    obtain ⟨parent, demand, phase⟩ := t
    obtain ⟨parent', demand', phase'⟩ := t'
    have hp : phase.Alike c phase' := ht.phase
    cases hp with
    | ready => exact .none
    | fetching k urls errors errors' => exact .none
    | rewriting k hd => exact .none
    | finished ho => exact .some ho

theorem failure? (h : s.Alike c R s') (places : List Nat) :
    Option.Rel (fun e e' : Fault => e.isOwn = e'.isOwn) (s.failure? places)
      (s'.failure? places) := by
  rw [State.failure?, State.failure?]
  induction places with
  | nil => exact .none
  | cons i places ih =>
    rw [List.findSome?_cons, List.findSome?_cons]
    have ho := h.outcome? i
    generalize s.outcome? i = a at ho
    generalize s'.outcome? i = b at ho
    cases ho with
    | none => exact ih
    | some ho =>
      cases ho with
      | loaded path => exact ih
      | reported => exact ih
      | failed he => exact .some he

theorem isSome_outcome?_eq (h : s.Alike c R s') (i : Nat) :
    (s.outcome? i).isSome = (s'.outcome? i).isSome := by
  have ho := h.outcome? i
  generalize s.outcome? i = a at ho
  generalize s'.outcome? i = b at ho
  cases ho <;> rfl

theorem isSome_failure?_eq (h : s.Alike c R s') (places : List Nat) :
    (s.failure? places).isSome = (s'.failure? places).isSome := by
  have hf := h.failure? places
  generalize s.failure? places = a at hf
  generalize s'.failure? places = b at hf
  cases hf <;> rfl

theorem allFinished_eq (h : s.Alike c R s') (places : List Nat) :
    s.allFinished places = s'.allFinished places := by
  simp only [State.allFinished, h.isSome_outcome?_eq]

theorem next?_eq (h : s.Alike c R s') (i : Nat) : s.next? i = s'.next? i := by
  have htask := h.tasks i
  rw [State.next?, State.next?, State.phase?, State.phase?]
  generalize s.tasks[i]? = a at htask
  generalize s'.tasks[i]? = b at htask
  cases htask with
  | none => rfl
  | @some t t' ht =>
    obtain ⟨parent, demand, phase⟩ := t
    obtain ⟨parent', demand', phase'⟩ := t'
    have hp : phase.Alike c phase' := ht.phase
    cases hp <;> rfl

theorem isAwake_eq (h : s.Alike c R s') (i : Nat) : s.isAwake i = s'.isAwake i := by
  have htask := h.tasks i
  rw [State.isAwake, State.isAwake]
  generalize s.tasks[i]? = a at htask
  generalize s'.tasks[i]? = b at htask
  cases htask with
  | none => rfl
  | @some t t' ht =>
    obtain ⟨parent, demand, phase⟩ := t
    obtain ⟨parent', demand', phase'⟩ := t'
    have hp : phase.Alike c phase' := ht.phase
    cases hp with
    | ready => rfl
    | fetching k urls errors errors' => rfl
    | finished ho => rfl
    | rewriting k hd =>
      dsimp only
      rw [h.isSome_failure?_eq, h.allFinished_eq, hd.pending]

theorem isQuiet_eq (h : s.Alike c R s') : s.isQuiet = s'.isQuiet := by
  simp only [State.isQuiet, h.isAwake_eq, h.length]

theorem allFinished_iff (h : s.Alike c R s') : s.AllFinished ↔ s'.AllFinished := by
  rw [State.allFinished_iff, State.allFinished_iff, h.allFinished_eq, h.length]

theorem isOver_eq (h : s.Alike c R s') (awaited : List Nat) :
    s.isOver awaited = s'.isOver awaited := by
  rw [isOver, isOver, h.isQuiet_eq, h.isSome_failure?_eq]

/-! ### What steps are made of -/

/-- An edit is accepted or refused on both sides. -/
theorem edit (h : s.Alike c R s') (parent : Option Nat) (t : Target) (path : String) :
    (∃ e, s.edit parent t path = .error e ∧ s'.edit parent t path = .error e) ∨
      ∃ u u', s.edit parent t path = .ok u ∧ s'.edit parent t path = .ok u' ∧ u.Alike c R u' := by
  unfold State.edit
  cases parent with
  | none => exact .inr ⟨s, s', rfl, rfl, h⟩
  | some p =>
    have htask := h.tasks p
    dsimp only
    generalize s.tasks[p]? = a at htask
    generalize s'.tasks[p]? = b at htask
    cases htask with
    | none => exact .inr ⟨s, s', rfl, rfl, h⟩
    | @some v v' hv =>
      obtain ⟨parent, demand, phase⟩ := v
      obtain ⟨parent', demand', phase'⟩ := v'
      have hp : phase.Alike c phase' := hv.phase
      cases hp with
      | ready => exact .inr ⟨s, s', rfl, rfl, h⟩
      | fetching k urls errors errors' => exact .inr ⟨s, s', rfl, rfl, h⟩
      | finished ho => exact .inr ⟨s, s', rfl, rfl, h⟩
      | @rewriting k d d' hd =>
        dsimp only
        rw [← hd.editor]
        cases he : Rewrite.apply d.editor t path with
        | error e => exact .inl ⟨e, rfl, rfl⟩
        | ok editor =>
          exact .inr ⟨_, _, rfl, rfl, h.enter p (.rewriting k (hd.edited (Rewrite.original_of_apply he)))⟩

theorem finish_edit (h : s.Alike c R s') (i : Nat) (parent : Option Nat) (t : Target)
    (path : String) : State.Alike c R
      (match s.edit parent t path with
        | .ok s => s.finish i (.loaded path)
        | .error e => s.finish i (.failed e))
      (match s'.edit parent t path with
        | .ok s => s.finish i (.loaded path)
        | .error e => s'.finish i (.failed e)) := by
  rcases h.edit parent t path with ⟨e, he, he'⟩ | ⟨u, u', hu, hu', halike⟩
  · rw [he, he']
    exact h.finish i (.failed rfl)
  · rw [hu, hu']
    exact halike.finish i (.loaded path)

theorem conclude (h : s.Alike c R s') (i : Nat) {r r' : Except Fault String}
    (hr : SameFate r r') : (s.conclude i r).Alike c R (s'.conclude i r') := by
  unfold State.conclude
  have htask := h.tasks i
  generalize s.tasks[i]? = a at htask
  generalize s'.tasks[i]? = b at htask
  cases htask with
  | none => exact h
  | @some v v' hv =>
    obtain ⟨parent, demand, phase⟩ := v
    obtain ⟨parent', demand', phase'⟩ := v'
    obtain rfl : parent = parent' := hv.parent
    have hd : demand.Alike c demand' := hv.demand
    cases hr with
    | ok path =>
      have hedited := fun t => h.finish_edit i parent t path
      cases hd with
      | same =>
        cases demand with
        | target source t => exact hedited t
        | module url asUrl => exact h.finish i (.loaded path)
        | library name => exact h.finish i (.loaded path)
        | required name => exact h.finish i (.loaded path)
      | target _ => exact hedited _
    | @error e e' he =>
      have hreported : ∀ n n' : Notice, State.Alike c R
          (if e.isOwn then (s.tell n).finish i .reported else s.finish i (.failed e))
          (if e'.isOwn then (s'.tell n').finish i .reported else s'.finish i (.failed e')) := by
        intro n n'
        rw [← he]
        split_ifs
        · exact (h.tell n n').finish i .reported
        · exact h.finish i (.failed he)
      cases hd with
      | same =>
        cases demand with
        | target source t => exact hreported _ _
        | module url asUrl => exact h.finish i (.failed he)
        | library name => exact hreported _ _
        | required name =>
          refine h.finish i (.failed ?_)
          rw [← he]
          split_ifs
          · rfl
          · exact he
      | target _ => exact hreported _ _

theorem claim (h : s.Alike c R s') (i : Nat) (url asUrl : String) (fallbacks : List String) :
    (s.claim i url asUrl fallbacks).Alike c R (s'.claim i url asUrl fallbacks) := by
  unfold State.claim
  cases virtualPath asUrl with
  | error e => exact h.conclude i (.refl _)
  | ok path =>
    dsimp only
    rw [← h.store]
    split
    · exact h.conclude i (.refl _)
    · next store _ => exact (h.withStore store).enter i (.fetching _ _ _ _)

theorem begin (h : s.Alike c R s') (i : Nat) {d d' : Demand} (hd : d.Alike c d') :
    (s.begin c i d).Alike c R (s'.begin c i d') := by
  have hlibrary : ∀ name, (s.claimLibrary c i name).Alike c R (s'.claimLibrary c i name) := by
    intro name
    unfold State.claimLibrary
    cases Library.primaryUrl c.libraryDir name with
    | error p => exact h.conclude i (.refl _)
    | ok url =>
      cases Library.fallbackUrl c.bundledDir name with
      | error p => exact h.conclude i (.refl _)
      | ok fallback => exact h.claim i url url [fallback]
  have htarget : ∀ {source source' : String} {t : Target}, c.LeadsAlike source source' t →
      (s.begin c i (.target source t)).Alike c R (s'.begin c i (.target source' t)) := by
    intro source source' t ht
    unfold State.begin
    rw [Setting.LeadsAlike] at ht
    dsimp only
    generalize c.importMap.resolve source t.specifier = r at ht
    generalize c.importMap.resolve source' t.specifier = r' at ht
    cases ht with
    | ok url => exact h.claim i url url []
    | error he => exact h.conclude i (.error he)
  cases hd with
  | same =>
    cases d with
    | module url asUrl => exact h.claim i url asUrl []
    | target source t => exact htarget (.refl _)
    | library name => exact hlibrary name
    | required name => exact hlibrary name
  | target ht => exact htarget ht

/-- A text that two URLs have is taken into drafts that are alike, if its stretches lead to the same
URLs from both. -/
theorem draft (h : s.Alike c R s') (i : Nat) (k : Claim) {source source' : Fetch.Source}
    (htext : source.text = source'.text)
    (hleads : ∀ t, Rewrite.Asks k.path source.text (.module t) →
      c.LeadsAlike source.url source'.url t) :
    (s.draft i k source).Alike c R (s'.draft i k source') := by
  obtain ⟨text, url, headers⟩ := source
  obtain ⟨text', url', headers'⟩ := source'
  obtain rfl : text = text' := htext
  unfold State.draft
  dsimp only
  have htold : ∀ (events : List Event) (u u' : State σ), u.Alike c R u' →
      (events.foldl (fun s e => s.tell (.event e)) u).Alike c R
        (events.foldl (fun s e => s.tell (.event e)) u') := by
    intro events
    induction events with
    | nil => exact fun _ _ hu => hu
    | cons e events ih => exact fun u u' hu => ih _ _ (hu.tell _ _)
  obtain ⟨hasked, hplaces⟩ := (htold (Rewrite.syntaxEvents k.path
    (Syntax.parse (.ofFileName k.path) text)) s s' h).ask (some i)
    (Rewrite.directives text) fun t ht => hleads t (.inl ht)
  rw [hplaces]
  refine hasked.enter i (.rewriting k ⟨rfl, rfl, rfl, fun tree rs t hrest hrs ht => ?_⟩)
  cases hrest
  exact hleads t (.inr ⟨rs, hrs, ht⟩)

/-- What is fetched on both sides may be a text, and then it is the same one. -/
theorem fetchNext (h : s.Alike c R s') (i : Nat) (k : Claim) {urls : List String}
    (errors errors' : List String) (hf : ∀ url, urls.head? = some url →
      SameFate (c.fetch url s.world).1 (c.fetch url s'.world).1 ∧
        R (c.fetch url s.world).2 (c.fetch url s'.world).2) :
    (s.fetchNext c i k urls errors).Alike c R (s'.fetchNext c i k urls errors') := by
  unfold State.fetchNext
  cases urls with
  | nil => exact h.conclude i (.error rfl)
  | cons url rest =>
    obtain ⟨hfate, hworld⟩ := hf url rfl
    have hafter : State.Alike c R { s with world := (c.fetch url s.world).2 }
        { s' with world := (c.fetch url s'.world).2 } := ⟨hworld, h.store, h.length, h.tasks⟩
    dsimp only
    generalize (c.fetch url s.world).1 = r at hfate
    generalize (c.fetch url s'.world).1 = r' at hfate
    cases hfate with
    | ok source => exact hafter.draft i k rfl fun _ _ => .refl _
    | @error e e' he =>
      dsimp only
      rw [← he]
      split_ifs
      · exact (hafter.tell _ _).conclude i (.error rfl)
      · exact (hafter.tell _ _).enter i (.fetching _ _ _ _)
      · exact hafter.conclude i (.error rfl)

theorem settle (h : s.Alike c R s') (i : Nat) (k : Claim) (url url' text : String) :
    (s.settle c i k url text).Alike c R (s'.settle c i k url' text) := by
  unfold State.settle
  rw [← h.store]
  cases s.store.fill k.path text with
  | error p => exact h.conclude i (.refl _)
  | ok store => exact ((h.withStore store).tell _ _).conclude i (.refl _)

theorem advance (h : s.Alike c R s') (i : Nat) (k : Claim) {d d' : Draft} (hd : d.Alike c d') :
    (s.advance c i k d).Alike c R (s'.advance c i k d') := by
  unfold State.advance
  rw [← hd.rest, ← hd.editor]
  cases hrest : d.rest with
  | some tree =>
    dsimp only
    cases hrs : Rewrite.specifiers d.editor.original tree with
    | error m => exact h.conclude i (.refl _)
    | ok rs =>
      obtain ⟨hasked, hplaces⟩ := h.ask (some i) rs fun t ht => hd.asks tree rs t hrest hrs ht
      dsimp only
      rw [hplaces]
      exact hasked.enter i (.rewriting k ⟨rfl, rfl, rfl, fun _ _ _ hnone => by cases hnone⟩)
  | none =>
    dsimp only
    cases d.editor.toText with
    | error m => exact h.conclude i (.refl _)
    | ok text => exact h.settle i k _ _ text

theorem resume (h : s.Alike c R s') (i : Nat) (k : Claim) {d d' : Draft} (hd : d.Alike c d') :
    (s.resume c i k d).Alike c R (s'.resume c i k d') := by
  unfold State.resume
  have hfailure := h.failure? d.pending
  rw [← hd.pending, ← h.allFinished_eq]
  generalize s.failure? d.pending = a at hfailure
  generalize s'.failure? d.pending = b at hfailure
  cases hfailure with
  | some he => exact h.conclude i (.error rfl)
  | none =>
    dsimp only
    split_ifs
    · exact h.advance i k hd
    · exact h

/-- A step on both sides, if what it fetches has the same fate. -/
theorem step (h : s.Alike c R s') (i : Nat) (hf : ∀ url, s.next? i = some url →
      SameFate (c.fetch url s.world).1 (c.fetch url s'.world).1 ∧
        R (c.fetch url s.world).2 (c.fetch url s'.world).2) :
    (s.step c i).Alike c R (s'.step c i) := by
  have hnext : ∀ k urls errors, s.phase? i = some (.fetching k urls errors) →
      s.next? i = urls.head? := by
    intro k urls errors hp
    rw [next?, hp]
  unfold State.step
  rw [State.phase?] at hnext
  have htask := h.tasks i
  generalize s.tasks[i]? = a at htask hnext
  generalize s'.tasks[i]? = b at htask
  cases htask with
  | none => exact h
  | @some t t' ht =>
    obtain ⟨parent, demand, phase⟩ := t
    obtain ⟨parent', demand', phase'⟩ := t'
    have hp : phase.Alike c phase' := ht.phase
    cases hp with
    | ready => exact h.begin i ht.demand
    | fetching k urls errors errors' =>
      exact h.fetchNext i k errors errors' fun url hurl => hf url (by rw [hnext k urls errors rfl, hurl])
    | rewriting k hd => exact h.resume i k hd
    | finished ho => exact h

end Alike

/-! ## Whole runs -/

/-- Whatever is fetched when tasks advance in this order is as it is asked for. -/
def FetchesOnly (c : Setting σ) (Q : σ → String → Prop) : State σ → List Nat → Prop
  | _, [] => True
  | s, i :: places => (∀ url ∈ s.next? i, Q s.world url) ∧ FetchesOnly c Q (s.step c i) places

instance decidableFetchesOnly (c : Setting σ) (Q : σ → String → Prop)
    [∀ w url, Decidable (Q w url)] :
    (s : State σ) → (places : List Nat) → Decidable (s.FetchesOnly c Q places)
  | _, [] => isTrue trivial
  | s, i :: places =>
    have := decidableFetchesOnly c Q (s.step c i) places
    inferInstanceAs (Decidable (_ ∧ _))

theorem fetchesOnly_append {c : Setting σ} {Q : σ → String → Prop} {s : State σ}
    {places places' : List Nat} : s.FetchesOnly c Q (places ++ places') ↔
      s.FetchesOnly c Q places ∧ (s.follow c places).FetchesOnly c Q places' := by
  induction places generalizing s with
  | nil => rw [FetchesOnly, true_and]; rfl
  | cons i places ih => rw [List.cons_append, FetchesOnly, FetchesOnly, ih, and_assoc, follow_cons]

end State

/-- Related worlds stay related and do not tell fetches apart, if what is fetched is as it is asked
for. -/
def Setting.Blurs (c : Setting σ) (R : σ → σ → Prop) (Q : σ → String → Prop) : Prop :=
  ∀ w w' url, R w w' → Q w' url → SameFate (c.fetch url w).1 (c.fetch url w').1 ∧
    R (c.fetch url w).2 (c.fetch url w').2

namespace State.Alike

variable {c : Setting σ} {R : σ → σ → Prop} {Q : σ → String → Prop} {s s' : State σ}

/-- States that are alike stay so, in whatever order tasks advance. -/
theorem follow (hc : c.Blurs R Q) (h : s.Alike c R s') {places : List Nat}
    (hq : s'.FetchesOnly c Q places) : (s.follow c places).Alike c R (s'.follow c places) := by
  induction places generalizing s s' with
  | nil => exact h
  | cons i places ih =>
    refine ih (h.step i fun url hurl => ?_) hq.2
    exact hc _ _ url h.world (hq.1 url (h.next?_eq i ▸ hurl))

/-- They stay so in rounds. -/
theorem runFor (hc : c.Blurs R Q) (h : s.Alike c R s') (awaited : List Nat) {n : Nat}
    (hq : s'.FetchesOnly c Q (s'.turns c awaited n)) :
    (s.runFor c awaited n).Alike c R (s'.runFor c awaited n) := by
  induction n generalizing s s' with
  | zero => exact h
  | succ n ih =>
    rw [State.runFor, State.runFor, ← isOver, ← isOver, h.isOver_eq]
    rw [turns] at hq
    split
    · exact h
    · next hover =>
      rw [if_neg hover, fetchesOnly_append] at hq
      refine ih ?_ hq.2
      rw [round, round, h.length]
      exact h.follow hc hq.1

end State.Alike

end Loading

end ModuleGraph
