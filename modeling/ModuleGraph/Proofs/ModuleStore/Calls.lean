import Mathlib.Data.List.Induction
import ModuleGraph.Proofs.Action
import ModuleGraph.Proofs.ModuleStore
/-!
# Runs of calls of the module store

A store is known by its paths in their order, their texts, and which of them are settled. No call
takes any of this back: a path stays in its place, and a settled path keeps its text. The store has
both facts about a path, its text and whether it is settled, in one entry of a table. `Parts` has
them in two parts that are written one after the other, with `add` put together from the two
methods before it; a method that fails in between would leave the parts in disagreement. From the
empty store on, no run of calls gets there.

Results:
* `change_after`: what a call does to the store;
* `paths_afterAll`: the paths stand in the order in which they were claimed first;
* `run_method`: the methods on two parts do what the calls of the store do;
* `keeps_afterAll`: **main theorem**: what holds after every run of calls, with failing ones among
  them, and with which kind of error a call fails.
-/

namespace ModuleGraph.ModuleStore

/-- A call of the store. -/
inductive Call where
  | reserve (path : String)
  | fill (path text : String)
  | add (path text : String)
  deriving DecidableEq

/-- The path that a call claims if it is still free. -/
def Call.claim? : Call → Option String
  | .reserve path => some path
  | .fill _ _ => none
  | .add path _ => some path

/-- What a call answers: for a claim, whether the path was free; nothing for a text that is
accepted. -/
def answer (s : ModuleStore) : Call → Except Problem (Option Bool)
  | .reserve path => .ok (some (s.reserve path).1)
  | .fill path text => (s.fill path text).map fun _ => none
  | .add path text => (s.add path text).map fun _ => none

/-- The store after a call. -/
def after (s : ModuleStore) : Call → ModuleStore
  | .reserve path => (s.reserve path).2
  | .fill path text => (s.fill path text).toOption.getD s
  | .add path text => (s.add path text).toOption.getD s

/-- The store after calls, one after the other. -/
def afterAll (s : ModuleStore) (calls : List Call) : ModuleStore := calls.foldl after s

/-! ## What a call does -/

/-- What a call does to the store. -/
inductive Change (s : ModuleStore) : Call → ModuleStore → Prop
  /-- Nothing: the path is not free for a claim, or the text is not accepted. -/
  | nothing {c : Call} (h : ∀ path, c.claim? = some path → s.contains path = true) : Change s c s
  | claimed {path : String} (h : s.contains path = false) :
    Change s (.reserve path) (s.claimed path)
  | filled {path text : String} (h : s.text? path = some none) :
    Change s (.fill path text) (s.filled path text)
  | added {path text : String} (h : s.contains path = false) :
    Change s (.add path text) ((s.claimed path).filled path text)

theorem change_after (s : ModuleStore) (c : Call) : Change s c (s.after c) := by
  cases c with
  | reserve path =>
    rw [after]
    cases h : s.contains path with
    | true =>
      rw [reserve_of_contains h]
      refine .nothing fun path' h' => ?_
      cases h'
      exact h
    | false =>
      rw [reserve_of_not_contains h]
      exact .claimed h
  | fill path text =>
    rw [after]
    cases h : s.fill path text with
    | error p => exact .nothing fun _ h' => by cases h'
    | ok s' =>
      obtain ⟨hreserved, rfl⟩ := (fill_eq_ok_iff ..).1 h
      exact .filled hreserved
  | add path text =>
    rw [after]
    cases h : s.add path text with
    | error p =>
      refine .nothing fun path' h' => ?_
      cases h'
      rw [← Bool.not_eq_false]
      intro hfree
      rw [(add_eq_ok_iff ..).2 ⟨hfree, rfl⟩] at h
      cases h
    | ok s' =>
      obtain ⟨hfree, rfl⟩ := (add_eq_ok_iff ..).1 h
      exact .added hfree

namespace Change

variable {s s' : ModuleStore} {c : Call} (h : Change s c s')

include h

/-- A path comes last when it is claimed, and the others stay where they are. -/
theorem paths_eq : s'.paths = s.paths ++ c.claim?.toList.filter fun path => !s.contains path := by
  cases h with
  | nothing hclaim =>
    have hnone : (c.claim?.toList.filter fun path => !s.contains path) = [] := by
      rw [List.filter_eq_nil_iff]
      intro path hpath
      simp [hclaim path (Option.mem_toList.1 hpath)]
    rw [hnone, List.append_nil]
  | claimed hfree => simp [Call.claim?, hfree, paths_claimed hfree]
  | @filled path text hreserved =>
    rw [paths_filled (contains_of_text? hreserved)]
    simp [Call.claim?]
  | @added path text hfree =>
    have hclaimed : (s.claimed path).contains path = true := (contains_claimed ..).2 (.inl rfl)
    rw [paths_filled hclaimed, paths_claimed hfree]
    simp [Call.claim?, hfree]

/-- A settled path keeps its text. -/
theorem text?_of_settled {path text : String} (hs : s.text? path = some (some text)) :
    s'.text? path = some (some text) := by
  have hne : ∀ {other}, s.contains other = false → path ≠ other := by
    rintro other hfree rfl
    rw [contains_of_text? hs] at hfree
    cases hfree
  cases h with
  | nothing => exact hs
  | claimed hfree => rw [text?_claimed, if_neg (hne hfree), hs]
  | @filled other _ hreserved =>
    have hother : path ≠ other := by
      rintro rfl
      rw [hs] at hreserved
      cases hreserved
    rw [text?_filled, if_neg hother, hs]
  | added hfree =>
    rw [text?_filled, if_neg (hne hfree), text?_claimed, if_neg (hne hfree), hs]

end Change

/-! ## Answers -/

section Answers

variable {s : ModuleStore} {path : String}

theorem text?_eq_some_none_iff (s : ModuleStore) (path : String) :
    s.text? path = some none ↔ s.contains path = true ∧ s.isSettled path = false := by
  rw [contains_iff_text?, ← Bool.not_eq_true, isSettled_iff]
  rcases s.text? path with _ | _ | text <;> simp

theorem fill_of_not_contains (h : s.contains path = false) (text : String) :
    s.fill path text = .error (.notReserved path) := by
  have hnone : s.files.get? path = none := (s.text?_eq_none_iff path).2 h
  rw [fill, hnone]

theorem fill_of_isSettled (h : s.isSettled path = true) (text : String) :
    s.fill path text = .error (.alreadyFilled path) := by
  obtain ⟨old, hold⟩ := (s.isSettled_iff path).1 h
  rw [text?] at hold
  rw [fill, hold]

theorem add_of_contains (h : s.contains path = true) (text : String) :
    s.add path text = .error (.alreadyReserved path) := by
  rw [add, reserve_of_contains h]

theorem text?_claimed_self (s : ModuleStore) (path : String) :
    (s.claimed path).text? path = some none := by
  rw [text?_claimed, if_pos rfl]

/-- A call that is refused does nothing. -/
theorem after_of_answer_eq_error {c : Call} {p : Problem} (h : s.answer c = .error p) :
    s.after c = s := by
  cases c with
  | reserve path => cases h
  | fill path text => rw [after, Action.eq_error_of_map h]; rfl
  | add path text => rw [after, Action.eq_error_of_map h]; rfl

end Answers

/-! ## Runs -/

theorem afterAll_append (s : ModuleStore) (calls more : List Call) :
    s.afterAll (calls ++ more) = (s.afterAll calls).afterAll more := List.foldl_append

/-- No path is removed, and none moves. -/
theorem paths_prefix_afterAll (s : ModuleStore) (calls : List Call) :
    s.paths <+: (s.afterAll calls).paths := by
  induction calls generalizing s with
  | nil => exact List.prefix_rfl
  | cons c calls ih =>
    have hstep : s.paths <+: (s.after c).paths := by
      rw [(change_after s c).paths_eq]
      exact List.prefix_append _ _
    exact hstep.trans (ih (s.after c))

theorem text?_afterAll_of_settled {s : ModuleStore} {path text : String}
    (h : s.text? path = some (some text)) (calls : List Call) :
    (s.afterAll calls).text? path = some (some text) := by
  induction calls generalizing s with
  | nil => exact h
  | cons c calls ih => exact ih ((change_after s c).text?_of_settled h)

/-- The paths stand in the order in which they were claimed first. -/
theorem paths_afterAll (calls : List Call) :
    (empty.afterAll calls).paths = (calls.filterMap Call.claim?).eraseDups := by
  induction calls using List.reverseRecOn with
  | nil => rfl
  | append_singleton calls c ih =>
    have hlast : (empty.afterAll (calls ++ [c])) = (empty.afterAll calls).after c :=
      afterAll_append empty calls [c]
    have hclaims : [c].filterMap Call.claim? = c.claim?.toList := by cases c <;> rfl
    have hold : ∀ path, (empty.afterAll calls).contains path =
        (calls.filterMap Call.claim?).elem path := by
      intro path
      rw [Bool.eq_iff_iff, contains_iff_mem, ih, List.mem_eraseDups, List.elem_iff]
    have hnew : (c.claim?.toList.filter fun path => !(empty.afterAll calls).contains path) =
        (([c].filterMap Call.claim?).removeAll (calls.filterMap Call.claim?)).eraseDups := by
      rw [hclaims, List.removeAll]
      simp only [hold]
      cases c.claim? with
      | none => rfl
      | some path =>
        rw [Option.toList_some, List.filter_singleton]
        cases (calls.filterMap Call.claim?).elem path <;> rfl
    rw [hlast, (change_after _ c).paths_eq, ih, hnew, List.filterMap_append, List.eraseDups_append]

/-! ## A store in two parts -/

/-- A store in two parts: the texts of the paths, in which a claim has the empty text, and which
paths are settled. -/
structure Parts where
  texts : Table String
  settled : String → Bool

namespace Parts

/-- A method works on the parts in place. What it has written stays if it fails. -/
abbrev Method := ExceptT Problem (StateM Parts)

/-- The parts without paths. -/
def empty : Parts := ⟨.empty, fun _ => false⟩

def reserve (path : String) : Method Bool := do
  let parts ← get
  if parts.texts.contains path then return false
  else
    set { parts with texts := parts.texts.insert path "" }
    return true

def fill (path text : String) : Method Unit := do
  let parts ← get
  if !parts.texts.contains path then throw (.notReserved path)
  else if parts.settled path then throw (.alreadyFilled path)
  else
    modify fun parts => { parts with texts := parts.texts.insert path text }
    modify fun parts => { parts with settled := Function.update parts.settled path true }

/-- Claims the path and fills it; the claim stays if the text is refused. -/
def add (path text : String) : Method Unit := do
  let free ← reserve path
  if free then fill path text else throw (.alreadyReserved path)

end Parts

/-- The method that a call asks for. -/
def Call.method : Call → Parts.Method (Option Bool)
  | .reserve path => do
    let free ← Parts.reserve path
    return some free
  | .fill path text => do
    Parts.fill path text
    return none
  | .add path text => do
    Parts.add path text
    return none

/-- What a method answers, and the parts that it leaves. -/
def Parts.perform (parts : Parts) (c : Call) : Except Problem (Option Bool) × Parts :=
  c.method.run parts

/-- The parts after calls, one after the other, failing ones among them. -/
def Parts.afterAll (parts : Parts) (calls : List Call) : Parts :=
  calls.foldl (fun parts c => (parts.perform c).2) parts

/-- The store in two parts. -/
def parts (s : ModuleStore) : Parts := ⟨s.files.mapValues (·.getD ""), s.isSettled⟩

theorem parts_empty : empty.parts = Parts.empty := rfl

theorem contains_parts (s : ModuleStore) (path : String) :
    s.parts.texts.contains path = s.contains path :=
  s.files.contains_mapValues _ path

theorem parts_claimed {s : ModuleStore} {path : String} (h : s.contains path = false) :
    (s.claimed path).parts = { s.parts with texts := s.parts.texts.insert path "" } := by
  have htexts : (s.claimed path).files.mapValues (·.getD "") = s.parts.texts.insert path "" :=
    (Table.insert_mapValues (fun v : Option String => v.getD "") s.files path none).symm
  have hsettled : (s.claimed path).isSettled = s.isSettled := by
    funext other
    rw [Bool.eq_iff_iff, isSettled_iff, isSettled_iff, text?_claimed]
    by_cases hother : other = path
    · simp [hother, (s.text?_eq_none_iff path).2 h]
    · rw [if_neg hother]
  rw [parts, htexts, hsettled]
  rfl

theorem parts_filled (s : ModuleStore) (path text : String) :
    (s.filled path text).parts =
      ⟨s.parts.texts.insert path text, Function.update s.parts.settled path true⟩ := by
  have htexts : (s.filled path text).files.mapValues (·.getD "") =
      s.parts.texts.insert path text :=
    (Table.insert_mapValues (fun v : Option String => v.getD "") s.files path (some text)).symm
  have hsettled :
      (s.filled path text).isSettled = Function.update s.parts.settled path true := by
    funext other
    rw [Bool.eq_iff_iff, isSettled_iff, text?_filled, Function.update_apply]
    by_cases hother : other = path
    · simp [hother]
    · rw [if_neg hother, if_neg hother]
      exact (s.isSettled_iff other).symm
  rw [parts, htexts, hsettled]

/-! ## The methods on two parts -/

theorem run_reserve (s : ModuleStore) (path : String) :
    (Parts.reserve path).run s.parts = (.ok (s.reserve path).1, (s.reserve path).2.parts) := by
  rw [Parts.reserve, Action.run_get_bind, contains_parts]
  cases h : s.contains path with
  | true =>
    rw [reserve_of_contains h]
    rfl
  | false =>
    rw [reserve_of_not_contains h, parts_claimed h]
    rfl

/-- A text that is refused leaves both parts, one that is accepted writes both. -/
theorem run_fill (s : ModuleStore) (path text : String) :
    (Parts.fill path text).run s.parts =
      match s.fill path text with
      | .ok s' => (.ok ⟨⟩, s'.parts)
      | .error p => (.error p, s.parts) := by
  rw [Parts.fill, Action.run_get_bind, contains_parts]
  cases hfree : s.contains path with
  | false =>
    rw [fill_of_not_contains hfree]
    rfl
  | true =>
    have hparts : s.parts.settled path = s.isSettled path := rfl
    rw [hparts]
    cases hsettled : s.isSettled path with
    | true =>
      rw [fill_of_isSettled hsettled]
      rfl
    | false =>
      rw [fill_of_reserved ((s.text?_eq_some_none_iff path).2 ⟨hfree, hsettled⟩)]
      exact congrArg (Prod.mk _) (s.parts_filled path text).symm

/-- The text of a path that was just claimed is not refused: `add` leaves no claim behind. -/
theorem run_add (s : ModuleStore) (path text : String) :
    (Parts.add path text).run s.parts =
      match s.add path text with
      | .ok s' => (.ok ⟨⟩, s'.parts)
      | .error p => (.error p, s.parts) := by
  rw [Parts.add, Action.run_bind, run_reserve]
  cases h : s.contains path with
  | true =>
    rw [reserve_of_contains h, add_of_contains h]
    rfl
  | false =>
    rw [reserve_of_not_contains h, (add_eq_ok_iff ..).2 ⟨h, rfl⟩]
    change (Parts.fill path text).run (s.claimed path).parts = _
    rw [run_fill, fill_of_reserved (text?_claimed_self s path)]

/-- The methods on two parts do what the calls of the store do. -/
theorem run_method (s : ModuleStore) (c : Call) :
    s.parts.perform c = (s.answer c, (s.after c).parts) := by
  cases c with
  | reserve path =>
    rw [Parts.perform, Call.method, Action.run_bind, run_reserve]
    rfl
  | fill path text =>
    rw [Parts.perform, Call.method, Action.run_bind, run_fill, answer, after]
    cases s.fill path text <;> rfl
  | add path text =>
    rw [Parts.perform, Call.method, Action.run_bind, run_add, answer, after]
    cases s.add path text <;> rfl

theorem parts_afterAll (s : ModuleStore) (calls : List Call) :
    s.parts.afterAll calls = (s.afterAll calls).parts := by
  induction calls generalizing s with
  | nil => rfl
  | cons c calls ih =>
    have hstep : (s.parts.perform c).2 = (s.after c).parts := by rw [run_method]
    calc s.parts.afterAll (c :: calls)
        = (s.parts.perform c).2.afterAll calls := rfl
      _ = (s.after c).parts.afterAll calls := by rw [hstep]
      _ = (s.afterAll (c :: calls)).parts := ih (s.after c)

/-- A call that fails has written neither part. -/
theorem parts_eq_of_perform_eq_error {s : ModuleStore} {c : Call} {p : Problem} {left : Parts}
    (h : s.parts.perform c = (.error p, left)) : left = s.parts := by
  rw [run_method, Prod.mk.injEq] at h
  rw [← h.2, after_of_answer_eq_error h.1]

/-! ## What holds after every run -/

/-- The answer is an error of this kind. -/
def Fails (answer : Except Problem (Option Bool)) (kind : String) : Prop :=
  ∃ p, answer = .error p ∧ p.toForeign.kind = kind

theorem fails_error_iff {p : Problem} {kind : String} :
    Fails (.error p) kind ↔ p.toForeign.kind = kind := by
  simp [Fails, eq_comm]

theorem not_fails_ok {a : Option Bool} {kind : String} : ¬Fails (.ok a) kind := by
  simp [Fails]

/-- A text is refused for two reasons. -/
theorem answer_fill (s : ModuleStore) (path text : String) :
    s.answer (.fill path text) =
      if path ∈ s.paths then
        if s.isSettled path = true then .error (.alreadyFilled path) else .ok none
      else .error (.notReserved path) := by
  have hmem := s.contains_iff_mem path
  split_ifs with hm hsettled
  · rw [answer, fill_of_isSettled hsettled]
    rfl
  · rw [Bool.not_eq_true] at hsettled
    rw [answer, fill_of_reserved ((s.text?_eq_some_none_iff path).2 ⟨hmem.2 hm, hsettled⟩)]
    rfl
  · rw [← hmem, Bool.not_eq_true] at hm
    rw [answer, fill_of_not_contains hm]
    rfl

theorem answer_add (s : ModuleStore) (path text : String) :
    s.answer (.add path text) =
      if path ∈ s.paths then .error (.alreadyReserved path) else .ok none := by
  have hmem := s.contains_iff_mem path
  split_ifs with hm
  · rw [answer, add_of_contains (hmem.2 hm)]
    rfl
  · rw [← hmem, Bool.not_eq_true] at hm
    rw [answer, (add_eq_ok_iff ..).2 ⟨hm, rfl⟩]
    rfl

theorem mem_of_isSettled {s : ModuleStore} {path : String} (h : s.isSettled path = true) :
    path ∈ s.paths := by
  obtain ⟨text, htext⟩ := (s.isSettled_iff path).1 h
  exact (s.contains_iff_mem path).1 (contains_of_text? htext)

theorem get?_of_text? {s : ModuleStore} {path : String} {v : Option String}
    (h : s.text? path = some v) : s.get? path = some (v.getD "") := by
  rw [text?] at h
  rw [get?, h, Option.map_some]

theorem answer_reserve_eq_true_iff (s : ModuleStore) (path : String) :
    s.answer (.reserve path) = .ok (some true) ↔ path ∉ s.paths := by
  rw [← contains_iff_mem, answer]
  cases h : s.contains path with
  | true => simp [reserve_of_contains h]
  | false => simp [reserve_of_not_contains h]

theorem fails_fill_missing_iff (s : ModuleStore) (path text : String) :
    Fails (s.answer (.fill path text)) "KeyError" ↔ path ∉ s.paths := by
  rw [answer_fill]
  split_ifs with hm hsettled
  · refine iff_of_false ?_ (not_not.2 hm)
    simp [fails_error_iff, Problem.toForeign, Foreign.invalidValue]
  · exact iff_of_false not_fails_ok (not_not.2 hm)
  · exact iff_of_true (fails_error_iff.2 rfl) hm

theorem fails_fill_settled_iff (s : ModuleStore) (path text : String) :
    Fails (s.answer (.fill path text)) "ValueError" ↔ s.isSettled path = true := by
  rw [answer_fill]
  split_ifs with hm hsettled
  · exact iff_of_true (fails_error_iff.2 rfl) hsettled
  · exact iff_of_false not_fails_ok hsettled
  · refine iff_of_false ?_ fun h => hm (mem_of_isSettled h)
    simp [fails_error_iff, Problem.toForeign]

theorem answer_fill_eq_ok_iff (s : ModuleStore) (path text : String) :
    s.answer (.fill path text) = .ok none ↔ path ∈ s.paths ∧ s.isSettled path = false := by
  rw [answer_fill, ← Bool.not_eq_true]
  split_ifs with hm hsettled
  · exact iff_of_false (fun h => by cases h) fun h => h.2 hsettled
  · exact iff_of_true rfl ⟨hm, hsettled⟩
  · exact iff_of_false (fun h => by cases h) fun h => hm h.1

theorem fails_add_iff (s : ModuleStore) (path text : String) :
    Fails (s.answer (.add path text)) "ValueError" ↔ path ∈ s.paths := by
  rw [answer_add]
  split_ifs with hm
  · exact iff_of_true (fails_error_iff.2 rfl) hm
  · exact iff_of_false not_fails_ok hm

theorem answer_add_eq_ok_iff (s : ModuleStore) (path text : String) :
    s.answer (.add path text) = .ok none ↔ path ∉ s.paths := by
  rw [answer_add]
  split_ifs with hm
  · exact iff_of_false (fun h => by cases h) (not_not.2 hm)
  · exact iff_of_true rfl hm

/-- The text for a path whose claim was granted is accepted. -/
theorem fill_of_granted {s s' : ModuleStore} {path : String} (h : s.reserve path = (true, s'))
    (text : String) : ∃ s'', s'.fill path text = .ok s'' := by
  cases hpath : s.contains path with
  | true =>
    rw [reserve_of_contains hpath] at h
    cases h
  | false =>
    rw [reserve_of_not_contains hpath] at h
    cases h
    exact ⟨_, fill_of_reserved (text?_claimed_self s path) text⟩

/-- What is known of a store that these calls have led to from the empty one, with failing calls
among them. -/
structure Keeps (calls : List Call) (s : ModuleStore) : Prop where
  /-- A settled path is one of the paths. -/
  settled_mem : ∀ {path}, s.isSettled path = true → path ∈ s.paths
  /-- A path that is not settled has the empty text. -/
  unsettled_text : ∀ {path}, path ∈ s.paths → s.isSettled path = false → s.get? path = some ""
  /-- The paths stand in the order in which they were claimed first. -/
  order : s.paths = (calls.filterMap Call.claim?).eraseDups
  /-- No path is removed, and none moves, whatever is called from here on. -/
  paths_stay : ∀ more, s.paths <+: (s.afterAll more).paths
  /-- A settled path stays settled and keeps its text, whatever is called from here on. -/
  text_stays : ∀ {path}, s.isSettled path = true → ∀ more,
    (s.afterAll more).isSettled path = true ∧ (s.afterAll more).get? path = s.get? path
  /-- A claim is granted exactly for a path that is not there. -/
  granted_iff : ∀ path, s.answer (.reserve path) = .ok (some true) ↔ path ∉ s.paths
  /-- A text is refused under a path that is not there. -/
  missing_iff : ∀ path text, Fails (s.answer (.fill path text)) "KeyError" ↔ path ∉ s.paths
  /-- It is refused under a settled path, for another reason. -/
  filled_iff : ∀ path text,
    Fails (s.answer (.fill path text)) "ValueError" ↔ s.isSettled path = true
  /-- It is accepted under all others. -/
  accepted_iff : ∀ path text,
    s.answer (.fill path text) = .ok none ↔ path ∈ s.paths ∧ s.isSettled path = false
  /-- A file is refused under a path that is there. -/
  taken_iff : ∀ path text, Fails (s.answer (.add path text)) "ValueError" ↔ path ∈ s.paths
  /-- It is accepted under all others. -/
  added_iff : ∀ path text, s.answer (.add path text) = .ok none ↔ path ∉ s.paths
  /-- The text for a path whose claim was just granted is accepted. -/
  fill_granted : ∀ {path s'}, s.reserve path = (true, s') →
    ∀ text, ∃ s'', s'.fill path text = .ok s''
  /-- The methods on two parts lead to the same texts in the same order and the same settled
  paths. -/
  parts_eq : Parts.empty.afterAll calls = s.parts
  /-- No path is settled in the one part that is missing in the other. -/
  parts_settled : ∀ {path}, (Parts.empty.afterAll calls).settled path = true →
    (Parts.empty.afterAll calls).texts.contains path = true
  /-- A method answers what the call of the store does. -/
  perform_eq : ∀ c, s.parts.perform c = (s.answer c, (s.after c).parts)
  /-- A method that fails leaves both parts as they were. -/
  failed : ∀ {c p left}, s.parts.perform c = (.error p, left) → left = s.parts

/-- The store keeps its promises on every run of calls, with failing calls among them. -/
theorem keeps_afterAll (calls : List Call) : Keeps calls (empty.afterAll calls) := by
  generalize hs : empty.afterAll calls = s
  have hparts : Parts.empty.afterAll calls = s.parts := by rw [← parts_empty, parts_afterAll, hs]
  refine {
    settled_mem := mem_of_isSettled
    unsettled_text := fun hm hopen => get?_of_text?
      ((s.text?_eq_some_none_iff _).2 ⟨(s.contains_iff_mem _).2 hm, hopen⟩)
    order := hs ▸ paths_afterAll calls
    paths_stay := s.paths_prefix_afterAll
    text_stays := ?text
    granted_iff := s.answer_reserve_eq_true_iff
    missing_iff := s.fails_fill_missing_iff
    filled_iff := s.fails_fill_settled_iff
    accepted_iff := s.answer_fill_eq_ok_iff
    taken_iff := s.fails_add_iff
    added_iff := s.answer_add_eq_ok_iff
    fill_granted := fill_of_granted
    parts_eq := hparts
    parts_settled := ?settled
    perform_eq := s.run_method
    failed := parts_eq_of_perform_eq_error }
  case text =>
    intro path hsettled more
    obtain ⟨text, htext⟩ := (s.isSettled_iff path).1 hsettled
    have hlater := text?_afterAll_of_settled htext more
    exact ⟨(isSettled_iff ..).2 ⟨text, hlater⟩, by rw [get?_of_text? hlater, get?_of_text? htext]⟩
  case settled =>
    intro path hsettled
    rw [hparts] at hsettled ⊢
    rw [contains_parts]
    exact (s.contains_iff_mem path).2 (mem_of_isSettled hsettled)

example : (empty.afterAll
    [.fill "/a.ts" "early", .reserve "/a.ts", .add "/a.ts" "other", .fill "/a.ts" "own",
      .fill "/a.ts" "late"]).items = [("/a.ts", "own")] := by decide

end ModuleGraph.ModuleStore
