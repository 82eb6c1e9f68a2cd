import ModuleGraph.Proofs.Loading.Family
/-!
# What is written into a file whose dependencies may fail

A file asks for a module once for each stretch that names it, and of all requests for a path only
one claims it. The others are answered from the claim, before it is known whether the module can be
loaded. So a stretch is left as it was exactly if it has no path, or if it is the one that claimed
the path and the path was never filled.

Results:
* `planned_eq_some_iff`: the edit that a request is after;
* `Chronicle.edit?_eq_led`: what has become of a request once its task has ended;
* `text_of_settled`: **main theorem**: the final text of a file, whichever of its dependencies fail
  and whoever asks for them first;
* `answered_before_failure`: a stretch may be rewritten to a path that is never filled.
-/

namespace ModuleGraph.Loading

variable {σ : Type}

/-! ## What a request is after -/

/-- A request leads to an edit exactly if it is after a path, namely to the edit that writes the
path. -/
theorem planned_eq_some_iff (c : Setting σ) (source : String) (t : Target) (e : Edit) :
    Rewrite.planned c.importMap source (.module t) = some e ↔
      ∃ k urls, (Demand.target source t).aim c = .ok (k, urls) ∧ e = Rewrite.edit t k.path := by
  simp only [aim_target_eq_ok_iff, Rewrite.planned]
  cases hr : c.importMap.resolve source t.specifier with
  | error f => simp
  | ok url =>
    cases hp : virtualPath url with
    | error f =>
      simp only [hp, reduceCtorEq, false_iff, not_exists, not_and]
      rintro k urls ⟨heq, hpath, -⟩
      rw [Except.ok.injEq] at heq
      rw [← heq, hp] at hpath
      cases hpath
    | ok path =>
      simp only [hp, Option.some.injEq]
      constructor
      · rintro rfl
        exact ⟨⟨url, path⟩, [url], ⟨rfl, hp, rfl⟩, rfl⟩
      · rintro ⟨k, urls, ⟨heq, hpath, -⟩, rfl⟩
        rw [Except.ok.injEq] at heq
        rw [← heq, hp, Except.ok.injEq] at hpath
        rw [hpath]

/-! ## What has become of a request -/

theorem zip_of_map_eq {α β γ : Type} {f : α → γ} {g : β → γ} {l : List α} {l' : List β}
    (h : l.map f = l'.map g) :
    (∀ x ∈ l.zip l', f x.1 = g x.2) ∧ (∀ a ∈ l, ∃ b, (a, b) ∈ l.zip l') ∧
      ∀ b ∈ l', ∃ a, (a, b) ∈ l.zip l' := by
  induction l generalizing l' with
  | nil =>
    rw [List.map_nil, eq_comm, List.map_eq_nil_iff] at h
    subst h
    exact ⟨by simp, by simp, by simp⟩
  | cons a l ih =>
    cases l' with
    | nil => cases h
    | cons b l' =>
      rw [List.map_cons, List.map_cons, List.cons.injEq] at h
      obtain ⟨hzip, hleft, hright⟩ := ih h.2
      refine ⟨?_, ?_, ?_⟩
      · intro x hx
        rcases List.mem_cons.1 hx with rfl | hx
        · exact h.1
        · exact hzip x hx
      · intro a' ha'
        rcases List.mem_cons.1 ha' with rfl | ha'
        · exact ⟨b, List.mem_cons_self⟩
        · obtain ⟨b', hb'⟩ := hleft a' ha'
          exact ⟨b', List.mem_cons_of_mem _ hb'⟩
      · intro b' hb'
        rcases List.mem_cons.1 hb' with rfl | hb'
        · exact ⟨a, List.mem_cons_self⟩
        · obtain ⟨a', ha'⟩ := hright b' hb'
          exact ⟨a', List.mem_cons_of_mem _ ha'⟩

namespace State

/-- The places of the tasks that the task at `i` has asked for, in the order in which it asked. -/
def places (s : State σ) (i : Nat) : List Nat :=
  (s.tasks.zipIdx.filter fun x => x.1.parent = some i).map Prod.snd

/-- The path has no text, and the task at `j` has claimed it. -/
def hasLost (s : State σ) (log : List Deed) (j : Nat) (path : String) : Bool :=
  s.store.text? path = some none && log.any fun
    | .claimed i k _ => i = j && k.path = path
    | _ => false

/-- The edit that a request leads to, which the task at `x.2` was asked for: its path is written,
unless this very task has claimed the path in vain. -/
def led (c : Setting σ) (s : State σ) (log : List Deed) (source : String) (x : Request × Nat) :
    Option Edit :=
  match x.1 with
  | .library _ => none
  | .module t =>
    match (Demand.target source t).aim c with
    | .error _ => none
    | .ok (k, _) => if s.hasLost log x.2 k.path then none else some (Rewrite.edit t k.path)

theorem nodup_places (s : State σ) (i : Nat) : (s.places i).Nodup := by
  have hsnd : (s.tasks.zipIdx.map Prod.snd).Nodup := by
    rw [List.zipIdx_map_snd]
    exact List.nodup_range'
  exact hsnd.sublist (List.filter_sublist.map Prod.snd)

theorem mem_places_iff (s : State σ) (i j : Nat) :
    j ∈ s.places i ↔ ∃ t, s.tasks[j]? = some t ∧ t.parent = some i := by
  simp only [places, List.mem_map, List.mem_filter, decide_eq_true_eq,
    List.mem_zipIdx_iff_getElem?, Prod.exists]
  constructor
  · rintro ⟨t, _, ⟨ht, hp⟩, rfl⟩
    exact ⟨t, ht, hp⟩
  · rintro ⟨t, ht, hp⟩
    exact ⟨t, j, ⟨ht, hp⟩, rfl⟩

/-- What was asked for stands at the places, in the same order. -/
theorem asked_eq_places (s : State σ) (i : Nat) :
    (s.asked i).map some = (s.places i).map fun j => s.tasks[j]?.map Task.demand := by
  have hfst : s.asked i =
      (s.tasks.zipIdx.filter fun x => x.1.parent = some i).map fun x => x.1.demand := by
    rw [← List.filterMap_eq_map, List.filterMap_filter, asked]
    conv_lhs => rw [← List.zipIdx_map_fst 0 s.tasks, List.filterMap_map]
    apply List.filterMap_congr
    intro x hx
    simp
  rw [hfst, places, List.map_map, List.map_map]
  apply List.map_congr_left
  intro x hx
  have hx' := List.mem_zipIdx_iff_getElem?.1 (List.mem_filter.1 hx).1
  simp [hx']

/-- The tasks that were asked for requests stand at the places, in the same order. -/
theorem zip_places {s : State σ} {i : Nat} {source : String} {rs : List Request}
    (h : s.asked i = rs.map (demandOf source)) :
    (∀ x ∈ rs.zip (s.places i), ∃ t, s.tasks[x.2]? = some t ∧ t.parent = some i ∧
      t.demand = demandOf source x.1) ∧
    (∀ r ∈ rs, ∃ j, (r, j) ∈ rs.zip (s.places i)) ∧
      ∀ j ∈ s.places i, ∃ r, (r, j) ∈ rs.zip (s.places i) := by
  have hplaces := s.asked_eq_places i
  rw [h, List.map_map] at hplaces
  obtain ⟨hzip, hleft, hright⟩ := zip_of_map_eq hplaces
  refine ⟨fun x hx => ?_, hleft, hright⟩
  obtain ⟨t, ht, hp⟩ := (s.mem_places_iff i x.2).1 (List.of_mem_zip hx).2
  have hdemand := hzip x hx
  simp only [Function.comp_apply, ht, Option.map_some, Option.some.injEq] at hdemand
  exact ⟨t, ht, hp, hdemand.symm⟩

theorem length_places {s : State σ} {i : Nat} {source : String} {rs : List Request}
    (h : s.asked i = rs.map (demandOf source)) : rs.length = (s.places i).length := by
  have hplaces := congrArg List.length (s.asked_eq_places i)
  rw [h] at hplaces
  simpa using hplaces

/-- The edits of requests share no byte, which can be said place by place. -/
theorem pairwise_apart_iff {s : State σ} {i : Nat} {source : String} {rs : List Request}
    (h : s.asked i = rs.map (demandOf source)) (f : Request → Option Edit) :
    (rs.filterMap f).Pairwise Edit.Apart ↔
      ∀ x ∈ rs.zip (s.places i), ∀ x' ∈ rs.zip (s.places i), x.2 ≠ x'.2 →
        ∀ e e', f x.1 = some e → f x'.1 = some e' → e.Apart e' := by
  have hfst : (rs.zip (s.places i)).map Prod.fst = rs := List.map_fst_zip (length_places h).le
  have hsnd : (rs.zip (s.places i)).Pairwise fun x x' => x.2 ≠ x'.2 := by
    apply List.pairwise_map.1
    rw [List.map_snd_zip (length_places h).ge]
    exact s.nodup_places i
  have hsplit : (rs.filterMap f).Pairwise Edit.Apart ↔ (rs.zip (s.places i)).Pairwise
      fun x x' => ∀ e, f x.1 = some e → ∀ e', f x'.1 = some e' → e.Apart e' := by
    conv_lhs => rw [← hfst, List.filterMap_map, List.pairwise_filterMap]
    rfl
  rw [hsplit]
  constructor
  · intro hpair x hx x' hx' hne e e' he he'
    obtain ⟨m, hm, rfl⟩ := List.mem_iff_getElem.1 hx
    obtain ⟨n, hn, rfl⟩ := List.mem_iff_getElem.1 hx'
    rw [List.pairwise_iff_getElem] at hpair
    rcases Nat.lt_trichotomy m n with hlt | rfl | hlt
    · exact hpair m n hm hn hlt e he e' he'
    · exact absurd rfl hne
    · exact (hpair n m hn hm hlt e' he' e he).symm
  · intro hall
    apply hsnd.imp_of_mem
    intro x x' hx hx' hne e he e' he'
    exact hall x hx x' hx' hne e e' he he'

theorem hasLost_iff (s : State σ) (log : List Deed) (j : Nat) (path : String) :
    s.hasLost log j path = true ↔
      s.store.text? path = some none ∧ ∃ k urls, .claimed j k urls ∈ log ∧ k.path = path := by
  rw [hasLost, Bool.and_eq_true, decide_eq_true_eq, List.any_eq_true]
  apply and_congr_right
  intro _
  constructor
  · rintro ⟨x, hx, hlost⟩
    cases x with
    | claimed i k urls =>
      simp only [Bool.and_eq_true, decide_eq_true_eq] at hlost
      exact ⟨k, urls, hlost.1 ▸ hx, hlost.2⟩
    | fetched i path url r => cases hlost
    | drafted i path source => cases hlost
    | filled i path text => cases hlost
    | added path text => cases hlost
  · rintro ⟨k, urls, hk, rfl⟩
    exact ⟨_, hk, by simp⟩

end State

/-- A task that was asked for a request and has not failed has led to the edit of the request. -/
theorem Chronicle.edit?_eq_led {c : Setting σ} {world : σ} {s : State σ} {log : List Deed}
    (h : Chronicle c world s log) {j : Nat} {t : Task} (ht : s.tasks[j]? = some t) (hdone : t.Done)
    {source : String} {r : Request} (hr : t.demand = State.demandOf source r) :
    t.edit? = s.led c log source (r, j) := by
  obtain ⟨o, ho, hne⟩ := hdone
  cases r with
  | library name =>
    unfold Task.edit?
    rw [hr]
    rfl
  | module target =>
    rw [State.demandOf] at hr
    have hsome : ∀ path, o = .loaded path → t.edit? = some (Rewrite.edit target path) := by
      rintro path rfl
      exact (t.edit?_eq_some_iff _).2 ⟨source, target, path, hr, ho, rfl⟩
    have hnone : ∀ cause, o = t.demand.verdict cause → t.edit? = none := by
      rintro cause rfl
      apply Option.eq_none_iff_forall_ne_some.2
      intro e he
      obtain ⟨_, _, path, -, ho', -⟩ := (t.edit?_eq_some_iff e).1 he
      rw [ho, Phase.finished.injEq] at ho'
      exact t.demand.verdict_ne_loaded cause path ho'
    -- A task that has a path is not one that has lost it.
    have hkept : ∀ k urls, t.demand.aim c = .ok (k, urls) → t.demand.Yields k.path o →
        ¬ s.hasLost log j k.path = true → t.edit? = s.led c log source (.module target, j) := by
      intro k urls ha hy hlost
      rw [hr] at ha
      rcases hy with rfl | ⟨-, e, he⟩
      · simp only [hsome _ rfl, State.led, ha, if_neg hlost]
      · exact absurd he (hne e)
    have hlost : ∀ k urls cause, t.demand.aim c = .ok (k, urls) → .claimed j k urls ∈ log →
        s.store.text? k.path = some none → o = t.demand.verdict cause →
        t.edit? = s.led c log source (.module target, j) := by
      intro k urls cause ha hk htext ho'
      have htrue := (s.hasLost_iff log j k.path).2 ⟨htext, k, urls, hk, rfl⟩
      rw [hr] at ha
      simp only [hnone cause ho', State.led, ha, if_pos htrue]
    have hstory := h.stories j t ht
    have hmem : ∀ {x}, x ∈ own j log → x ∈ log := fun hx => (mem_own.1 hx).1
    have hown : ∀ {k urls}, .claimed j k urls ∈ log → .claimed j k urls ∈ own j log := fun hk =>
      mem_own.2 ⟨hk, rfl⟩
    generalize own j log = l at hstory hmem hown
    rw [ho] at hstory
    cases hstory with
    | refused ha =>
      rw [hr] at ha
      simp only [hnone _ rfl, State.led, ha]
    | answered ha hs hy =>
      apply hkept _ _ ha hy
      intro htrue
      obtain ⟨-, k, urls, hk, -⟩ := (s.hasLost_iff log j _).1 htrue
      cases hown hk
    | lost ha htried hs => exact hlost _ _ _ ha (hmem List.mem_cons_self) hs rfl
    | dropped ha hs => exact hlost _ _ _ ha (hmem List.mem_cons_self) hs rfl
    | settled ha hs hy =>
      apply hkept _ _ ha hy
      intro htrue
      obtain ⟨htext, -⟩ := (s.hasLost_iff log j _).1 htrue
      rw [hs] at htext
      cases htext

/-! ## The text of a file -/

/-- The edits that the tasks of a draft have led to are those of its requests. -/
theorem Chronicle.mem_edits_iff_led {c : Setting σ} {world : σ} {s : State σ} {log : List Deed}
    (h : Chronicle c world s log) {i : Nat} {source : String} {rs : List Request}
    (hasked : s.asked i = rs.map (State.demandOf source))
    (hdone : ∀ (j : Nat) (t : Task), s.tasks[j]? = some t → t.parent = some i → t.Done) (e : Edit) :
    e ∈ s.edits i ↔ e ∈ (rs.zip (s.places i)).filterMap (s.led c log source) := by
  obtain ⟨hzip, -, hmem⟩ := State.zip_places hasked
  rw [State.mem_edits_iff, List.mem_filterMap]
  constructor
  · rintro ⟨j, t, ht, hp, he⟩
    obtain ⟨r, hr⟩ := hmem j ((s.mem_places_iff i j).2 ⟨t, ht, hp⟩)
    obtain ⟨t', ht', -, hdemand⟩ := hzip (r, j) hr
    rw [ht, Option.some.injEq] at ht'
    subst ht'
    exact ⟨(r, j), hr, (h.edit?_eq_led ht (hdone j t ht hp) hdemand).symm.trans he⟩
  · rintro ⟨⟨r, j⟩, hx, he⟩
    obtain ⟨t, ht, hp, hdemand⟩ := hzip (r, j) hx
    exact ⟨j, t, ht, hp, (h.edit?_eq_led ht (hdone j t ht hp) hdemand).trans he⟩

/-- **main theorem**: whatever is asked for, whatever fails and in whatever order the tasks
advance, a file that was loaded has the fetched text in which every stretch that has a path names
it, except those whose own request has claimed a path that was never filled. -/
theorem text_of_settled (c : Setting σ) (world : σ) (moves : List Move) (path text : String) :
    let s := (State.start world).play c moves
    let log := (State.start world).log c moves
    s.store.text? path = some (some text) → .added path text ∈ log ∨
      ∃ i source rs, .drafted i path source ∈ log ∧
        Rewrite.requests path source.text = .ok rs ∧
        (s.places i).map (fun j => s.tasks[j]?.map Task.demand) =
          rs.map (fun r => some (State.demandOf source.url r)) ∧
        Editor.Coherent ((rs.zip (s.places i)).filterMap (s.led c log source.url)) ∧
        Utf8.encode text = Editor.patch
          ((rs.zip (s.places i)).filterMap (s.led c log source.url)) (Utf8.encode source.text) := by
  intro s log htext
  have hreached : Reached c world (fun _ => True) s log := reached_play c world fun _ _ => trivial
  have h := hreached.chronicle
  rcases (h.texts path text).1 htext with hadded | ⟨i, hfilled⟩
  · exact .inl hadded
  · obtain ⟨source, hdrafted, hmade⟩ := hreached.family.made i path text hfilled
    obtain ⟨rs, hrs, hasked⟩ := hmade.asked
    have hmem := h.mem_edits_iff_led hasked hmade.done
    refine .inr ⟨i, source, rs, hdrafted, hrs, ?_, fun a ha b hb => ?_, ?_⟩
    · rw [← s.asked_eq_places i, hasked, List.map_map]
      rfl
    · exact hmade.apart.coherent a ((hmem a).2 ha) b ((hmem b).2 hb)
    · rw [hmade.text_eq]
      exact Editor.patch_congr hmem hmade.apart.coherent _

/-- Libraries come from the network, sources from a list of URLs with their texts. -/
def Setting.ofTexts (texts : List (String × String)) : Setting Unit where
  importMap := .empty
  libraryDir := "https://lib.example/dts/"
  bundledDir := "file:///bundled/"
  libraryLocation := "/https/lib.example/dts"
  fetch := fun url w =>
    match texts.find? fun x => x.1 = url with
    | some x => (.ok ⟨x.2, url, .empty⟩, w)
    | none => (.error (.fetch url "not found"), w)

/-- A file that names twice a module which nobody has. -/
def twiceGone : Setting Unit :=
  .ofTexts [("file:///a.ts", "import \"./gone.ts\"; import \"./gone.ts\";")]

/-- The second of two requests for a module is made while the module is fetched. -/
def answeredEarly : List Move :=
  .ask (.module "file:///a.ts" "file:///a.ts") :: [0, 0, 0, 1, 2, 1, 0].map .step

set_option maxRecDepth 100000 in
/-- A stretch may name a path that is never filled: every task has ended, the module was not
loaded, and the second stretch that names it was rewritten. -/
theorem answered_before_failure :
    let s := (State.start ()).play twiceGone answeredEarly
    (∀ t ∈ s.tasks, t.outcome?.isSome = true) ∧ s.store.text? "/gone.ts" = some none ∧
      s.store.text? "/a.ts" = some (some "import \"./gone.ts\"; import \"/gone.ts\";") := by
  decide +kernel

set_option maxRecDepth 100000 in
theorem text_of_settled_twiceGone :
    let s := (State.start ()).play twiceGone answeredEarly
    let log := (State.start ()).log twiceGone answeredEarly
    let text := "import \"./gone.ts\"; import \"/gone.ts\";"
    s.store.text? "/a.ts" = some (some text) ∧ (.added "/a.ts" text ∈ log ∨
      ∃ i source rs, .drafted i "/a.ts" source ∈ log ∧
        Rewrite.requests "/a.ts" source.text = .ok rs ∧
        (s.places i).map (fun j => s.tasks[j]?.map Task.demand) =
          rs.map (fun r => some (State.demandOf source.url r)) ∧
        Editor.Coherent ((rs.zip (s.places i)).filterMap (s.led twiceGone log source.url)) ∧
        Utf8.encode text = Editor.patch
          ((rs.zip (s.places i)).filterMap (s.led twiceGone log source.url))
          (Utf8.encode source.text)) := by
  have htext : ((State.start ()).play twiceGone answeredEarly).store.text? "/a.ts" =
      some (some "import \"./gone.ts\"; import \"/gone.ts\";") := by
    decide +kernel
  exact ⟨htext, text_of_settled twiceGone () answeredEarly _ _ htext⟩

end ModuleGraph.Loading
