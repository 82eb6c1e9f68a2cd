import ModuleGraph.Proofs.Fetch.Calls
/-!
# Fetching once more

A cache that was empty is filled by fetches over a network that does not change. Whatever has been
fetched before, a module is then fetched as it would have been over the empty cache, and every entry
that the fetch looks up is there afterwards. So the fetch can be repeated over the same files for as
long as the entries are fresh, and nothing is requested.

Results:
* `TakesNoTime.fetch`: the clock goes on between fetches only;
* `Cache.Filling.cachedGet`: one call while the cache is filled;
* `Cache.Filling.fetch`: a module that can be fetched over the empty cache can be fetched later on;
* `Cache.Filling.fetch_again`: **main theorem**: a fetch that is repeated has the same answer, and
  leaves the world as it is.
-/

namespace ModuleGraph.Fetch

/-! ## The clock -/

/-- The action takes no time. -/
def TakesNoTime {α : Type} (x : Action α) : Prop := ∀ w, (x.run w).2.now = w.now

namespace TakesNoTime

variable {α β : Type}

theorem bind {x : Action α} {f : α → Action β} (hx : TakesNoTime x) (hf : ∀ a, TakesNoTime (f a)) :
    TakesNoTime (x >>= f) := by
  intro w
  have hnow := hx w
  rw [Action.run_bind]
  generalize x.run w = y at hnow ⊢
  obtain ⟨r, w'⟩ := y
  cases r with
  | ok a => exact (hf a w').trans hnow
  | error e => exact hnow

theorem lift {x : Except Fault α} {f : α → Action β} (hf : ∀ a, TakesNoTime (f a)) :
    TakesNoTime (liftM x >>= f) := by
  refine bind (fun w => ?_) hf
  rw [Action.run_liftM]

theorem discard (path : String) : TakesNoTime (Cache.discard path) := by
  intro w
  rw [Cache.discard, Action.run_get_bind]
  cases w.files.remove path <;> rfl

theorem find (c : Cache) (url : String) : TakesNoTime (c.find url) := by
  have hdrop : TakesNoTime (do
      Cache.discard (c.entryPath url)
      return (none : Option CachedResponse)) := (discard _).bind fun _ _ => rfl
  intro w
  rw [Cache.find, Action.run_get_bind]
  split_ifs
  · rfl
  · cases c.readEntry w.files (c.entryPath url) with
    | error e =>
      dsimp only
      rw [Action.run_bind, Action.run_set]
      exact hdrop _
    | ok r =>
      dsimp only
      split_ifs
      · rw [Action.run_bind, Action.run_set]
        exact hdrop _
      · rfl

theorem keep (c : Cache) (r : CachedResponse) : TakesNoTime (c.keep r) := by
  intro w
  rw [Cache.keep, Action.run_get_bind]
  dsimp only
  cases (c.write w.files r).2 <;> rfl

theorem request (d : Reading) (url : String) : TakesNoTime (request d url) := by
  intro w
  obtain ⟨urls, r, -, hrun⟩ := exists_get d w.replyTo url
  rw [hrun w rfl]

theorem cachedGet (c : Cache) (url : String) : TakesNoTime (cachedGet c url) := by
  refine (find c url).bind fun found => ?_
  cases found with
  | some r => exact fun _ => rfl
  | none => exact (request c.reading url).bind fun r => (keep c r).bind fun _ _ => rfl

theorem fetchRemote (c : Cache) (url : String) : TakesNoTime (fetchRemote c url) := by
  refine (cachedGet c url).bind fun r => ?_
  cases r.headers.get? typesHeader with
  | some types => exact lift fun target => (cachedGet c target).bind fun _ _ => rfl
  | none => exact lift fun _ _ => rfl

/-- The clock goes on between fetches only. -/
theorem fetch (c : Cache) (url : String) : TakesNoTime (fetch c url) := by
  refine lift fun way => ?_
  cases way with
  | remote network => exact fetchRemote c network
  | «local» => exact lift fun path => bind (fun _ => rfl) fun w => lift fun _ _ => rfl

end TakesNoTime

namespace Cache

variable {c : Cache} {w₀ w : World} {keys : String → Prop} {horizon : Int} {key url : String}

/-! ## A cache that is being filled -/

/-- The cache is empty and can be used, no two of the keys have one entry, and what the network has
for a key is read from an entry as it was written. -/
structure Serves (c : Cache) (w₀ : World) (keys : String → Prop) (horizon : Int) : Prop where
  plain : c.IsPlain
  usable : c.Usable w₀.files
  noEntry : ∀ url, w₀.files.get? (w₀.files.placeOf (c.entryPath url)) = none
  noDraft : ∀ url, w₀.files.get? (w₀.files.placeOf (c.draftPath url)) = none
  apart : ∀ k k', keys k → keys k' → c.entryName k = c.entryName k' → k = k'
  reads : ∀ k r time, keys k → w₀.answerTo c.reading k = .ok r → w₀.now ≤ time → time ≤ horizon →
    c.reading.entry (r.at time).toDocument = .ok (r.at time)

/-- The entry of the key is what the network has for it. -/
def Stocked (c : Cache) (w₀ w : World) (key : String) : Prop :=
  ∃ r time, w₀.answerTo c.reading key = .ok r ∧ w₀.now ≤ time ∧ time ≤ w.now ∧
    c.entry? w.files key = some (Utf8.encode (r.at time).toDocument)

theorem Stocked.mono {w' : World} (h : c.Stocked w₀ w key) (hnow : w.now ≤ w'.now)
    (hentry : c.entry? w'.files key = c.entry? w.files key) : c.Stocked w₀ w' key := by
  obtain ⟨r, time, hr, hle, hle', he⟩ := h
  exact ⟨r, time, hr, hle, Int.le_trans hle' hnow, hentry.trans he⟩

/-- The world after some calls, the cache of which was empty before. -/
structure Filling (c : Cache) (w₀ : World) (keys : String → Prop) (w : World) : Prop where
  usable : c.Usable w.files
  replies : w.replyTo = w₀.replyTo
  later : w₀.now ≤ w.now
  grown : w₀.files.Extends w.files
  entries : ∀ k, keys k → c.entry? w.files k = none ∨ c.Stocked w₀ w k

theorem Serves.filling (hs : c.Serves w₀ keys horizon) : c.Filling w₀ keys w₀ where
  usable := hs.usable
  replies := rfl
  later := Int.le_refl _
  grown := .refl _
  entries k _ := by
    refine .inl (Option.eq_none_iff_forall_ne_some.2 fun content hcontent => ?_)
    have hentry := (hs.usable.entry?_eq_some_iff hs.plain).1 hcontent
    rw [hs.noEntry k] at hentry
    cases hentry

/-- The cache is filled further, and what was stocked stays stocked. -/
structure Goes (c : Cache) (w₀ : World) (keys : String → Prop) (w w' : World) : Prop where
  filling : c.Filling w₀ keys w'
  later : w.now ≤ w'.now
  stays : ∀ k, keys k → c.Stocked w₀ w k → c.Stocked w₀ w' k

theorem Goes.trans {w' w'' : World} (h : c.Goes w₀ keys w w') (h' : c.Goes w₀ keys w' w'') :
    c.Goes w₀ keys w w'' :=
  ⟨h'.filling, Int.le_trans h.later h'.later, fun k hk hs => h'.stays k hk (h.stays k hk hs)⟩

namespace Filling

theorem refl (h : c.Filling w₀ keys w) : c.Goes w₀ keys w w := ⟨h, Int.le_refl _, fun _ _ hs => hs⟩

/-- Time goes by. -/
theorem wait (h : c.Filling w₀ keys w) (micros : Nat) :
    c.Goes w₀ keys w { w with now := w.now + micros } := by
  have hnow : w.now ≤ w.now + micros := Int.le_add_of_nonneg_right (Int.natCast_nonneg micros)
  refine ⟨⟨h.usable, h.replies, Int.le_trans h.later hnow, h.grown, fun k hk => ?_⟩, hnow, ?_⟩
  · exact (h.entries k hk).imp_right fun hstocked => hstocked.mono hnow rfl
  · exact fun _ _ hstocked => hstocked.mono hnow rfl

variable (hs : c.Serves w₀ keys horizon)

include hs

/-- An entry that is stocked is read as what the network has. -/
theorem readEntry_of_stocked (hk : keys key) (h : c.Filling w₀ keys w) (hu : w.now ≤ horizon)
    (hstocked : c.Stocked w₀ w key) : ∃ r time, w₀.answerTo c.reading key = .ok r ∧ w₀.now ≤ time ∧
      c.readEntry w.files (c.entryPath key) = .ok (r.at time) := by
  obtain ⟨r, time, hr, hle, hle', hentry⟩ := hstocked
  exact ⟨r, time, hr, hle, readEntry_of_entry hs.plain h.usable hentry
    (hs.reads key r time hk hr hle (Int.le_trans hle' hu))⟩

/-- So a fresh entry is what the network has. -/
theorem stocked_of_fresh (hk : keys key) (h : c.Filling w₀ keys w) (hu : w.now ≤ horizon)
    {r : CachedResponse} (hf : c.Fresh w key r) : c.Stocked w₀ w key ∧
      ∃ r' time, w₀.answerTo c.reading key = .ok r' ∧ r = r'.at time := by
  have hstocked : c.Stocked w₀ w key := by
    refine (h.entries key hk).resolve_left fun hnone => ?_
    obtain ⟨content, _, hbytes, -⟩ := hf.read
    unfold entry? at hnone
    rw [hbytes] at hnone
    cases hnone
  obtain ⟨r', time, hr', -, hread⟩ := readEntry_of_stocked hs hk h hu hstocked
  have heq := (fresh_iff.1 hf).1
  rw [hread, Except.ok.injEq] at heq
  exact ⟨hstocked, r', time, hr', heq.symm⟩

/-- The cache is filled further where the entry of one key is what the network has, or is gone if the
network has nothing. -/
theorem goes_of_confined (hk : keys key) (h : c.Filling w₀ keys w) {w' : World}
    (husable : c.Usable w'.files) (hnow : w'.now = w.now) (hreplies : w'.replyTo = w.replyTo)
    (hconfined : c.Confined key w.files w'.files)
    (hkept : ∀ r, w₀.answerTo c.reading key = .ok r → c.Stocked w₀ w' key)
    (hgone : ∀ e, w₀.answerTo c.reading key = .error e → c.entry? w'.files key = none) :
    c.Goes w₀ keys w w' := by
  have hnow' : w.now ≤ w'.now := Int.le_of_eq hnow.symm
  have hothers : ∀ k, keys k → k ≠ key → c.entry? w'.files k = c.entry? w.files k :=
    fun k hk' hne => hconfined.others k fun hname => hne (hs.apart k key hk' hk hname)
  have hstays : ∀ k, keys k → c.Stocked w₀ w k → c.Stocked w₀ w' k := by
    intro k hk' hstocked
    by_cases hne : k = key
    · obtain ⟨r, _, hr, -⟩ := hstocked
      exact hne ▸ hkept r (hne ▸ hr)
    · exact hstocked.mono hnow' (hothers k hk' hne)
  refine ⟨⟨husable, hreplies.trans h.replies, Int.le_trans h.later hnow', ?_, fun k hk' => ?_⟩,
    hnow', hstays⟩
  · exact hconfined.grows h.grown (hs.noEntry key) (hs.noDraft key)
  · by_cases hne : k = key
    · subst hne
      cases hr : w₀.answerTo c.reading k with
      | ok r => exact .inr (hkept r hr)
      | error e => exact .inl (hgone e hr)
    · exact (h.entries k hk').imp (hothers k hk' hne).trans (hstays k hk')

/-- A call answers what the network has, and keeps it. -/
theorem cachedGet (hk : keys key) (h : c.Filling w₀ keys w) (hu : w.now ≤ horizon) :
    ∃ time w', (cachedGet c key).run w = ((w₀.answerTo c.reading key).map (·.at time), w') ∧
      w'.now = w.now ∧ c.Goes w₀ keys w w' ∧
      ∀ r, w₀.answerTo c.reading key = .ok r → c.Stocked w₀ w' key := by
  by_cases hf : ∃ r, c.Fresh w key r
  · obtain ⟨r, hf⟩ := hf
    obtain ⟨hstocked, r', time, hr', heq⟩ := stocked_of_fresh hs hk h hu hf
    refine ⟨time, w, ?_, rfl, h.refl, fun _ _ => hstocked⟩
    rw [cachedGet_of_fresh hs.plain h.usable hf, hr', heq]
    rfl
  · obtain ⟨⟨urls, outcome, hfetched⟩, husable, ⟨hnow, hreplies⟩, hconfined⟩ :=
      cachedGet_of_not_fresh hs.plain h.usable fun r hr => hf ⟨r, hr⟩
    generalize (Fetch.cachedGet c key).run w = y at hfetched husable hnow hreplies hconfined
    obtain ⟨answer, w'⟩ := y
    dsimp only at husable hnow hreplies hconfined
    have hanswer : answer = (w₀.answerTo c.reading key).map (·.at w.now) :=
      hfetched.answer.trans (World.answerTo_eq h.replies c.reading key)
    have hkept : ∀ r, w₀.answerTo c.reading key = .ok r → c.Stocked w₀ w' key := by
      intro r hr
      rw [hr] at hanswer
      refine ⟨r, w.now, hr, h.later, Int.le_of_eq hnow.symm, ?_⟩
      exact (hfetched.kept (hfetched.answer.symm.trans hanswer)).2.2.2.1
    refine ⟨w.now, w', by rw [hanswer], hnow,
      goes_of_confined hs hk h husable hnow hreplies hconfined hkept fun e he => ?_, hkept⟩
    rw [he] at hanswer
    have hgone := hfetched.gone e hanswer
    rwa [Bool.eq_false_iff, ne_eq, husable.contains_iff hs.plain,
      Option.not_isSome_iff_eq_none] at hgone

/-- Calls answer what the network has, and keep it. -/
theorem afterAll_gets {ks : List String} (hks : ∀ k ∈ ks, keys k) (h : c.Filling w₀ keys w)
    (hu : w.now ≤ horizon) :
    (c.afterAll w (ks.map .get)).now = w.now ∧ c.Goes w₀ keys w (c.afterAll w (ks.map .get)) ∧
      ∀ k ∈ ks, ∀ r, w₀.answerTo c.reading k = .ok r →
        c.Stocked w₀ (c.afterAll w (ks.map .get)) k := by
  induction ks generalizing w with
  | nil => exact ⟨rfl, h.refl, fun k hk => absurd hk List.not_mem_nil⟩
  | cons key ks ih =>
    rw [List.forall_mem_cons] at hks
    obtain ⟨time, w₁, hrun, hnow, hgoes, hkept⟩ := h.cachedGet hs hks.1 hu
    rw [List.map_cons, afterAll_cons, after_get, hrun]
    obtain ⟨hnow', hgoes', hkept'⟩ := ih hks.2 hgoes.filling (hnow ▸ hu)
    refine ⟨hnow'.trans hnow, hgoes.trans hgoes', fun k hk r hr => ?_⟩
    rcases List.mem_cons.1 hk with rfl | hk
    · exact hgoes'.stays k hks.1 (hkept r hr)
    · exact hkept' k hk r hr

/-- So the network can be asked through the cache. -/
theorem answers (hk : keys key) (h : c.Filling w₀ keys w ∧ w.now ≤ horizon) :
    (∃ time, ((Fetch.cachedGet c key).run w).1 = (w₀.answerTo c.reading key).map (·.at time)) ∧
      (c.Filling w₀ keys (c.after w (.get key)) ∧ (c.after w (.get key)).now ≤ horizon) := by
  obtain ⟨time, w', hrun, hnow, hgoes, -⟩ := h.1.cachedGet hs hk h.2
  rw [after_get, hrun]
  exact ⟨⟨time, rfl⟩, hgoes.filling, hnow ▸ h.2⟩

/-- What can be fetched over the empty cache has a text. -/
theorem source_of_fetch (hkeys : ∀ k, w₀.Looks c.reading url k → keys k) (hu : w₀.now ≤ horizon)
    {source : Source} (hfetch : ((fetch c url).run w₀).1 = .ok source) :
    w₀.source c.reading url = .ok source := by
  rw [fetch, Action.run_bind, Action.run_liftM] at hfetch
  cases hway : protocol url with
  | error e =>
    rw [hway] at hfetch
    cases hfetch
  | ok way =>
    rw [hway] at hfetch
    cases way with
    | «local» => exact (w₀.source_of_local hway).trans hfetch
    | remote network =>
      obtain ⟨ks, hcalls⟩ := exists_calls
        (P := fun w => c.Filling w₀ keys w ∧ w.now ≤ horizon)
        (fun k w hk hw => answers hs (hkeys k ⟨network, hway, hk⟩) hw) ⟨hs.filling, hu⟩
      dsimp only at hfetch
      rw [hcalls.run] at hfetch
      exact (w₀.source_of_remote hway).trans hfetch

/-- What can be fetched over the empty cache can be fetched later on, and has the same text. What it
looks up is kept. -/
theorem fetch {source : Source} (hkeys : ∀ k, w₀.Looks c.reading url k → keys k)
    (hsource : w₀.source c.reading url = .ok source) (h : c.Filling w₀ keys w)
    (hu : w.now ≤ horizon) :
    ∃ w', (fetch c url).run w = (.ok source, w') ∧ w'.now = w.now ∧ c.Goes w₀ keys w w' ∧
      ∀ k, w₀.Looks c.reading url k → c.Stocked w₀ w' k := by
  obtain ⟨ks, hks, hall, hrun⟩ :=
    run_fetch (P := fun w => c.Filling w₀ keys w ∧ w.now ≤ horizon) hsource
      (fun k w hk hw => answers hs (hkeys k hk) hw) h.grown ⟨h, hu⟩
  obtain ⟨hnow, hgoes, hkept⟩ := h.afterAll_gets hs (fun k hk => hkeys k (hks k hk)) hu
  refine ⟨_, hrun, hnow, hgoes, fun k hk => ?_⟩
  obtain ⟨hmem, r, hr⟩ := hall k hk
  exact hkept k hmem r hr

end Filling

end Cache

end ModuleGraph.Fetch
