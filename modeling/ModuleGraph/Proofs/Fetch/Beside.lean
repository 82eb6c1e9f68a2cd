import ModuleGraph.Proofs.Fetch.Escape
import ModuleGraph.Proofs.Fetch.Replay
/-!
# Worlds that differ in one module

A world in which one request has another reply differs from the first in what is kept of the module
behind it, and in nothing else that a fetch could tell. A fetch that neither sends the request nor
looks up the entry of the module, nor reads the files of the cache itself, comes to the same in both.

Results:
* `Cache.StaysWithin.fetch`: a fetch changes no file outside the directory of the cache;
* `Cache.Beside.cachedGet`: a call for another module;
* `Cache.Beside.fetch`: **main theorem**: a fetch of another module;
* `Cache.beside_fetch`: a fetch of the module itself, if it has no types or there was an error.
-/

namespace ModuleGraph

namespace Fetch

/-! ## What calls change -/

namespace Cache

/-- What fetching changes of a world: what is kept, what was requested, and the log. -/
structure Within (c : Cache) (w w' : World) : Prop where
  usable : c.Usable w'.files
  files : w.files.SameBut c.directory w'.files
  now : w'.now = w.now
  replies : w'.replyTo = w.replyTo
  requests : w.requests <+: w'.requests

namespace Within

variable {c : Cache} {w w' w'' : World}

theorem refl (h : c.Usable w.files) : c.Within w w := ⟨h, .refl _ _, rfl, rfl, List.prefix_rfl⟩

theorem trans (h : c.Within w w') (h' : c.Within w' w'') : c.Within w w'' :=
  ⟨h'.usable, h.files.trans h'.files, h'.now.trans h.now, h'.replies.trans h.replies,
    h.requests.trans h'.requests⟩

end Within

section

variable {c : Cache} {w : World} {url : String} (hc : c.IsPlain)

include hc

/-- Nothing outside is an entry or a draft. -/
theorem place_ne_of_outside {t : FileTree} {q : List (List Char)}
    (hq : ¬ t.placeOf c.directory <+: q) (url : String) :
    q ≠ t.placeOf (c.entryPath url) ∧ q ≠ t.placeOf (c.draftPath url) := by
  constructor
  · rintro rfl
    rw [place_entry hc] at hq
    exact hq (List.prefix_append ..)
  · rintro rfl
    rw [place_draft hc] at hq
    exact hq (List.prefix_append ..)

theorem sameBut_write {t : FileTree} (h : c.Usable t) (r : CachedResponse) :
    t.SameBut c.directory (c.write t r).1 := by
  obtain ⟨made, hmade, hstart, husable, hdir, hsame⟩ := h.makeDirectory hc
  rw [← FileTree.placeOf_congr hstart] at hdir
  obtain ⟨drafted, t', hwrite, hreplace, hstart', -, -, hother⟩ :=
    husable.draft_replaces hc hdir r.url (Utf8.encode r.toDocument)
  have hwritten : c.write t r = (t', none) := by
    rw [Cache.write, hmade]
    simp only [hwrite, hreplace]
  rw [hwritten]
  refine ⟨hstart'.trans hstart, fun q hq content => ?_⟩
  obtain ⟨hentry, hdraft⟩ :=
    place_ne_of_outside hc (t := made) (FileTree.placeOf_congr hstart c.directory ▸ hq) r.url
  rw [hother q hentry hdraft]
  by_cases hp : q <+: t.placeOf c.directory
  · -- What stands above the entries is no file, neither before nor after.
    have hfree := h.free q hp
    have hfree' := husable.free q (FileTree.placeOf_congr hstart c.directory ▸ hp)
    constructor
    · intro hfile
      rw [FileTree.isFileAt, hfile] at hfree'
      cases hfree'
    · intro hfile
      rw [FileTree.isFileAt, hfile] at hfree
      cases hfree
  · rw [hsame q hp]

theorem within_discard (h : c.Usable w.files) (url : String) :
    c.Within w ((Cache.discard (c.entryPath url)).run w).2 := by
  rw [Cache.discard, Action.run_get_bind]
  cases hr : w.files.remove (c.entryPath url) with
  | error p => exact .refl h
  | ok files =>
    by_cases hentry : ∃ content, w.files.get? (w.files.placeOf (c.entryPath url)) =
        some (.file content)
    · obtain ⟨content, hget⟩ := hentry
      have hremoved := FileTree.remove_eq h.sound (plain_entry hc url) hget
      obtain rfl : w.files.erase _ = files := Except.ok.inj (hremoved.symm.trans hr)
      refine ⟨h.erase hc ⟨content, hget⟩, ⟨FileTree.start_erase .., fun q hq content => ?_⟩, rfl, rfl,
        List.prefix_rfl⟩
      change FileTree.get? (w.files.erase _) q = _ ↔ _
      rw [FileTree.get?_erase _ (by rw [place_entry hc]; simp),
        if_neg (place_ne_of_outside hc hq url).1]
    · unfold FileTree.remove at hr
      split at hr
      · cases hr
        exact .refl h
      · cases hr
      · cases hr
      · next content hn =>
        exact absurd ⟨content, (FileTree.node_eq_ok_iff h.sound (plain_entry hc url)).1 hn⟩ hentry

end

/-- The action changes no file outside the directory of the cache. -/
def StaysWithin {α : Type} (c : Cache) (x : Action α) : Prop :=
  ∀ w, c.Usable w.files → c.Within w (x.run w).2

namespace StaysWithin

variable {α β : Type} {c : Cache}

theorem bind {x : Action α} {f : α → Action β} (hx : c.StaysWithin x)
    (hf : ∀ a, c.StaysWithin (f a)) : c.StaysWithin (x >>= f) := by
  intro w h
  have hwithin := hx w h
  rw [Action.run_bind]
  generalize x.run w = y at hwithin ⊢
  obtain ⟨r, w'⟩ := y
  cases r with
  | ok a => exact hwithin.trans (hf a w' hwithin.usable)
  | error e => exact hwithin

theorem lift {x : Except Fault α} {f : α → Action β} (hf : ∀ a, c.StaysWithin (f a)) :
    c.StaysWithin (liftM x >>= f) := by
  refine bind (fun w h => ?_) hf
  rw [Action.run_liftM]
  exact .refl h

theorem request (d : Reading) (url : String) : c.StaysWithin (request d url) := by
  intro w h
  obtain ⟨urls, r, -, hrun⟩ := exists_get d w.replyTo url
  rw [hrun w rfl]
  exact ⟨h, .refl _ _, rfl, rfl, List.prefix_append ..⟩

variable (hc : c.IsPlain)

include hc

theorem find (url : String) : c.StaysWithin (c.find url) := by
  intro w h
  have hdrop : ∀ level message, c.Within w ((do
      Cache.discard (c.entryPath url)
      return (none : Option CachedResponse) : Action (Option CachedResponse)).run
        (w.tell level message)).2 := by
    intro level message
    have htold : c.Within w (w.tell level message) := ⟨h, .refl _ _, rfl, rfl, List.prefix_rfl⟩
    refine htold.trans (bind (fun w' h' => ?_) (fun _ _ => .refl) _ htold.usable)
    exact within_discard hc h' url
  rw [Cache.find, Action.run_get_bind]
  split_ifs
  · exact .refl h
  · cases c.readEntry w.files (c.entryPath url) with
    | error e =>
      dsimp only
      rw [Action.run_bind, Action.run_set]
      exact hdrop _ _
    | ok r =>
      dsimp only
      split_ifs
      · rw [Action.run_bind, Action.run_set]
        exact hdrop _ _
      · exact .refl h

theorem keep (r : CachedResponse) : c.StaysWithin (c.keep r) := by
  intro w h
  have hsame := sameBut_write hc h r
  obtain ⟨t', hwrite, husable, -⟩ := h.write hc r
  rw [Cache.keep, Action.run_get_bind, hwrite]
  rw [hwrite] at hsame
  exact ⟨husable, hsame, rfl, rfl, List.prefix_rfl⟩

theorem cachedGet (url : String) : c.StaysWithin (cachedGet c url) := by
  refine (find hc url).bind fun found => ?_
  cases found with
  | some r => exact fun _ => .refl
  | none => exact (request c.reading url).bind fun r => (keep hc r).bind fun _ _ => .refl

theorem fetchRemote (url : String) : c.StaysWithin (fetchRemote c url) := by
  refine (cachedGet hc url).bind fun r => ?_
  cases r.headers.get? typesHeader with
  | some types => exact lift fun target => (cachedGet hc target).bind fun _ _ => .refl
  | none => exact lift fun _ _ => .refl

theorem fetch (url : String) : c.StaysWithin (fetch c url) := by
  refine lift fun way => ?_
  cases way with
  | remote network => exact fetchRemote hc network
  | «local» => exact lift fun path => bind (fun _ => .refl) fun w => lift fun _ _ => .refl

end StaysWithin

end Cache

namespace Cache

variable {c : Cache} {module asked : String} {w w' w'' : World}

/-! ## Worlds side by side -/

/-- The worlds are the same for every fetch that has nothing to do with the module: they differ in
the reply to one request, in what is kept of the module, in the log and in what was requested. -/
structure Beside (c : Cache) (module asked : String) (w w' : World) : Prop where
  usable : c.Usable w.files
  usable' : c.Usable w'.files
  files : w.files.SameBut c.directory w'.files
  now : w'.now = w.now
  replies : ∀ u, u ≠ asked → w'.replyTo u = w.replyTo u
  fresh : ∀ v, c.entryName v ≠ c.entryName module → ∀ r, c.Fresh w' v r ↔ c.Fresh w v r

namespace Beside

theorem symm (h : c.Beside module asked w w') : c.Beside module asked w' w where
  usable := h.usable'
  usable' := h.usable
  files := h.files.symm
  now := h.now.symm
  replies u hu := (h.replies u hu).symm
  fresh v hv r := (h.fresh v hv r).symm

theorem trans (h : c.Beside module asked w w') (h' : c.Beside module asked w' w'') :
    c.Beside module asked w w'' where
  usable := h.usable
  usable' := h'.usable'
  files := h.files.trans h'.files
  now := h'.now.trans h.now
  replies u hu := (h'.replies u hu).trans (h.replies u hu)
  fresh v hv r := (h'.fresh v hv r).trans (h.fresh v hv r)

theorem of_within (h : c.Usable w.files) (hw : c.Within w w')
    (hfresh : ∀ v, c.entryName v ≠ c.entryName module → ∀ r, c.Fresh w' v r ↔ c.Fresh w v r) :
    c.Beside module asked w w' :=
  ⟨h, hw.usable, hw.files, hw.now, fun u _ => congrFun hw.replies u, hfresh⟩

end Beside

/-! ## Calls -/

theorem bytes_eq_ok_iff_entry {t : FileTree} {url : String} {content : List UInt8} :
    t.bytes (c.entryPath url) = .ok content ↔ c.entry? t url = some content := by
  unfold entry?
  cases t.bytes (c.entryPath url) with
  | error p => exact ⟨fun h => (by cases h), fun h => (by cases h)⟩
  | ok content' => exact ⟨fun h => (by cases h; rfl), fun h => (by cases h; rfl)⟩

/-- Whether an entry is fresh depends on what it holds, and on the time. -/
theorem fresh_congr {v : String} (hentry : c.entry? w'.files v = c.entry? w.files v)
    (hnow : w'.now = w.now) (r : CachedResponse) : c.Fresh w' v r ↔ c.Fresh w v r := by
  have hbytes : ∀ content, w'.files.bytes (c.entryPath v) = .ok content ↔
      w.files.bytes (c.entryPath v) = .ok content := fun content => by
    rw [bytes_eq_ok_iff_entry, bytes_eq_ok_iff_entry, hentry]
  constructor
  · rintro ⟨⟨content, text, hread, hrest⟩, hyoung⟩
    exact ⟨⟨content, text, (hbytes content).1 hread, hrest⟩, hnow ▸ hyoung⟩
  · rintro ⟨⟨content, text, hread, hrest⟩, hyoung⟩
    exact ⟨⟨content, text, (hbytes content).2 hread, hrest⟩, hnow ▸ hyoung⟩

theorem fresh_of_name {u v : String} (h : c.entryName u = c.entryName v) (r : CachedResponse) :
    c.Fresh w u r ↔ c.Fresh w v r := by
  have hpath : c.entryPath u = c.entryPath v := by rw [entryPath, entryPath, fileName, fileName, h]
  exact ⟨fun hf => ⟨hpath ▸ hf.read, hf.young⟩, fun hf => ⟨hpath ▸ hf.read, hf.young⟩⟩

theorem entry?_congr {u v : String} (h : c.entryName u = c.entryName v) (t : FileTree) :
    c.entry? t u = c.entry? t v := by
  unfold entry? entryPath fileName
  rw [h]

section

variable (hc : c.IsPlain)

include hc

/-- A call without a fresh entry requests what one request does. -/
theorem requests_cachedGet (h : c.Usable w.files) {v : String} (hn : ∀ r, ¬ c.Fresh w v r) :
    ((cachedGet c v).run w).2.requests = ((request c.reading v).run w).2.requests := by
  obtain ⟨files, lines, hfind, husable, -⟩ := h.find_of_not_fresh hc hn
  obtain ⟨urls, outcome, -, hrequest⟩ := exists_get c.reading w.replyTo v
  have hnext := hrequest { w with files := files, log := w.log ++ lines } rfl
  rw [hrequest w rfl, cachedGet, Action.run_bind, hfind]
  dsimp only
  rw [Action.run_bind, hnext]
  dsimp only
  cases yielded c.reading v w.now outcome with
  | error e => rfl
  | ok r =>
    obtain ⟨kept, hkeep, -⟩ := Usable.keep hc (w := { w with
      files := files, log := w.log ++ lines ++ [fetching v], requests := w.requests ++ urls })
      husable r
    dsimp only
    rw [Action.run_bind_of_ok hkeep]
    rfl

/-- What an entry holds after a call without a fresh entry: the answer, if there is one. -/
theorem entry?_cachedGet (h : c.Usable w.files) {v : String} (hn : ∀ r, ¬ c.Fresh w v r) :
    c.entry? ((cachedGet c v).run w).2.files v =
      ((cachedGet c v).run w).1.toOption.map fun r => Utf8.encode r.toDocument := by
  obtain ⟨⟨urls, outcome, hfetched⟩, husable, -, -⟩ := cachedGet_of_not_fresh hc h hn
  generalize (cachedGet c v).run w = y at hfetched husable
  cases hy : y.1 with
  | error e =>
    have hgone := hfetched.gone e hy
    rw [Bool.eq_false_iff, ne_eq, husable.contains_iff hc, Option.not_isSome_iff_eq_none] at hgone
    exact hgone
  | ok r =>
    exact (hfetched.kept (hfetched.answer.symm.trans hy)).2.2.2.1

/-- A call leaves the entries of other names alone. -/
theorem fresh_cachedGet (h : c.Usable w.files) {u v : String} (hv : c.entryName v ≠ c.entryName u)
    (r : CachedResponse) : c.Fresh ((cachedGet c u).run w).2 v r ↔ c.Fresh w v r := by
  refine fresh_congr ?_ (TakesNoTime.cachedGet c u w) r
  exact (cachedGet_answers hc h u).2.2.2 v hv

/-- A call for another module has the same answer in both worlds, if it leaves the request alone. -/
theorem Beside.cachedGet (h : c.Beside module asked w w') {v : String}
    (hv : c.entryName v ≠ c.entryName module)
    (hasked : asked ∉ ((cachedGet c v).run w').2.requests.drop w'.requests.length) :
    ((cachedGet c v).run w).1 = ((cachedGet c v).run w').1 ∧
      c.Beside module asked ((cachedGet c v).run w).2 ((cachedGet c v).run w').2 := by
  by_cases hf : ∃ r, c.Fresh w v r
  · obtain ⟨r, hf⟩ := hf
    rw [cachedGet_of_fresh hc h.usable hf, cachedGet_of_fresh hc h.usable' ((h.fresh v hv r).2 hf)]
    exact ⟨rfl, h⟩
  · have hn : ∀ r, ¬ c.Fresh w v r := fun r hr => hf ⟨r, hr⟩
    have hn' : ∀ r, ¬ c.Fresh w' v r := fun r hr => hn r ((h.fresh v hv r).1 hr)
    obtain ⟨urls, y, hrequest', hrequest⟩ := request_congr h.replies h.now c.reading v
    rw [requests_cachedGet hc h.usable' hn', hrequest', List.drop_left] at hasked
    have hsame : ((Fetch.cachedGet c v).run w).1 = ((Fetch.cachedGet c v).run w').1 := by
      obtain ⟨⟨_, _, hfetched⟩, -⟩ := cachedGet_of_not_fresh hc h.usable hn
      obtain ⟨⟨_, _, hfetched'⟩, -⟩ := cachedGet_of_not_fresh hc h.usable' hn'
      rw [hfetched.answer, hfetched'.answer, hrequest', hrequest hasked]
    have hwithin := StaysWithin.cachedGet hc v w h.usable
    have hwithin' := StaysWithin.cachedGet hc v w' h.usable'
    refine ⟨hsame, hwithin.usable, hwithin'.usable, ?_, ?_, fun u hu => ?_, fun u hu r => ?_⟩
    · exact hwithin.files.symm.trans (h.files.trans hwithin'.files)
    · rw [hwithin'.now, hwithin.now, h.now]
    · rw [hwithin'.replies, hwithin.replies, h.replies u hu]
    · by_cases huv : c.entryName u = c.entryName v
      · refine fresh_congr ?_ (by rw [hwithin'.now, hwithin.now, h.now]) r
        rw [entry?_congr huv, entry?_congr huv, entry?_cachedGet hc h.usable hn,
          entry?_cachedGet hc h.usable' hn', hsame]
      · rw [fresh_cachedGet hc h.usable huv, fresh_cachedGet hc h.usable' huv, h.fresh u hu r]

end

/-! ## Fetches -/

/-- The URLs whose entries a fetch looks up: that of the module, and that of the file with its
types. -/
def lookups (c : Cache) (w : World) (url : String) : List String :=
  match protocol url with
  | .ok (.remote network) =>
    network :: (match ((cachedGet c network).run w).1 with
      | .error _ => []
      | .ok r => match r.headers.get? typesHeader with
        | none => []
        | some types => (Url.join r.responseUrl types).toOption.toList)
  | _ => []

/-- The path of the file that a local module is. -/
def localPath? (url : String) : Option String :=
  match protocol url with
  | .ok .local => (FilePath.ofUrl url).toOption
  | _ => none

/-- A fetch that has nothing to do with the module: it leaves the request alone, looks up other
entries, and reads no file of the cache. -/
structure Avoids (c : Cache) (module asked : String) (w : World) (url : String) : Prop where
  unasked : asked ∉ ((fetch c url).run w).2.requests.drop w.requests.length
  others : ∀ v ∈ c.lookups w url, c.entryName v ≠ c.entryName module
  outside : ∀ path ∈ localPath? url, ['.', '.'] ∉ FilePath.components path.toList ∧
    ¬ w.files.placeOf c.directory <+: w.files.placeOf path

instance (c : Cache) (module asked : String) (w : World) (url : String) :
    Decidable (c.Avoids module asked w url) :=
  decidable_of_iff (_ ∧ _ ∧ _) ⟨fun h => ⟨h.1, h.2.1, h.2.2⟩, fun h => ⟨h.1, h.2, h.3⟩⟩

section

variable {α β : Type} {x : Action α} {f : α → Action β}

/-- What is not requested in all is not requested at first. -/
theorem unasked_of_bind (hx : c.StaysWithin x) (hf : ∀ a, c.StaysWithin (f a))
    (h : c.Usable w.files)
    (hasked : asked ∉ ((x >>= f).run w).2.requests.drop w.requests.length) :
    asked ∉ (x.run w).2.requests.drop w.requests.length := by
  have hprefix : (x.run w).2.requests <+: ((x >>= f).run w).2.requests := by
    have husable := (hx w h).usable
    rw [Action.run_bind]
    generalize x.run w = y at husable
    obtain ⟨r, w₁⟩ := y
    cases r with
    | error e => exact List.prefix_rfl
    | ok a => exact (hf a w₁ husable).requests
  obtain ⟨rest, hrest⟩ := hprefix
  rw [← hrest, List.drop_append, List.mem_append, not_or] at hasked
  exact hasked.1

/-- Nor is it requested later on. -/
theorem unasked_of_run (hx : c.StaysWithin x) (h : c.Usable w.files) {a : α} {w₁ : World}
    (hrun : x.run w = (.ok a, w₁))
    (hasked : asked ∉ ((x >>= f).run w).2.requests.drop w.requests.length) :
    asked ∉ ((f a).run w₁).2.requests.drop w₁.requests.length := by
  have hlen := (hx w h).requests.length_le
  rw [Action.run_bind, hrun] at hasked
  rw [hrun] at hlen
  exact fun hmem => hasked ((List.drop_sublist_drop_left _ hlen).subset hmem)

end

/-- An action comes to the same in both worlds, and leaves them side by side. -/
def Agree {α : Type} (c : Cache) (module asked : String) (x : Action α) (w w' : World) : Prop :=
  (x.run w).1 = (x.run w').1 ∧ c.Beside module asked (x.run w).2 (x.run w').2

namespace Agree

variable {α β : Type}

theorem bind {x : Action α} {f : α → Action β} (hx : c.Agree module asked x w w')
    (hf : ∀ a w₁ w₁', x.run w' = (.ok a, w₁') → c.Beside module asked w₁ w₁' →
      c.Agree module asked (f a) w₁ w₁') : c.Agree module asked (x >>= f) w w' := by
  obtain ⟨hsame, hbeside⟩ := hx
  rw [Agree, Action.run_bind, Action.run_bind]
  rcases hrun : x.run w with ⟨r, w₁⟩
  rcases hrun' : x.run w' with ⟨r', w₁'⟩
  rw [hrun, hrun'] at hsame hbeside
  obtain rfl : r = r' := hsame
  cases r with
  | error e => exact ⟨rfl, hbeside⟩
  | ok a => exact hf a w₁ w₁' hrun' hbeside

theorem lift {x : Except Fault α} {f : α → Action β} (h : c.Beside module asked w w')
    (hf : ∀ a, x = .ok a → c.Agree module asked (f a) w w') :
    c.Agree module asked (liftM x >>= f) w w' := by
  rw [Agree, Action.run_bind, Action.run_bind, Action.run_liftM, Action.run_liftM]
  cases x with
  | error e => exact ⟨rfl, h⟩
  | ok a => exact hf a rfl

theorem pure (h : c.Beside module asked w w') (a : α) :
    c.Agree module asked (Pure.pure a) w w' := ⟨rfl, h⟩

end Agree

section

variable (hc : c.IsPlain)

include hc

theorem Beside.fetchRemote (h : c.Beside module asked w w') {url : String}
    (hurl : c.entryName url ≠ c.entryName module)
    (htypes : ∀ r w₁' types target, (Fetch.cachedGet c url).run w' = (.ok r, w₁') →
      r.headers.get? typesHeader = some types → Url.join r.responseUrl types = .ok target →
      c.entryName target ≠ c.entryName module)
    (hasked : asked ∉ ((Fetch.fetchRemote c url).run w').2.requests.drop w'.requests.length) :
    c.Agree module asked (Fetch.fetchRemote c url) w w' := by
  have hfirst := StaysWithin.cachedGet hc url
  have hearly : asked ∉ ((Fetch.cachedGet c url).run w').2.requests.drop w'.requests.length := by
    refine unasked_of_bind hfirst (fun r => ?_) h.usable' hasked
    cases r.headers.get? typesHeader with
    | none => exact .lift fun _ _ => .refl
    | some types => exact .lift fun target => (StaysWithin.cachedGet hc target).bind fun _ _ => .refl
  refine .bind (h.cachedGet hc hurl hearly) fun r w₁ w₁' hrun hbeside => ?_
  have hlater := unasked_of_run hfirst h.usable' hrun hasked
  cases ht : r.headers.get? typesHeader with
  | none => exact .lift hbeside fun counted _ => .pure hbeside _
  | some types =>
    refine .lift hbeside fun target hjoin => ?_
    rw [ht] at hlater
    dsimp only at hlater
    rw [Action.run_bind, Action.run_liftM, hjoin] at hlater
    have htarget := htypes r w₁' types target hrun ht (Action.mapError_eq_ok_iff.1 hjoin)
    refine .bind (hbeside.cachedGet hc htarget (unasked_of_bind (StaysWithin.cachedGet hc target)
      (fun _ _ => .refl) hbeside.usable' hlater)) fun t w₂ w₂' _ hbeside₂ => .pure hbeside₂ _

omit hc in
/-- A local module outside the directory of the cache is read in both worlds or in neither. -/
theorem Beside.fetchLocal (h : c.Beside module asked w w') {url : String}
    (hpath : ∀ path, FilePath.ofUrl url = .ok path → ['.', '.'] ∉ FilePath.components path.toList ∧
      ¬ w'.files.placeOf c.directory <+: w'.files.placeOf path) :
    SameFate ((fetchLocal url).run w).1 ((fetchLocal url).run w').1 := by
  have hfound : ∀ {w w' : World}, c.Beside module asked w w' →
      (∀ path, FilePath.ofUrl url = .ok path → ['.', '.'] ∉ FilePath.components path.toList ∧
        ¬ w.files.placeOf c.directory <+: w.files.placeOf path) →
      ∀ source, ((Fetch.fetchLocal url).run w).1 = .ok source →
        ((Fetch.fetchLocal url).run w').1 = .ok source := by
    intro w w' h hpath source hsource
    obtain ⟨-, path, text, hp, htext, rfl⟩ :=
      fetchLocal_eq_ok_iff.1 (Prod.ext hsource (Eq.refl ((Fetch.fetchLocal url).run w).2))
    obtain ⟨hdots, hplace⟩ := hpath path hp
    have htext' := h.files.text h.usable.sound h.usable'.sound hdots hplace htext
    rw [fetchLocal_eq_ok_iff.2 ⟨rfl, path, text, hp, htext', rfl⟩]
  have hstart : ∀ path, w.files.placeOf path = w'.files.placeOf path := fun path =>
    FileTree.placeOf_congr h.symm.files.start path
  cases hr : ((Fetch.fetchLocal url).run w).1 with
  | ok source =>
    rw [hfound h (by simpa only [hstart] using hpath) source hr]
    exact .ok source
  | error e =>
    cases hr' : ((Fetch.fetchLocal url).run w').1 with
    | ok source =>
      rw [hfound h.symm hpath source hr'] at hr
      cases hr
    | error e' =>
      have hout : e.isOwn = false ↔ e'.isOwn = false := by
        rw [← endsOutside_error (α := Source), ← endsOutside_error (α := Source), ← hr, ← hr',
          endsOutside_fetchLocal, endsOutside_fetchLocal]
      exact .error (Bool.eq_iff_iff.2 (by simpa using not_congr hout))

omit hc in
theorem world_fetchLocal (url : String) (w : World) : ((Fetch.fetchLocal url).run w).2 = w := by
  rw [Fetch.fetchLocal, Action.run_bind, Action.run_liftM]
  cases FilePath.ofUrl url with
  | error p => rfl
  | ok path =>
    dsimp only [Action.mapError_ok]
    rw [Action.run_get_bind, Action.run_bind, Action.run_liftM]
    cases w.files.text path <;> rfl

/-- **main theorem**: a fetch that has nothing to do with the module comes to the same in both
worlds, and leaves them side by side. -/
theorem Beside.fetch (h : c.Beside module asked w w') {url : String}
    (ha : c.Avoids module asked w' url) :
    SameFate ((Fetch.fetch c url).run w).1 ((Fetch.fetch c url).run w').1 ∧
      c.Beside module asked ((Fetch.fetch c url).run w).2 ((Fetch.fetch c url).run w').2 := by
  obtain ⟨hasked, hothers, houtside⟩ := ha
  rw [Fetch.fetch, Action.run_bind, Action.run_bind, Action.run_liftM, Action.run_liftM] at *
  rw [lookups] at hothers
  rw [localPath?] at houtside
  cases hway : protocol url with
  | error e => exact ⟨.error rfl, h⟩
  | ok way =>
    rw [hway] at hasked hothers houtside
    cases way with
    | «local» =>
      dsimp only at houtside ⊢
      rw [world_fetchLocal, world_fetchLocal]
      refine ⟨h.fetchLocal fun path hp => houtside path ?_, h⟩
      rw [hp]
      rfl
    | remote network =>
      dsimp only at hasked hothers ⊢
      rw [List.forall_mem_cons] at hothers
      obtain ⟨hsame, hbeside⟩ := h.fetchRemote hc hothers.1 (fun r w₁' types target hr ht hj => by
        refine hothers.2 target ?_
        rw [hr]
        dsimp only
        rw [ht]
        dsimp only
        rw [hj]
        exact List.mem_singleton_self target) hasked
      exact ⟨hsame ▸ .refl _, hbeside⟩

/-! ## Fetches of the module itself -/

/-- A call that fails leaves no entry that was not of use before. -/
theorem fresh_cachedGet_of_error (h : c.Usable w.files) {u : String} {e : Fault}
    (he : ((Fetch.cachedGet c u).run w).1 = .error e) (v : String) (r : CachedResponse) :
    c.Fresh ((Fetch.cachedGet c u).run w).2 v r ↔ c.Fresh w v r := by
  by_cases hv : c.entryName v = c.entryName u
  · have hn : ∀ r, ¬ c.Fresh w u r := fun r hr => by
      rw [cachedGet_of_fresh hc h hr] at he
      cases he
    have hgone := entry?_cachedGet hc h hn
    rw [he, ← entry?_congr hv] at hgone
    refine iff_of_false (fun hf => ?_) (fun hf => hn r ((fresh_of_name hv r).1 hf))
    obtain ⟨content, -, hread, -⟩ := hf.read
    rw [bytes_eq_ok_iff_entry, hgone] at hread
    cases hread
  · exact fresh_cachedGet hc h hv r

/-- A fetch of the module changes what is kept of it, and nothing else, unless it yields the file
with its types. -/
theorem beside_fetch (h : c.Usable w.files) {url : String}
    (hway : protocol url = .ok (.remote module))
    (hscript : ∀ source r, ((Fetch.fetch c url).run w).1 = .ok source →
      ((Fetch.cachedGet c module).run w).1 = .ok r → r.headers.get? typesHeader = none) :
    c.Beside module asked w ((Fetch.fetch c url).run w).2 := by
  have hfirst : c.Beside module asked w ((Fetch.cachedGet c module).run w).2 :=
    .of_within h (StaysWithin.cachedGet hc module w h) fun v hv => fresh_cachedGet hc h hv
  rw [Fetch.fetch, Action.run_bind, Action.run_liftM, hway] at hscript ⊢
  dsimp only at hscript ⊢
  rcases hrun : (Fetch.cachedGet c module).run w with ⟨first, w₁⟩
  rw [hrun] at hfirst hscript
  replace hfirst : c.Beside module asked w w₁ := hfirst
  cases first with
  | error e =>
    rw [fetchRemote_of_error hrun]
    exact hfirst
  | ok r =>
    cases ht : r.headers.get? typesHeader with
    | none =>
      rw [fetchRemote_of_script hrun ht]
      exact hfirst
    | some types =>
      cases hj : Url.join r.responseUrl types with
      | error p =>
        rw [fetchRemote_of_join_error hrun ht hj]
        exact hfirst
      | ok target =>
        rw [fetchRemote_of_types hrun ht hj] at hscript ⊢
        have hwithin := StaysWithin.cachedGet hc target w₁ hfirst.usable'
        have hlost := fun e => fresh_cachedGet_of_error hc hfirst.usable' (u := target) (e := e)
        rcases hsecond : (Fetch.cachedGet c target).run w₁ with ⟨second, w₂⟩
        rw [hsecond] at hwithin hlost hscript
        cases second with
        | ok t => cases (hscript _ r rfl rfl).symm.trans ht
        | error e =>
          exact hfirst.trans (.of_within hfirst.usable' hwithin fun v _ => hlost e rfl v)

end

end Cache

end Fetch

end ModuleGraph
