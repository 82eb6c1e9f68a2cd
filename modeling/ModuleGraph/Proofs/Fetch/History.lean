import ModuleGraph.Proofs.Fetch.Cache
/-!
# Histories of a cache

Responses are asked for one after the other, while time goes by, entries are cleared or written over,
and the network changes. Whatever has happened, a response is answered from its entry if that is
fresh, and else by exactly one request, after which the entry holds what was answered.

Results:
* `Cache.cachedGet_of_fresh`, `Cache.cachedGet_of_not_fresh`: one call;
* `Cache.Usable.after`, `Cache.Usable.afterAll`: what a history keeps;
* `Cache.Fresh.afterAll`, `Cache.fresh_after_get`: an entry that is left alone stays fresh until it
  is too old;
* `Cache.cachedGet_afterAll`: **main theorem**: the calls of every history.
-/

namespace ModuleGraph.Fetch

/-- How often a request of a URL was begun. -/
def World.gets (w : World) (url : String) : Nat := w.log.count (fetching url)

theorem fetching_injective {u v : String} (h : fetching u = fetching v) : u = v := by
  have hmessage := congrArg (fun line : LogRecord => line.message.toList) h
  simp only [fetching, String.toList_append, List.append_cancel_left_eq] at hmessage
  exact String.toList_injective hmessage

/-- Where one URL is fetched, among other lines, it has been fetched once more. -/
theorem gets_of_log {w w' : World} {lines : List LogRecord} {url : String}
    (hlog : w'.log = w.log ++ lines ++ [fetching url]) (hlines : ∀ v, fetching v ∉ lines)
    (v : String) : w'.gets v = w.gets v + if v = url then 1 else 0 := by
  rw [World.gets, hlog, List.count_append, List.count_append, List.count_eq_zero.2 (hlines v),
    Nat.add_zero, List.count_singleton, World.gets]
  congr 1
  by_cases hv : v = url
  · simp [hv]
  · have hne : ¬ fetching url = fetching v := fun he => hv (fetching_injective he).symm
    simp [hv, hne]

namespace Cache

variable {c : Cache} {w : World} {url : String} {r : CachedResponse}

/-! ## One call -/

/-- What one request of a URL leads to: the URLs that are asked for, what comes of them, and the
answer of the call with the world after it. -/
structure Fetched (c : Cache) (w : World) (url : String) (urls : List String)
    (outcome : Except Foreign Landing) (y : Except Fault CachedResponse × World) : Prop where
  get : Get w.replyTo url urls outcome
  /-- The answer is that of the request alone. -/
  answer : y.1 = ((request c.reading url).run w).1
  requests : y.2.requests = w.requests ++ urls
  gets : ∀ v, y.2.gets v = w.gets v + if v = url then 1 else 0
  /-- The response is the answer, and the entry holds it. -/
  success : ∀ l text, outcome = .ok l → isSuccess l.status = true →
    c.reading.body l.headers l.body = .ok text →
    let r := l.response url text w.now
    y.1 = .ok r ∧ LowerNames l.headers ∧
      c.entry? y.2.files url = some (Utf8.encode r.toDocument) ∧
      (c.reading.entry r.toDocument = .ok r → c.readEntry y.2.files (c.entryPath url) = .ok r)
  /-- A body that has no text ends the call with the error of whoever read it. -/
  unreadable : ∀ l e, outcome = .ok l → isSuccess l.status = true →
    c.reading.body l.headers l.body = .error e → y.1 = .error (.foreign e)
  refusal : ∀ l, outcome = .ok l → isSuccess l.status = false →
    y.1 = .error (.fetch url (toString l.status ++ " " ++ reasonPhrase l.status))
  breakdown : ∀ e, outcome = .error e → y.1 = .error (
    if transportErrors.contains e.kind then .fetch url ((Fault.foreign e).describe true)
    else .foreign e)
  /-- After a fault there is no entry. -/
  gone : ∀ e, y.1 = .error e → y.2.files.contains (c.entryPath url) = false

/-- Where the answer is what the request yields, the rest is what becomes of the entry. -/
theorem Fetched.of_yielded {urls : List String} {outcome : Except Foreign Landing}
    {y : Except Fault CachedResponse × World} (hget : Get w.replyTo url urls outcome)
    (hanswer : ((request c.reading url).run w).1 = yielded c.reading url w.now outcome)
    (hy : y.1 = yielded c.reading url w.now outcome) (hrequests : y.2.requests = w.requests ++ urls)
    (hgets : ∀ v, y.2.gets v = w.gets v + if v = url then 1 else 0)
    (hkept : ∀ r, y.1 = .ok r → c.entry? y.2.files url = some (Utf8.encode r.toDocument) ∧
      (c.reading.entry r.toDocument = .ok r → c.readEntry y.2.files (c.entryPath url) = .ok r))
    (hgone : ∀ e, y.1 = .error e → y.2.files.contains (c.entryPath url) = false) :
    c.Fetched w url urls outcome y where
  get := hget
  answer := hy.trans hanswer.symm
  requests := hrequests
  gets := hgets
  success := by
    intro l text ho hs hb
    subst ho
    have hok := hy.trans (yielded_of_body hs hb)
    exact ⟨hok, hget.lowerNames, hkept _ hok⟩
  unreadable := by
    intro l e ho hs hb
    subst ho
    exact hy.trans (yielded_of_unreadable hs hb)
  refusal := by
    intro l ho hs
    subst ho
    exact hy.trans (yielded_of_refusal hs)
  breakdown := by
    intro e ho
    subst ho
    exact hy
  gone := hgone

section

variable (hc : c.IsPlain) (h : c.Usable w.files)

include hc h

/-- A fresh entry is the answer, and nothing changes. -/
theorem cachedGet_of_fresh (hf : c.Fresh w url r) : (cachedGet c url).run w = (.ok r, w) := by
  rw [cachedGet, Action.run_bind, h.find_of_fresh hc hf]
  rfl

/-- Without a fresh entry there is one request. -/
theorem cachedGet_of_not_fresh (hn : ∀ r, ¬ c.Fresh w url r) :
    let y := (cachedGet c url).run w
    (∃ urls outcome, c.Fetched w url urls outcome y) ∧ c.Usable y.2.files ∧
      (y.2.now = w.now ∧ y.2.replyTo = w.replyTo) ∧ c.Confined url w.files y.2.files := by
  intro y
  obtain ⟨files, lines, hfind, husable, hgone, hlines, hconfined⟩ := h.find_of_not_fresh hc hn
  set w₁ : World := { w with files := files, log := w.log ++ lines }
  obtain ⟨urls, outcome, hget, hrequests⟩ := exists_get c.reading w.replyTo url
  have hrequest := hrequests w₁ rfl
  have hanswer : ((request c.reading url).run w).1 = yielded c.reading url w.now outcome :=
    congrArg Prod.fst (hrequests w rfl)
  set w₂ : World := { w₁ with log := w₁.log ++ [fetching url], requests := w₁.requests ++ urls }
  have hgets : ∀ v, w₂.gets v = w.gets v + if v = url then 1 else 0 := gets_of_log rfl hlines
  have hrun : y = (do let r ← request c.reading url; c.keep r; return r :
      Action CachedResponse).run w₁ := by
    change (cachedGet c url).run w = _
    rw [cachedGet, Action.run_bind, hfind]
  rw [Action.run_bind, hrequest] at hrun
  clear_value y
  cases hy : yielded c.reading url w.now outcome with
  | error e =>
    simp only [show w₁.now = w.now from rfl, hy] at hrun
    subst hrun
    refine ⟨⟨urls, outcome, .of_yielded hget hanswer hy.symm rfl hgets ?_ fun _ _ => ?_⟩, husable,
      ⟨rfl, rfl⟩, hconfined⟩
    · intro r hr
      cases hr
    · rw [Bool.eq_false_iff, ne_eq, husable.contains_iff hc, hgone]
      exact Bool.false_ne_true
  | ok r =>
    obtain ⟨l, text, -, -, -, rfl⟩ := yielded_eq_ok_iff.1 hy
    obtain ⟨files', hkeep, husable', hentry, hconfined'⟩ :=
      Usable.keep hc (show c.Usable w₂.files from husable) (l.response url text w.now)
    simp only [show w₁.now = w.now from rfl, hy] at hrun
    rw [Action.run_bind_of_ok hkeep] at hrun
    subst hrun
    refine ⟨⟨urls, outcome, .of_yielded hget hanswer hy.symm rfl hgets ?_ ?_⟩, husable',
      ⟨rfl, rfl⟩, hconfined.trans hconfined'⟩
    · intro r hr
      cases hr
      exact ⟨hentry, readEntry_of_entry hc husable' hentry⟩
    · intro e he
      cases he

end

end Cache

/-! ## Histories -/

/-- What happens to a cache and to the world around it. -/
inductive Happening where
  | get (url : String)
  /-- Time goes by, in microseconds. -/
  | wait (micros : Nat)
  | clear
  /-- The entry of a URL is written over, if it can be. -/
  | overwrite (url : String) (content : List UInt8)
  /-- The network changes. -/
  | network (routes : List (String × Reply)) (elsewhere : Reply)

namespace Cache

variable {c : Cache} {w : World} {url : String} {r : CachedResponse}

/-- The world after something has happened. -/
def after (c : Cache) (w : World) : Happening → World
  | .get url => ((cachedGet c url).run w).2
  | .wait micros => { w with now := w.now + micros }
  | .clear => (c.clear.run w).2
  | .overwrite url content =>
    { w with files := (w.files.write (c.entryPath url) content).toOption.getD w.files }
  | .network routes elsewhere => { w with routes := routes, elsewhere := elsewhere }

/-- The world after a history. -/
def afterAll (c : Cache) (w : World) (past : List Happening) : World := past.foldl c.after w

theorem afterAll_nil (c : Cache) (w : World) : c.afterAll w [] = w := rfl

theorem afterAll_cons (c : Cache) (w : World) (x : Happening) (past : List Happening) :
    c.afterAll w (x :: past) = c.afterAll (c.after w x) past := rfl

theorem after_get (c : Cache) (w : World) (url : String) :
    c.after w (.get url) = ((cachedGet c url).run w).2 := rfl

theorem after_overwrite (c : Cache) (w : World) (url : String) (content : List UInt8) :
    c.after w (.overwrite url content) =
      { w with files := (w.files.write (c.entryPath url) content).toOption.getD w.files } := rfl

namespace Usable

theorem discard (hc : c.IsPlain) (h : c.Usable w.files) (path : String) :
    c.Usable ((Cache.discard path).run w).2.files ∧ ((Cache.discard path).run w).2.now = w.now := by
  rw [Cache.discard, Action.run_get_bind]
  cases hr : w.files.remove path with
  | error p => exact ⟨h, rfl⟩
  | ok files =>
    refine ⟨?_, rfl⟩
    change c.Usable files
    rcases FileTree.remove_eq_ok hr with rfl | ⟨p, content, hp, rfl⟩
    · exact h
    · exact h.erase hc ⟨content, hp⟩

theorem clear (hc : c.IsPlain) (h : c.Usable w.files) :
    c.Usable (c.clear.run w).2.files ∧ (c.clear.run w).2.now = w.now := by
  have hall : ∀ (paths : List String) (w' : World), c.Usable w'.files →
      c.Usable ((paths.forM Cache.discard : Action PUnit).run w').2.files ∧
        ((paths.forM Cache.discard : Action PUnit).run w').2.now = w'.now := by
    intro paths
    induction paths with
    | nil => exact fun w' h' => ⟨h', rfl⟩
    | cons path paths ih =>
      intro w' h'
      obtain ⟨husable, hnow⟩ := h'.discard hc path
      rw [List.forM, Action.run_bind]
      rcases hd : (Cache.discard path).run w' with ⟨y, w''⟩
      rw [hd] at husable hnow
      cases y with
      | error e => exact ⟨husable, hnow⟩
      | ok _ =>
        obtain ⟨husable', hnow'⟩ := ih w'' husable
        exact ⟨husable', hnow'.trans hnow⟩
  rw [Cache.clear, Action.run_get_bind, Action.run_bind]
  have hrun := hall (c.entries w.files) w h
  rcases hy : ((c.entries w.files).forM Cache.discard : Action PUnit).run w with ⟨y, w'⟩
  rw [hy] at hrun
  cases y <;> exact hrun

theorem overwrite (hc : c.IsPlain) {t t' : FileTree} (h : c.Usable t) {content : List UInt8}
    (hw : t.write (c.entryPath url) content = .ok t') :
    c.Usable t' ∧ ∀ v, c.entryName v ≠ c.entryName url → c.entry? t' v = c.entry? t v := by
  have hplace := place_entry hc t url
  have hne : t.placeOf (c.entryPath url) ≠ [] := by
    rw [hplace]
    simp
  have hdir : t.get? (t.placeOf c.directory) = some .directory := by
    obtain ⟨p, hp, -⟩ := Action.bind_eq_ok_iff.1 hw
    have hd := FileTree.directory_of_locate (plain_entry hc url)
      (by rw [entryPath, fileName, FilePath.components_append (hc.component json_mem_endings url).1]
          simp) hp
    rwa [FileTree.eq_of_locate (plain_entry hc url) hp, hplace, List.dropLast_concat] at hd
  rw [FileTree.write_eq h.sound (plain_entry hc url) content
    (by rwa [hplace, List.dropLast_concat]) (h.entries url)] at hw
  cases hw
  have husable : c.Usable (t.set (t.placeOf (c.entryPath url)) (.file content)) := by
    rw [hplace]
    exact h.put hc hdir (hplace ▸ h.entries url) content
  refine ⟨husable, fun v hv => h.entry?_congr hc husable (FileTree.start_set ..) ?_⟩
  rw [t.get?_set hne, if_neg (place_entry_ne hc t hv)]

/-- Whatever happens, the cache stays usable, and time does not go back. -/
theorem after (hc : c.IsPlain) (h : c.Usable w.files) (x : Happening) :
    c.Usable (c.after w x).files ∧ w.now ≤ (c.after w x).now := by
  cases x with
  | get url =>
    rw [after_get]
    by_cases hf : ∃ r, c.Fresh w url r
    · obtain ⟨r, hf⟩ := hf
      rw [cachedGet_of_fresh hc h hf]
      exact ⟨h, Int.le_refl _⟩
    · obtain ⟨-, husable, ⟨hnow, -⟩, -⟩ := cachedGet_of_not_fresh hc h fun r hr => hf ⟨r, hr⟩
      exact ⟨husable, Int.le_of_eq hnow.symm⟩
  | wait micros => exact ⟨h, Int.le_add_of_nonneg_right (Int.natCast_nonneg micros)⟩
  | clear =>
    obtain ⟨husable, hnow⟩ := h.clear hc
    exact ⟨husable, Int.le_of_eq hnow.symm⟩
  | overwrite url content =>
    rw [after_overwrite]
    refine ⟨?_, Int.le_refl _⟩
    cases hw : w.files.write (c.entryPath url) content with
    | error p => exact h
    | ok files => exact (h.overwrite hc hw).1
  | network routes elsewhere => exact ⟨h, Int.le_refl _⟩

theorem afterAll (hc : c.IsPlain) (h : c.Usable w.files) (past : List Happening) :
    c.Usable (c.afterAll w past).files ∧ w.now ≤ (c.afterAll w past).now := by
  induction past generalizing w with
  | nil => exact ⟨h, Int.le_refl _⟩
  | cons x past ih =>
    obtain ⟨hx, hnow⟩ := h.after hc x
    obtain ⟨hrest, hnow'⟩ := ih hx
    exact ⟨hrest, Int.le_trans hnow hnow'⟩

end Usable

/-- Nothing is requested exactly if the entry is fresh; only the entry of the URL is touched. -/
theorem cachedGet_answers (hc : c.IsPlain) (h : c.Usable w.files) (url : String) :
    let y := (cachedGet c url).run w
    (∀ r, c.Fresh w url r → y = (.ok r, w)) ∧
      ((∀ r, ¬ c.Fresh w url r) → ∃ urls outcome, c.Fetched w url urls outcome y) ∧
      (y.2.gets url = w.gets url ↔ ∃ r, c.Fresh w url r) ∧
      ∀ v, c.entryName v ≠ c.entryName url → c.entry? y.2.files v = c.entry? w.files v := by
  have hfresh : ∀ r, c.Fresh w url r → (cachedGet c url).run w = (.ok r, w) :=
    fun r hf => cachedGet_of_fresh hc h hf
  have hstale := fun hn => @cachedGet_of_not_fresh c w url hc h hn
  dsimp only at hstale ⊢
  generalize (cachedGet c url).run w = y at hfresh hstale ⊢
  by_cases hf : ∃ r, c.Fresh w url r
  · obtain ⟨r, hr⟩ := hf
    have hy := hfresh r hr
    refine ⟨hfresh, fun hn => absurd hr (hn r), ⟨fun _ => ⟨r, hr⟩, fun _ => by rw [hy]⟩, ?_⟩
    intro v _
    rw [hy]
  · have hn : ∀ r, ¬ c.Fresh w url r := fun r hr => hf ⟨r, hr⟩
    obtain ⟨hfetched, -, -, hconfined⟩ := hstale hn
    refine ⟨hfresh, fun _ => hfetched, ⟨fun heq => ?_, fun hr => absurd hr hf⟩, hconfined.others⟩
    obtain ⟨urls, outcome, hfetched⟩ := hfetched
    have hgets := hfetched.gets url
    rw [if_pos rfl] at hgets
    exact absurd (hgets.symm.trans heq) (Nat.succ_ne_self _)

/-- A call is answered where the network has an answer whose body has a text. -/
theorem Fetched.landed {urls : List String} {outcome : Except Foreign Landing}
    {y : Except Fault CachedResponse × World} (h : c.Fetched w url urls outcome y)
    (hy : y.1 = .ok r) : ∃ l text, outcome = .ok l ∧ isSuccess l.status = true ∧
      c.reading.body l.headers l.body = .ok text := by
  cases outcome with
  | error e =>
    rw [h.breakdown e rfl] at hy
    cases hy
  | ok l =>
    cases hs : isSuccess l.status with
    | false =>
      rw [h.refusal l rfl hs] at hy
      cases hy
    | true =>
      cases hb : c.reading.body l.headers l.body with
      | error e =>
        rw [h.unreadable l e rfl hs hb] at hy
        cases hy
      | ok text => exact ⟨l, text, rfl, hs, hb⟩

/-- What a request yields is the entry of its URL. -/
theorem Fetched.kept {urls : List String} {outcome : Except Foreign Landing}
    {y : Except Fault CachedResponse × World} (h : c.Fetched w url urls outcome y)
    (hr : ((request c.reading url).run w).1 = .ok r) : y.1 = .ok r ∧ r.url = url ∧
      r.fetchedAt = ⟨w.now, 0⟩ ∧ c.entry? y.2.files url = some (Utf8.encode r.toDocument) ∧
      (c.reading.entry r.toDocument = .ok r → c.readEntry y.2.files (c.entryPath url) = .ok r) := by
  have hy : y.1 = .ok r := h.answer.trans hr
  obtain ⟨l, text, hl, hs, hb⟩ := h.landed hy
  obtain ⟨hanswer, -, hentry, hread⟩ := h.success l text hl hs hb
  rw [hanswer] at hy
  cases hy
  exact ⟨hanswer, rfl, rfl, hentry, hread⟩

/-! ## Entries that are left alone -/

/-- What happens leaves the entry of a URL alone, unless it is too old. -/
def Spares (c : Cache) (url : String) : Happening → Prop
  | .clear => False
  | .overwrite v _ => c.entryName v ≠ c.entryName url
  | _ => True

theorem Fresh.of_entry? (hc : c.IsPlain) {w' : World} (h' : c.Usable w'.files)
    (he : c.entry? w'.files url = c.entry? w.files url)
    (hf : c.Fresh w url r) (hyoung : w'.now - r.fetchedAt.micros ≤ c.timeToLive) :
    c.Fresh w' url r := by
  obtain ⟨content, text, hbytes, hrest⟩ := hf.read
  refine ⟨⟨content, text, ?_, hrest⟩, hyoung⟩
  have hentry : c.entry? w'.files url = some content := by
    rw [he, entry?, hbytes]
    rfl
  exact (FileTree.bytes_eq_ok_iff h'.sound (plain_entry hc url)).2
    ((h'.entry?_eq_some_iff hc).1 hentry)

/-- A fresh entry that is spared is left as it is. -/
theorem entry?_after (hc : c.IsPlain) (h : c.Usable w.files) (hf : c.Fresh w url r)
    {x : Happening} (hx : c.Spares url x) :
    c.entry? (c.after w x).files url = c.entry? w.files url := by
  cases x with
  | get v =>
    rw [after_get]
    by_cases hv : ∃ r', c.Fresh w v r'
    · obtain ⟨r', hv⟩ := hv
      rw [cachedGet_of_fresh hc h hv]
    · obtain ⟨-, -, -, hconfined⟩ := cachedGet_of_not_fresh hc h fun r' hr' => hv ⟨r', hr'⟩
      refine hconfined.others url fun hname => hv ⟨r, ?_⟩
      -- Both URLs would have the same entry, and it is fresh.
      have hpath : c.entryPath v = c.entryPath url := by
        rw [entryPath, entryPath, fileName, fileName, hname]
      exact ⟨hpath ▸ hf.read, hf.young⟩
  | wait micros => rfl
  | clear => exact hx.elim
  | overwrite v content =>
    rw [after_overwrite]
    cases hw : w.files.write (c.entryPath v) content with
    | error p => rfl
    | ok files => exact (h.overwrite hc hw).2 url (Ne.symm hx)
  | network routes elsewhere => rfl

/-- An entry that is spared stays fresh until it is too old. -/
theorem Fresh.afterAll (hc : c.IsPlain) (h : c.Usable w.files) (hf : c.Fresh w url r)
    {past : List Happening} (hpast : ∀ x ∈ past, c.Spares url x)
    (hyoung : (c.afterAll w past).now - r.fetchedAt.micros ≤ c.timeToLive) :
    c.Fresh (c.afterAll w past) url r := by
  induction past generalizing w with
  | nil => exact hf
  | cons x past ih =>
    obtain ⟨hx, -⟩ := h.after hc x
    have hnow := (hx.afterAll hc past).2
    have hyoung' : (c.after w x).now - r.fetchedAt.micros ≤ c.timeToLive :=
      Int.le_trans (Int.sub_le_sub_right hnow _) hyoung
    exact ih hx (hf.of_entry? hc hx (entry?_after hc h hf (hpast x List.mem_cons_self)) hyoung')
      (fun x hx => hpast x (List.mem_cons_of_mem _ hx)) hyoung

/-- A response that was requested is kept for as long as it is spared and not too old. -/
theorem fresh_after_get (hc : c.IsPlain) (h : c.Usable w.files) (hn : ∀ r, ¬ c.Fresh w url r)
    (hr : ((request c.reading url).run w).1 = .ok r) (hround : c.reading.entry r.toDocument = .ok r)
    {past : List Happening} (hpast : ∀ x ∈ past, c.Spares url x)
    (hyoung : (c.afterAll w (.get url :: past)).now - w.now ≤ c.timeToLive) :
    c.Fresh (c.afterAll w (.get url :: past)) url r := by
  obtain ⟨⟨urls, outcome, hfetched⟩, husable, -, -⟩ := cachedGet_of_not_fresh hc h hn
  obtain ⟨-, -, hfetchedAt, -, hread⟩ := hfetched.kept hr
  rw [afterAll_cons, after_get] at hyoung ⊢
  generalize ((cachedGet c url).run w).2 = w' at hyoung husable hread ⊢
  have hage : (c.afterAll w' past).now - r.fetchedAt.micros ≤ c.timeToLive := by
    rw [hfetchedAt]
    exact hyoung
  have hnow := (husable.afterAll hc past).2
  have hfirst : c.Fresh w' url r :=
    fresh_iff.2 ⟨hread hround, Int.le_trans (Int.sub_le_sub_right hnow _) hage⟩
  exact hfirst.afterAll hc husable hpast hage

/-! ## The calls of a history -/

/-- **main theorem**: a call after any history, however bodies and entries are read. It is answered
from the entry of its URL, and nothing is requested, exactly if that entry is fresh; otherwise there
is one request, and the entry is the response that was answered, or there is none after a fault. The
entries of other URLs stay. -/
theorem cachedGet_afterAll (reading : Reading) {directory : String}
    (hdirectory : FileTree.IsPlain directory) (hne : directory ≠ "") {w₀ : World}
    (h₀ : (inDirectory directory reading).Usable w₀.files) (past : List Happening) (url : String) :
    let c := inDirectory directory reading
    let w := c.afterAll w₀ past
    let y := (cachedGet c url).run w
    (∀ r, c.Fresh w url r → y = (.ok r, w)) ∧
      ((∀ r, ¬ c.Fresh w url r) → ∃ urls outcome, c.Fetched w url urls outcome y) ∧
      (y.2.gets url = w.gets url ↔ ∃ r, c.Fresh w url r) ∧
      ∀ v, Digest.ofText v ≠ Digest.ofText url → c.entry? y.2.files v = c.entry? w.files v :=
  have hc := isPlain_inDirectory hdirectory hne
  cachedGet_answers hc (h₀.afterAll hc past).1 url

/-! ## One module -/

/-- A world without files, in which the network has one module. -/
def oneModule : World where
  files := ⟨[], []⟩
  routes := [("https://cdn.test/a.ts", .response 200 [("X-Served-By", "cdn")] (Utf8.encode "1"))]
  now := 1700000000000000
  requests := []
  log := []

theorem get?_oneModule {p : List (List Char)} (hp : p ≠ []) : oneModule.files.get? p = none := by
  rw [FileTree.get?_of_ne_nil hp]
  rfl

theorem usable_oneModule (hc : c.IsPlain) : c.Usable oneModule.files where
  sound := ⟨fun p name hs => by simp [get?_oneModule] at hs, rfl⟩
  free q _ := by
    by_cases hq : q = []
    · subst hq
      rfl
    · rw [FileTree.isFileAt, get?_oneModule hq]
  entries url hd := by
    rw [place_entry hc, get?_oneModule (by simp)] at hd
    cases hd
  drafts url hd := by
    rw [place_draft hc, get?_oneModule (by simp)] at hd
    cases hd

/-- The response of the module. -/
def oneResponse : CachedResponse where
  url := "https://cdn.test/a.ts"
  responseUrl := "https://cdn.test/a.ts"
  text := "1"
  headers := .ofList [("x-served-by", "cdn"), ("content-length", "1")]
  fetchedAt := ⟨1700000000000000, 0⟩

instance {α : Type} [DecidableEq α] : DecidableEq (Table α) := fun a b =>
  decidable_of_iff (a.entries = b.entries)
    ⟨fun h => by cases a; cases b; cases h; rfl, congrArg Table.entries⟩

deriving instance DecidableEq for CachedResponse

theorem eq_ok_of_toOption {ε α : Type} {x : Except ε α} {a : α} (h : x.toOption = some a) :
    x = .ok a := by
  cases x with
  | error e => cases h
  | ok b => rw [Option.some.inj h]

set_option maxRecDepth 100000 in
theorem request_oneModule :
    ((request .usual "https://cdn.test/a.ts").run oneModule).1 = .ok oneResponse :=
  eq_ok_of_toOption (by decide +kernel)

set_option maxRecDepth 100000 in
theorem entry_oneResponse : Reading.usual.entry oneResponse.toDocument = .ok oneResponse :=
  eq_ok_of_toOption (by decide +kernel)

theorem not_fresh_oneModule (hc : c.IsPlain) (url : String) (r : CachedResponse) :
    ¬ c.Fresh oneModule url r := by
  rintro ⟨⟨content, -, hbytes, -⟩, -⟩
  rw [FileTree.bytes_eq_ok_iff (usable_oneModule hc).sound (plain_entry hc url),
    get?_oneModule (by rw [place_entry hc]; simp)] at hbytes
  cases hbytes

theorem fresh_oneModule (hc : c.IsPlain) (hday : c.timeToLive = freshnessWindow)
    (husual : c.reading = .usual) :
    c.Fresh (c.afterAll oneModule [.get "https://cdn.test/a.ts", .wait 86400000000])
      "https://cdn.test/a.ts" oneResponse := by
  have h := usable_oneModule hc
  have hn := not_fresh_oneModule hc "https://cdn.test/a.ts"
  obtain ⟨-, -, ⟨hnow, -⟩, -⟩ := cachedGet_of_not_fresh hc h hn
  refine fresh_after_get hc h hn (husual ▸ request_oneModule) (husual ▸ entry_oneResponse)
    (List.forall_mem_singleton.2 trivial) ?_
  change ((cachedGet c _).run oneModule).2.now + 86400000000 - oneModule.now ≤ _
  rw [hnow, hday]
  decide

/-- The module is served in a set that needs a mark of the byte order, without the mark. -/
def unmarked : World :=
  { oneModule with
    routes := [("https://cdn.test/a.ts",
      .response 200 [("Content-Type", "text/plain; charset=utf-16")] (Utf8.encode "12"))] }

set_option maxRecDepth 100000 in
theorem request_unmarked : ((request .usual "https://cdn.test/a.ts").run unmarked).1 =
    .error (.foreign (Charset.noText "UTF-16 stream does not start with BOM")) :=
  by decide +kernel

/-- The module is requested once, and answered from its entry for a day. A body without a text ends
the call, and nothing is kept. -/
theorem cachedGet_afterAll_oneModule :
    let c := inDirectory "/cache"
    let url := "https://cdn.test/a.ts"
    let w := c.afterAll oneModule [.get url, .wait 86400000000]
    ((cachedGet c url).run oneModule).2.gets url = 1 ∧
      (cachedGet c url).run w = (.ok oneResponse, w) ∧
      ((cachedGet c url).run unmarked).1 =
        .error (.foreign (Charset.noText "UTF-16 stream does not start with BOM")) ∧
      ((cachedGet c url).run unmarked).2.files.contains (c.entryPath url) = false := by
  have hdirectory : FileTree.IsPlain "/cache" := ⟨by decide, by decide⟩
  have hne : "/cache" ≠ "" := by decide
  have hc : (inDirectory "/cache" .usual).IsPlain := isPlain_inDirectory hdirectory hne
  have h₀ := usable_oneModule hc
  have h₀' : (inDirectory "/cache" .usual).Usable unmarked.files := h₀
  obtain ⟨-, hfirst, -, -⟩ :=
    cachedGet_afterAll .usual hdirectory hne h₀ [] "https://cdn.test/a.ts"
  obtain ⟨urls, outcome, hfetched⟩ := hfirst (not_fresh_oneModule hc _)
  obtain ⟨hagain, -, -, -⟩ := cachedGet_afterAll .usual hdirectory hne h₀
    [.get "https://cdn.test/a.ts", .wait 86400000000] "https://cdn.test/a.ts"
  obtain ⟨-, hunmarked, -, -⟩ :=
    cachedGet_afterAll .usual hdirectory hne h₀' [] "https://cdn.test/a.ts"
  obtain ⟨urls', outcome', hended⟩ := hunmarked fun r hr =>
    not_fresh_oneModule hc _ r ⟨hr.read, hr.young⟩
  have herror := hended.answer.trans request_unmarked
  have hgone := hended.gone _ herror
  rw [afterAll_nil] at herror hgone
  exact ⟨hfetched.gets _, hagain oneResponse (fresh_oneModule hc rfl rfl), herror, hgone⟩

end Cache

end ModuleGraph.Fetch
