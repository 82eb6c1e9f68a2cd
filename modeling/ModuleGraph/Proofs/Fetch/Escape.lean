import ModuleGraph.Proofs.Fetch.Replay
import ModuleGraph.Proofs.FileTree
/-!
# Errors that are no fault of a fetch

A fetch that has no text ends with a fault of the module graph, which says what was fetched, or with
an error from outside, which whoever fetched does not expect. Faults are what servers and files are
known to do: a status that is no success, a breakdown of the transport, a file that is not there or
holds no text. An error from outside comes of a URL that cannot be read or requested at all, among
them those that a server names in its headers, of a breakdown of another kind, of a response whose
body has no text in the character set that its headers name, and of an entry of the cache that is of
no use and cannot be removed.

Results:
* `World.strays_iff`: when a request ends with an error from outside;
* `Cache.breaks_iff`: when the call of a URL does;
* `Cache.escapes_iff`: **main theorem**: when the fetch of a module does.
-/

namespace ModuleGraph

/-- The action ends with an error that is none of the module graph's own. -/
def EndsOutside {α : Type} (r : Except Fault α) : Prop := ∃ e, r = .error e ∧ e.isOwn = false

theorem not_endsOutside_ok {α : Type} (a : α) : ¬ EndsOutside (.ok a : Except Fault α) := by
  rintro ⟨_, h, -⟩
  cases h

theorem endsOutside_error {α : Type} {e : Fault} :
    EndsOutside (.error e : Except Fault α) ↔ e.isOwn = false := by
  constructor
  · rintro ⟨_, h, he⟩
    cases h
    exact he
  · exact fun he => ⟨e, rfl, he⟩

/-- The same value, or two faults that whoever asked deals with in the same way. -/
inductive SameFate {α : Type} : Except Fault α → Except Fault α → Prop
  | ok (a : α) : SameFate (.ok a) (.ok a)
  | error {e e' : Fault} (h : e.isOwn = e'.isOwn) : SameFate (.error e) (.error e')

theorem SameFate.refl {α : Type} (r : Except Fault α) : SameFate r r := by
  cases r with
  | error e => exact .error rfl
  | ok a => exact .ok a

namespace Fetch

/-! ## One request -/

/-- A request of the URL comes to an error that is none of the transport or of the protocol, or to a
response whose body has no text. -/
inductive World.Strays (w : World) (d : Reading) (url : String) : Prop
  | exchange {urls : List String} {e : Foreign} (hget : Get w.replyTo url urls (.error e))
      (hlen : urls.length ≤ redirectionLimit + 1) (hkind : transportErrors.contains e.kind = false)
  | unreadable {urls : List String} {l : Landing} {e : Foreign}
      (hget : Get w.replyTo url urls (.ok l)) (hlen : urls.length ≤ redirectionLimit + 1)
      (hs : isSuccess l.status = true) (hb : d.body l.headers l.body = .error e)

theorem World.strays_congr {w w' : World} {d : Reading} {url : String}
    (h : w'.replyTo = w.replyTo) : w'.Strays d url ↔ w.Strays d url := by
  constructor
  · rintro (⟨hget, hlen, hkind⟩ | ⟨hget, hlen, hs, hb⟩)
    · exact .exchange (h ▸ hget) hlen hkind
    · exact .unreadable (h ▸ hget) hlen hs hb
  · rintro (⟨hget, hlen, hkind⟩ | ⟨hget, hlen, hs, hb⟩)
    · exact .exchange (h.symm ▸ hget) hlen hkind
    · exact .unreadable (h.symm ▸ hget) hlen hs hb

/-- What cannot be requested is none of the transport's errors. -/
theorem RequestUrl.Problem.isOutside (p : RequestUrl.Problem) :
    transportErrors.contains p.toForeign.kind = false := by
  have hvalue : transportErrors.contains "ValueError" = false := by decide
  have hurl : transportErrors.contains "InvalidURL" = false := by decide
  cases p with
  | malformed p => exact hvalue
  | _ => exact hurl

theorem isOwn_transportFault (url : String) (e : Foreign) :
    (transportFault url e).isOwn = transportErrors.contains e.kind := by
  unfold transportFault
  split
  · next h => exact h.symm
  · next h => exact (Bool.eq_false_iff.2 h).symm

/-- An exchange that is not too long, and that does not end for the number of its redirections, is
what following the URL comes to. -/
theorem Exchange.run_follow_eq {replyTo : String → Reply} {url : RequestUrl} {urls : List String}
    {r : Except Foreign Landing} (h : Exchange replyTo url urls r)
    (hr : r ≠ .error tooManyRedirects) {hops : Nat} (hlen : urls.length ≤ hops + 1)
    {w : World} (hw : w.replyTo = replyTo) : ((follow hops url).run w).1 = r := by
  induction h generalizing hops w with
  | broken h =>
    rw [run_follow, hw, h]
  | astray h hnext =>
    rw [run_follow, hw, h]
    dsimp only
    rw [hnext]
  | landed h hnext =>
    rw [run_follow, hw, h]
    dsimp only
    rw [hnext]
  | @moved url next status given body urls r h hnext hrest ih =>
    rw [run_follow, hw, h]
    dsimp only
    rw [hnext]
    cases hops with
    | zero =>
      have hpos : 0 < urls.length := by cases hrest <;> exact Nat.succ_pos _
      rw [List.length_cons] at hlen
      omega
    | succ hops => exact ih hr (Nat.le_of_succ_le_succ hlen) hw
  | weary h hnext => exact absurd rfl hr

theorem answerTo_of_refused (w : World) (d : Reading) {url : String} {p : RequestUrl.Problem}
    (h : RequestUrl.parse url = .error p) :
    w.answerTo d url = .error (transportFault url p.toForeign) := by
  rw [World.answerTo, run_request_of_refused d w h]

theorem answerTo_of_sent (w : World) (d : Reading) {url : String} {target : RequestUrl}
    (h : RequestUrl.parse url = .ok target) : ∃ w', w'.replyTo = w.replyTo ∧
      w.answerTo d url = yielded d url w.now ((follow redirectionLimit target.rooted).run w').1 := by
  refine ⟨w.tell .debug ("Fetching " ++ url), rfl, ?_⟩
  obtain ⟨urls, r, -, -, hrun⟩ :=
    Exchange.exists_follow w.replyTo redirectionLimit target.rooted
  have hrun' := hrun (w.tell .debug ("Fetching " ++ url)) rfl
  rw [World.answerTo, run_request_of_follow d h hrun', hrun']

/-- An error of the exchange is passed on as one from outside unless it is one of the transport; a
landing is none but for a body without a text. -/
theorem endsOutside_yielded {d : Reading} {url : String} {now : Int} {r : Except Foreign Landing} :
    EndsOutside (yielded d url now r) ↔
      (∃ e, r = .error e ∧ transportErrors.contains e.kind = false) ∨
      ∃ l e, r = .ok l ∧ isSuccess l.status = true ∧ d.body l.headers l.body = .error e := by
  cases r with
  | error e =>
    rw [yielded, endsOutside_error, isOwn_transportFault]
    simp
  | ok l =>
    simp only [reduceCtorEq, false_and, exists_false, false_or, Except.ok.injEq]
    cases hs : isSuccess l.status with
    | false =>
      rw [yielded_of_refusal hs, endsOutside_error]
      refine iff_of_false Bool.noConfusion ?_
      rintro ⟨l', e, rfl, hs', -⟩
      rw [hs] at hs'
      cases hs'
    | true =>
      cases hb : d.body l.headers l.body with
      | error e =>
        rw [yielded_of_unreadable hs hb, endsOutside_error]
        exact iff_of_true rfl ⟨l, e, rfl, hs, hb⟩
      | ok text =>
        rw [yielded_of_body hs hb]
        refine iff_of_false (not_endsOutside_ok _) ?_
        rintro ⟨l', e, rfl, -, hb'⟩
        rw [hb] at hb'
        cases hb'

/-- A request ends with an error from outside exactly if it strays. -/
theorem World.strays_iff {w : World} {d : Reading} {url : String} :
    EndsOutside (w.answerTo d url) ↔ w.Strays d url := by
  cases hp : RequestUrl.parse url with
  | error p =>
    rw [answerTo_of_refused w d hp]
    refine iff_of_true (endsOutside_error.2 ?_) (.exchange (.refused hp) (Nat.zero_le _) p.isOutside)
    rw [isOwn_transportFault, p.isOutside]
  | ok target =>
    obtain ⟨w', hw', hanswer⟩ := answerTo_of_sent w d hp
    -- Whatever a short exchange comes to is what following the URL comes to.
    have hfollow : ∀ {urls r}, Get w.replyTo url urls r → urls.length ≤ redirectionLimit + 1 →
        r ≠ .error tooManyRedirects → ((follow redirectionLimit target.rooted).run w').1 = r := by
      intro urls r hget hlen hr
      cases hget with
      | refused hp' =>
        rw [hp] at hp'
        cases hp'
      | sent hp' hx =>
        rw [hp] at hp'
        cases hp'
        exact hx.run_follow_eq hr hlen hw'
    rw [hanswer, endsOutside_yielded]
    constructor
    · obtain ⟨urls, r, hx, hlen, hrun⟩ :=
        Exchange.exists_follow w.replyTo redirectionLimit target.rooted
      rw [hrun w' hw']
      rintro (⟨e, rfl, hkind⟩ | ⟨l, e, rfl, hs, hb⟩)
      · exact .exchange (.sent hp hx) hlen hkind
      · exact .unreadable (.sent hp hx) hlen hs hb
    · rintro (⟨hget, hlen, hkind⟩ | ⟨hget, hlen, hs, hb⟩)
      · refine .inl ⟨_, hfollow hget hlen ?_, hkind⟩
        rintro heq
        cases heq
        exact absurd hkind (by decide)
      · exact .inr ⟨_, _, hfollow hget hlen (by simp), hs, hb⟩

/-! ## One call -/

namespace Cache

/-- The entry of the URL is there, is of no use, and cannot be removed. -/
structure Jammed (c : Cache) (w : World) (url : String) : Prop where
  there : w.files.contains (c.entryPath url) = true
  useless : ∀ r, ¬ c.Fresh w url r
  fixed : ∃ p, w.files.remove (c.entryPath url) = .error p

/-- The call of a URL ends with an error from outside. -/
inductive Breaks (c : Cache) (w : World) (url : String) : Prop
  | jammed (h : c.Jammed w url)
  | strays (hn : ∀ r, ¬ c.Fresh w url r) (hj : ¬ c.Jammed w url) (h : w.Strays c.reading url)

/-- Dropping an entry of no use goes well unless the entry is in the way. -/
theorem drop_cases (c : Cache) {w : World} {url : String} (hn : ∀ r, ¬ c.Fresh w url r)
    (hthere : w.files.contains (c.entryPath url) = true) (level : Level) (message : String) :
    let y := (do
      set (w.tell level message)
      discard (c.entryPath url)
      return none : Action (Option CachedResponse)).run w
    (c.Jammed w url ∧ EndsOutside y.1) ∨
      ((∀ r, ¬ c.Fresh w url r) ∧ ¬ c.Jammed w url ∧
        ∃ w', w'.replyTo = w.replyTo ∧ y = (.ok none, w')) := by
  intro y
  have hy : y = (do
      discard (c.entryPath url)
      return none : Action (Option CachedResponse)).run (w.tell level message) := rfl
  rw [Action.run_bind, discard, Action.run_get_bind] at hy
  have hfiles : (w.tell level message).files = w.files := rfl
  rw [hfiles] at hy
  cases hremove : w.files.remove (c.entryPath url) with
  | error p =>
    rw [hremove] at hy
    exact .inl ⟨⟨hthere, hn, p, hremove⟩, hy ▸ ⟨_, rfl, rfl⟩⟩
  | ok files =>
    rw [hremove] at hy
    refine .inr ⟨hn, fun hj => ?_, { w.tell level message with files := files }, rfl, hy⟩
    obtain ⟨p, hp⟩ := hj.fixed
    rw [hremove] at hp
    cases hp

/-- Looking an entry up finds it if it is fresh, gives up if it is in the way, and otherwise finds
nothing over the same network. -/
theorem find_cases (c : Cache) (w : World) (url : String) :
    (∃ r, c.Fresh w url r ∧ (c.find url).run w = (.ok (some r), w)) ∨
      (c.Jammed w url ∧ EndsOutside ((c.find url).run w).1) ∨
      ((∀ r, ¬ c.Fresh w url r) ∧ ¬ c.Jammed w url ∧
        ∃ w', w'.replyTo = w.replyTo ∧ (c.find url).run w = (.ok none, w')) := by
  rw [find, Action.run_get_bind]
  cases hthere : w.files.contains (c.entryPath url) with
  | false =>
    refine .inr (.inr ⟨fun r hf => ?_, fun hj => ?_, w, rfl, rfl⟩)
    · obtain ⟨content, -, hbytes, -⟩ := hf.read
      rw [FileTree.contains_of_bytes hbytes] at hthere
      cases hthere
    · rw [hj.there] at hthere
      cases hthere
  | true =>
    cases hread : c.readEntry w.files (c.entryPath url) with
    | error e =>
      refine .inr (c.drop_cases (fun r hf => ?_) hthere _ _)
      rw [(fresh_iff.1 hf).1] at hread
      cases hread
    | ok r =>
      by_cases hold : c.timeToLive < age w.now r
      · simp only [Bool.not_true, Bool.false_eq_true, if_false, if_pos hold]
        refine .inr (c.drop_cases (fun r' hf => ?_) hthere _ _)
        obtain ⟨hread', hyoung⟩ := fresh_iff.1 hf
        rw [hread] at hread'
        cases hread'
        exact absurd hyoung (Int.not_le.2 hold)
      · simp only [Bool.not_true, Bool.false_eq_true, if_false, if_neg hold]
        exact .inl ⟨r, fresh_iff.2 ⟨hread, Int.not_lt.1 hold⟩, rfl⟩

/-- What cannot be kept is passed over. -/
theorem run_keep (c : Cache) (r : CachedResponse) (w : World) :
    ∃ w', (c.keep r).run w = (.ok (), w') := by
  rw [keep, Action.run_get_bind]
  dsimp only
  cases (c.write w.files r).2 <;> exact ⟨_, rfl⟩

theorem run_request_keep (c : Cache) (url : String) (w : World) :
    ((do
      let r ← request c.reading url
      c.keep r
      return r : Action CachedResponse).run w).1 = w.answerTo c.reading url := by
  rw [Action.run_bind, World.answerTo]
  rcases (request c.reading url).run w with ⟨r, w'⟩
  cases r with
  | error e => rfl
  | ok r =>
    obtain ⟨w'', hkeep⟩ := c.run_keep r w'
    dsimp only
    rw [Action.run_bind_of_ok hkeep]
    rfl

/-- The call of a URL ends with an error from outside if the entry is in the way, or if there is no
fresh one and the request comes to such an error. -/
theorem breaks_iff {c : Cache} {w : World} {url : String} :
    EndsOutside ((cachedGet c url).run w).1 ↔ c.Breaks w url := by
  rw [cachedGet, Action.run_bind]
  rcases c.find_cases w url with ⟨r, hf, hrun⟩ | ⟨hj, hout⟩ | ⟨hn, hj, w', hw', hrun⟩
  · rw [hrun]
    refine iff_of_false (not_endsOutside_ok r) ?_
    rintro (hj | ⟨hn, -, -⟩)
    · exact hj.useless r hf
    · exact hn r hf
  · obtain ⟨e, he, hown⟩ := hout
    rcases hrun : (c.find url).run w with ⟨found, w'⟩
    rw [hrun] at he
    dsimp only at he
    subst he
    exact iff_of_true (endsOutside_error.2 hown) (.jammed hj)
  · rw [hrun]
    dsimp only
    rw [run_request_keep, World.strays_iff]
    rw [World.strays_congr hw']
    constructor
    · exact .strays hn hj
    · rintro (hj' | ⟨-, -, h⟩)
      · exact absurd hj' hj
      · exact h

/-! ## One fetch -/

/-- What is made of a value in the end does not matter. -/
theorem endsOutside_map {α β : Type} (x : Except Fault α) (f : α → β) :
    EndsOutside (x.map f) ↔ EndsOutside x := by
  cases x with
  | error e => exact endsOutside_error.trans endsOutside_error.symm
  | ok a => exact iff_of_false (not_endsOutside_ok _) (not_endsOutside_ok _)

/-- The fetch of a module over the network ends with an error from outside. -/
inductive BreaksRemote (c : Cache) (w : World) (url : String) : Prop
  | module (h : c.Breaks w url)
  /-- The header that names a file with types does not name a URL. -/
  | noTypes {r : CachedResponse} {w' : World} {types : String} {p : Url.Problem}
      (hr : (cachedGet c url).run w = (.ok r, w')) (ht : r.headers.get? typesHeader = some types)
      (hj : Url.join r.responseUrl types = .error p)
  | types {r : CachedResponse} {w' : World} {types target : String}
      (hr : (cachedGet c url).run w = (.ok r, w')) (ht : r.headers.get? typesHeader = some types)
      (hj : Url.join r.responseUrl types = .ok target) (h : c.Breaks w' target)
  /-- The URL that the response says it came from cannot be read. -/
  | noUrl {r : CachedResponse} {w' : World} {p : Url.Problem}
      (hr : (cachedGet c url).run w = (.ok r, w')) (ht : r.headers.get? typesHeader = none)
      (hs : scriptUrl r.responseUrl = .error p)

/-- The fetch of a module ends with an error from outside. -/
inductive Escapes (c : Cache) (w : World) (url : String) : Prop
  /-- The URL cannot be read. -/
  | noProtocol {e : Fault} (h : protocol url = .error e) (he : e.isOwn = false)
  | noPath {p : Url.Problem} (h : protocol url = .ok .local) (hp : FilePath.ofUrl url = .error p)
  /-- The path of the file has a NUL. -/
  | noName {path : String} (h : protocol url = .ok .local) (hp : FilePath.ofUrl url = .ok path)
      (hn : path.toList.contains '\x00' = true)
  | remote {network : String} (h : protocol url = .ok (.remote network))
      (hr : c.BreaksRemote w network)

section

variable {c : Cache} {w w' : World} {url types : String} {r : CachedResponse} {e : Fault}

theorem not_breaks_of_ok (hrun : (cachedGet c url).run w = (.ok r, w')) : ¬ c.Breaks w url := by
  rw [← breaks_iff, hrun]
  exact not_endsOutside_ok r

/-- Where the call of the module has no response, it is the only cause. -/
theorem breaksRemote_iff_of_error (hrun : (cachedGet c url).run w = (.error e, w')) :
    c.BreaksRemote w url ↔ c.Breaks w url := by
  constructor
  · rintro (h | ⟨hr, -, -⟩ | ⟨hr, -, -, -⟩ | ⟨hr, -, -⟩)
    · exact h
    all_goals
      rw [hrun] at hr
      cases hr
  · exact .module

/-- A response that names no file with types is the last one. -/
theorem breaksRemote_iff_of_plain (hrun : (cachedGet c url).run w = (.ok r, w'))
    (ht : r.headers.get? typesHeader = none) :
    c.BreaksRemote w url ↔ ∃ p, scriptUrl r.responseUrl = .error p := by
  constructor
  · rintro (h | ⟨hr, ht', -⟩ | ⟨hr, ht', -, -⟩ | ⟨hr, -, hs⟩)
    · exact absurd h (not_breaks_of_ok hrun)
    all_goals
      rw [hrun] at hr
      cases hr
    · rw [ht] at ht'
      cases ht'
    · rw [ht] at ht'
      cases ht'
    · exact ⟨_, hs⟩
  · rintro ⟨p, hs⟩
    exact .noUrl hrun ht hs

/-- After a response that names a file with types, that file decides. -/
theorem breaksRemote_iff_of_typed (hrun : (cachedGet c url).run w = (.ok r, w'))
    (ht : r.headers.get? typesHeader = some types) :
    c.BreaksRemote w url ↔ (∃ p, Url.join r.responseUrl types = .error p) ∨
      ∃ target, Url.join r.responseUrl types = .ok target ∧ c.Breaks w' target := by
  constructor
  · rintro (h | ⟨hr, ht', hj⟩ | ⟨hr, ht', hj, h⟩ | ⟨hr, ht', -⟩)
    · exact absurd h (not_breaks_of_ok hrun)
    all_goals
      rw [hrun] at hr
      cases hr
      rw [ht] at ht'
      cases ht'
    · exact .inl ⟨_, hj⟩
    · exact .inr ⟨_, hj, h⟩
  · rintro (⟨p, hj⟩ | ⟨target, hj, h⟩)
    · exact .noTypes hrun ht hj
    · exact .types hrun ht hj h

end

theorem breaksRemote_iff {c : Cache} {w : World} {url : String} :
    EndsOutside ((fetchRemote c url).run w).1 ↔ c.BreaksRemote w url := by
  rcases hrun : (cachedGet c url).run w with ⟨first, w'⟩
  -- What is known of the first call decides which cause there can be.
  cases first with
  | error e =>
    rw [fetchRemote_of_error hrun, breaksRemote_iff_of_error hrun, ← breaks_iff, hrun]
    exact endsOutside_error.trans endsOutside_error.symm
  | ok r =>
    cases ht : r.headers.get? typesHeader with
    | none =>
      rw [fetchRemote_of_script hrun ht, breaksRemote_iff_of_plain hrun ht]
      cases hs : scriptUrl r.responseUrl with
      | error p => exact iff_of_true ⟨_, rfl, rfl⟩ ⟨p, rfl⟩
      | ok counted =>
        refine iff_of_false (not_endsOutside_ok _) ?_
        rintro ⟨_, h⟩
        cases h
    | some types =>
      rw [breaksRemote_iff_of_typed hrun ht]
      cases hj : Url.join r.responseUrl types with
      | error p =>
        rw [fetchRemote_of_join_error hrun ht hj]
        exact iff_of_true ⟨_, rfl, rfl⟩ (.inl ⟨p, rfl⟩)
      | ok target =>
        rw [fetchRemote_of_types hrun ht hj, endsOutside_map, breaks_iff]
        refine ⟨fun h => .inr ⟨_, rfl, h⟩, ?_⟩
        rintro (⟨_, h⟩ | ⟨_, h, hbreaks⟩)
        · cases h
        · cases h
          exact hbreaks

theorem endsOutside_fetchLocal {w : World} {url : String} :
    EndsOutside ((fetchLocal url).run w).1 ↔ (∃ p, FilePath.ofUrl url = .error p) ∨
      ∃ path, FilePath.ofUrl url = .ok path ∧ path.toList.contains '\x00' = true := by
  rw [fetchLocal, Action.run_bind, Action.run_liftM]
  cases hpath : FilePath.ofUrl url with
  | error p => exact iff_of_true ⟨_, rfl, rfl⟩ (.inl ⟨p, rfl⟩)
  | ok path =>
    dsimp only [Action.mapError_ok]
    rw [Action.run_get_bind, Action.run_bind, Action.run_liftM]
    have hname : w.files.text path = .error .noPath ↔ path.toList.contains '\x00' = true :=
      FileTree.text_eq_noPath_iff
    cases htext : w.files.text path with
    | ok text =>
      refine iff_of_false (not_endsOutside_ok _) ?_
      rintro (⟨_, h⟩ | ⟨_, h, hn⟩)
      · cases h
      · cases h
        rw [hname.2 hn] at htext
        cases htext
    | error p =>
      rw [htext, Except.error.injEq] at hname
      refine (endsOutside_error (e := fileFault url p)).trans ?_
      cases p with
      | noPath => exact iff_of_true rfl (.inr ⟨path, rfl, hname.1 rfl⟩)
      | blocked obstacle blocked target =>
        refine iff_of_false Bool.noConfusion ?_
        rintro (⟨_, h⟩ | ⟨_, h, hn⟩)
        · cases h
        · cases h
          cases hname.2 hn
      | noText m =>
        refine iff_of_false Bool.noConfusion ?_
        rintro (⟨_, h⟩ | ⟨_, h, hn⟩)
        · cases h
        · cases h
          cases hname.2 hn

/-- **main theorem**: a fetch ends with an error from outside exactly for these causes; whatever else
keeps it from a text is a fault of the module graph. -/
theorem escapes_iff {c : Cache} {w : World} {url : String} :
    EndsOutside ((fetch c url).run w).1 ↔ c.Escapes w url := by
  rw [fetch, Action.run_bind, Action.run_liftM]
  cases hway : protocol url with
  | error e =>
    refine endsOutside_error.trans ⟨.noProtocol hway, ?_⟩
    rintro (⟨h, he⟩ | ⟨h, -⟩ | ⟨h, -, -⟩ | ⟨h, -⟩)
    · rw [hway] at h
      cases h
      exact he
    all_goals
      rw [hway] at h
      cases h
  | ok way =>
    cases way with
    | «local» =>
      refine endsOutside_fetchLocal.trans ⟨?_, ?_⟩
      · rintro (⟨p, hp⟩ | ⟨path, hp, hn⟩)
        · exact .noPath hway hp
        · exact .noName hway hp hn
      · rintro (⟨h, -⟩ | ⟨-, hp⟩ | ⟨-, hp, hn⟩ | ⟨h, -⟩)
        · rw [hway] at h
          cases h
        · exact .inl ⟨_, hp⟩
        · exact .inr ⟨_, hp, hn⟩
        · rw [hway] at h
          cases h
    | remote network =>
      refine breaksRemote_iff.trans ⟨.remote hway, ?_⟩
      rintro (⟨h, -⟩ | ⟨h, -⟩ | ⟨h, -, -⟩ | ⟨h, hr⟩)
      · rw [hway] at h
        cases h
      · rw [hway] at h
        cases h
      · rw [hway] at h
        cases h
      · rw [hway] at h
        cases h
        exact hr

end Cache

end Fetch

end ModuleGraph
