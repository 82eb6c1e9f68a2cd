import ModuleGraph.Fetch.Source
import ModuleGraph.Proofs.Action
/-!
# One request

A request asks the network for a URL and goes on to where the replies lead. What it asks for and
what comes of it is an `Exchange` with the network; nothing else in the world changes but the log.

Results:
* `Exchange.exists_follow`: following a URL is an exchange, and not a longer one than allowed;
* `exists_get`: what a request does, and what it yields;
* `yielded_eq_ok_iff`: a response is yielded where the status is a success and the body has a text;
* `request_congr`: a request that leaves one URL alone does not depend on what that URL has;
* `Get.lowerNames`: the headers of what it yields have their names in lower case.
-/

namespace ModuleGraph.Fetch

/-- The reply of the network to a URL. -/
def World.replyTo (w : World) (url : String) : Reply := (w.routes.lookup url).getD w.elsewhere

/-- An exchange with a network: the URLs that are asked for, of which each reply but the last leads
to the next one, and what comes of it. -/
inductive Exchange (replyTo : String → Reply) :
    RequestUrl → List String → Except Foreign Landing → Prop
  | broken {url : RequestUrl} {e : Foreign} (h : replyTo url.toText = .breakdown e) :
      Exchange replyTo url [url.toText] (.error e)
  | astray {url : RequestUrl} {status : Nat} {given : List (String × String)} {body : List UInt8}
      {e : Foreign} (h : replyTo url.toText = .response status given body)
      (hnext : nextUrl? url status (responseHeaders given body) = .error e) :
      Exchange replyTo url [url.toText] (.error e)
  | landed {url : RequestUrl} {status : Nat} {given : List (String × String)} {body : List UInt8}
      (h : replyTo url.toText = .response status given body)
      (hnext : nextUrl? url status (responseHeaders given body) = .ok none) :
      Exchange replyTo url [url.toText] (.ok ⟨url, status, responseHeaders given body, body⟩)
  | moved {url next : RequestUrl} {status : Nat} {given : List (String × String)}
      {body : List UInt8} {urls : List String} {r : Except Foreign Landing}
      (h : replyTo url.toText = .response status given body)
      (hnext : nextUrl? url status (responseHeaders given body) = .ok (some next))
      (hrest : Exchange replyTo next urls r) : Exchange replyTo url (url.toText :: urls) r
  /-- The reply leads on, but no further redirection is allowed. -/
  | weary {url next : RequestUrl} {status : Nat} {given : List (String × String)}
      {body : List UInt8} (h : replyTo url.toText = .response status given body)
      (hnext : nextUrl? url status (responseHeaders given body) = .ok (some next)) :
      Exchange replyTo url [url.toText] (.error tooManyRedirects)

/-- One request of a URL: an exchange that begins with it, or none if it cannot be requested. -/
inductive Get (replyTo : String → Reply) (url : String) :
    List String → Except Foreign Landing → Prop
  | refused {p : RequestUrl.Problem} (h : RequestUrl.parse url = .error p) :
      Get replyTo url [] (.error p.toForeign)
  | sent {target : RequestUrl} {urls : List String} {r : Except Foreign Landing}
      (h : RequestUrl.parse url = .ok target) (hx : Exchange replyTo target.rooted urls r) :
      Get replyTo url urls r

/-- The line of the log with which a request of a URL begins. -/
def fetching (url : String) : LogRecord := ⟨logger, .debug, "Fetching " ++ url⟩

/-- A response as it is kept, once its body is read. -/
def Landing.response (l : Landing) (url text : String) (now : Int) : CachedResponse where
  url := url
  responseUrl := l.url.toText
  text := text
  headers := .ofList l.headers
  fetchedAt := ⟨now, 0⟩

/-- What a request yields. -/
def yielded (d : Reading) (url : String) (now : Int) :
    Except Foreign Landing → Except Fault CachedResponse
  | .error e => .error (transportFault url e)
  | .ok l =>
    if isSuccess l.status then
      ((d.body l.headers l.body).mapError .foreign).map fun text => l.response url text now
    else .error (.fetch url (toString l.status ++ " " ++ reasonPhrase l.status))

section

variable {d : Reading} {url : String} {now : Int} {l : Landing}

theorem yielded_of_body {text : String} (hs : isSuccess l.status = true)
    (hb : d.body l.headers l.body = .ok text) :
    yielded d url now (.ok l) = .ok (l.response url text now) := by
  rw [yielded, if_pos hs, hb]
  rfl

theorem yielded_of_unreadable {e : Foreign} (hs : isSuccess l.status = true)
    (hb : d.body l.headers l.body = .error e) :
    yielded d url now (.ok l) = .error (.foreign e) := by
  rw [yielded, if_pos hs, hb]
  rfl

theorem yielded_of_refusal (hs : isSuccess l.status = false) : yielded d url now (.ok l) =
    .error (.fetch url (toString l.status ++ " " ++ reasonPhrase l.status)) := by
  rw [yielded, if_neg (Bool.eq_false_iff.1 hs)]

/-- A response is yielded where the status is a success and the body has a text. -/
theorem yielded_eq_ok_iff {outcome : Except Foreign Landing} {r : CachedResponse} :
    yielded d url now outcome = .ok r ↔ ∃ l text, outcome = .ok l ∧ isSuccess l.status = true ∧
      d.body l.headers l.body = .ok text ∧ r = l.response url text now := by
  constructor
  · intro h
    cases outcome with
    | error e => cases h
    | ok l =>
      cases hs : isSuccess l.status with
      | false =>
        rw [yielded_of_refusal hs] at h
        cases h
      | true =>
        cases hb : d.body l.headers l.body with
        | error e =>
          rw [yielded_of_unreadable hs hb] at h
          cases h
        | ok text =>
          rw [yielded_of_body hs hb] at h
          exact ⟨l, text, rfl, hs, hb, (Except.ok.inj h).symm⟩
  · rintro ⟨l, text, rfl, hs, hb, rfl⟩
    exact yielded_of_body hs hb

end

theorem run_follow (hops : Nat) (url : RequestUrl) (w : World) :
    (follow hops url).run w =
      let w' := { w with requests := w.requests ++ [url.toText] }
      match w.replyTo url.toText with
      | .breakdown e => (.error e, w')
      | .response status given body =>
        match nextUrl? url status (responseHeaders given body) with
        | .error e => (.error e, w')
        | .ok none => (.ok ⟨url, status, responseHeaders given body, body⟩, w')
        | .ok (some next) =>
          match hops with
          | 0 => (.error tooManyRedirects, w')
          | hops + 1 => (follow hops next).run w' := by
  rw [follow]
  change (match w.replyTo url.toText with
    | .breakdown e => _
    | .response status given body => _ : StateM World (Except Foreign Landing)).run _ = _
  cases w.replyTo url.toText with
  | breakdown e => rfl
  | response status given body =>
    dsimp only
    cases nextUrl? url status (responseHeaders given body) with
    | error e => rfl
    | ok next =>
      cases next with
      | none => rfl
      | some next => cases hops <;> rfl

/-- The first reply ends an exchange, or it leads on. -/
theorem follow_cases (replyTo : String → Reply) (url : RequestUrl) :
    (∃ r, Exchange replyTo url [url.toText] r ∧ ∀ hops w, w.replyTo = replyTo →
        (follow hops url).run w = (r, { w with requests := w.requests ++ [url.toText] })) ∨
      ∃ next, (∀ urls r, Exchange replyTo next urls r →
          Exchange replyTo url (url.toText :: urls) r) ∧
        Exchange replyTo url [url.toText] (.error tooManyRedirects) ∧
        ∀ w, w.replyTo = replyTo →
          let w' := { w with requests := w.requests ++ [url.toText] }
          (follow 0 url).run w = (.error tooManyRedirects, w') ∧
            ∀ hops, (follow (hops + 1) url).run w = (follow hops next).run w' := by
  cases h : replyTo url.toText with
  | breakdown e =>
    refine .inl ⟨_, .broken h, ?_⟩
    rintro hops w rfl
    rw [run_follow, h]
  | response status given body =>
    cases hnext : nextUrl? url status (responseHeaders given body) with
    | error e =>
      refine .inl ⟨_, .astray h hnext, ?_⟩
      rintro hops w rfl
      rw [run_follow, h]
      simp only [hnext]
    | ok next =>
      cases next with
      | none =>
        refine .inl ⟨_, .landed h hnext, ?_⟩
        rintro hops w rfl
        rw [run_follow, h]
        simp only [hnext]
      | some next =>
        refine .inr ⟨next, fun urls r => .moved h hnext, .weary h hnext, ?_⟩
        rintro w rfl
        refine ⟨?_, fun hops => ?_⟩
        · rw [run_follow, h]
          simp only [hnext]
        · rw [run_follow, h]
          simp only [hnext]

/-- Following a URL is an exchange with the network, the same one in every world with the same
replies. -/
theorem Exchange.exists_follow (replyTo : String → Reply) (hops : Nat) (url : RequestUrl) :
    ∃ urls r, Exchange replyTo url urls r ∧ urls.length ≤ hops + 1 ∧
      ∀ w, w.replyTo = replyTo →
        (follow hops url).run w = (r, { w with requests := w.requests ++ urls }) := by
  induction hops generalizing url with
  | zero =>
    rcases follow_cases replyTo url with ⟨r, hx, hrun⟩ | ⟨next, -, hx, hrun⟩
    · exact ⟨_, r, hx, Nat.le_refl 1, hrun 0⟩
    · exact ⟨_, _, hx, Nat.le_refl 1, fun w hw => (hrun w hw).1⟩
  | succ hops ih =>
    rcases follow_cases replyTo url with ⟨r, hx, hrun⟩ | ⟨next, hmoved, -, hrun⟩
    · exact ⟨_, r, hx, Nat.le_add_left 1 (hops + 1), hrun (hops + 1)⟩
    · obtain ⟨urls, r, hx, hlen, hrest⟩ := ih next
      refine ⟨url.toText :: urls, r, hmoved urls r hx, Nat.succ_le_succ hlen, fun w hw => ?_⟩
      have hnext := hrest { w with requests := w.requests ++ [url.toText] } hw
      rw [(hrun w hw).2, hnext, List.append_assoc, List.singleton_append]

/-- A request is what following its URL comes to. -/
theorem run_request_of_follow (d : Reading) {w : World} {url : String} {target : RequestUrl}
    (hp : RequestUrl.parse url = .ok target) {urls : List String} {r : Except Foreign Landing}
    (hrun : (follow redirectionLimit target.rooted).run (w.tell .debug ("Fetching " ++ url)) =
      (r, { w.tell .debug ("Fetching " ++ url) with requests := w.requests ++ urls })) :
    (request d url).run w = (yielded d url w.now r,
      { w with log := w.log ++ [fetching url], requests := w.requests ++ urls }) := by
  rw [request, Action.run_modify_bind, hp]
  dsimp only
  rw [Action.run_bind, Action.run_lift, hrun]
  cases r with
  | error e => rfl
  | ok l =>
    rw [yielded]
    dsimp only
    split
    · cases d.body l.headers l.body <;> rfl
    · rfl

/-- A URL that cannot be requested is not sent. -/
theorem run_request_of_refused (d : Reading) (w : World) {url : String} {p : RequestUrl.Problem}
    (hp : RequestUrl.parse url = .error p) : (request d url).run w =
      (.error (transportFault url p.toForeign), { w with log := w.log ++ [fetching url] }) := by
  rw [request, Action.run_modify_bind, hp]
  rfl

/-- A request writes one line to the log and exchanges with the network. What comes of it depends on
the replies, the time and the reading of bodies only. -/
theorem exists_get (d : Reading) (replyTo : String → Reply) (url : String) :
    ∃ urls r, Get replyTo url urls r ∧ ∀ w, w.replyTo = replyTo →
      (request d url).run w = (yielded d url w.now r,
        { w with log := w.log ++ [fetching url], requests := w.requests ++ urls }) := by
  cases hp : RequestUrl.parse url with
  | error p =>
    refine ⟨_, _, .refused hp, fun w _ => ?_⟩
    rw [run_request_of_refused d w hp, List.append_nil]
    rfl
  | ok target =>
    obtain ⟨urls, r, hx, -, hrun⟩ := Exchange.exists_follow replyTo redirectionLimit target.rooted
    exact ⟨urls, r, .sent hp hx, fun w hw =>
      run_request_of_follow d hp (hrun (w.tell .debug ("Fetching " ++ url)) hw)⟩

/-! ## Requests that leave one URL alone -/

section

variable {w w' : World} {asked : String}

/-- Where both worlds have the same reply, the exchange is over in both, or goes on in both. -/
theorem follow_turn {url : RequestUrl} (h : w'.replyTo url.toText = w.replyTo url.toText)
    (hops : Nat) :
    (∃ r, (follow hops url).run w' = (r, { w' with requests := w'.requests ++ [url.toText] }) ∧
      (follow hops url).run w = (r, { w with requests := w.requests ++ [url.toText] })) ∨
    ∃ n next, hops = n + 1 ∧
      (follow hops url).run w' =
        (follow n next).run { w' with requests := w'.requests ++ [url.toText] } ∧
      (follow hops url).run w =
        (follow n next).run { w with requests := w.requests ++ [url.toText] } := by
  rw [run_follow, run_follow, h]
  cases w.replyTo url.toText with
  | breakdown e => exact .inl ⟨_, rfl, rfl⟩
  | response status given body =>
    dsimp only
    cases nextUrl? url status (responseHeaders given body) with
    | error e => exact .inl ⟨_, rfl, rfl⟩
    | ok next =>
      cases next with
      | none => exact .inl ⟨_, rfl, rfl⟩
      | some next =>
        cases hops with
        | zero => exact .inl ⟨_, rfl, rfl⟩
        | succ n => exact .inr ⟨n, next, rfl, rfl, rfl⟩

theorem Exchange.head_mem {replyTo : String → Reply} {url : RequestUrl} {urls : List String}
    {r : Except Foreign Landing} (h : Exchange replyTo url urls r) : url.toText ∈ urls := by
  cases h <;> exact List.mem_cons_self

variable (hreplies : ∀ u, u ≠ asked → w'.replyTo u = w.replyTo u)

include hreplies

theorem follow_congr (hops : Nat) (url : RequestUrl) : ∃ urls r,
    (follow hops url).run w' = (r, { w' with requests := w'.requests ++ urls }) ∧
      (asked ∉ urls →
        (follow hops url).run w = (r, { w with requests := w.requests ++ urls })) := by
  induction hops using Nat.strongRecOn generalizing url w w' with
  | ind hops ih =>
    by_cases hurl : url.toText = asked
    · obtain ⟨urls, r, hx, -, hrun⟩ := Exchange.exists_follow w'.replyTo hops url
      exact ⟨urls, r, hrun w' rfl, fun hn => absurd (hurl ▸ hx.head_mem) hn⟩
    · rcases follow_turn (hreplies _ hurl) hops with ⟨r, hrun', hrun⟩ | ⟨n, next, rfl, hrun', hrun⟩
      · exact ⟨[url.toText], r, hrun', fun _ => hrun⟩
      · set w₁ := { w with requests := w.requests ++ [url.toText] }
        set w₁' := { w' with requests := w'.requests ++ [url.toText] }
        have hreplies₁ : ∀ u, u ≠ asked → w₁'.replyTo u = w₁.replyTo u := hreplies
        obtain ⟨urls, r, hrest', hrest⟩ := ih n (Nat.lt_succ_self n) hreplies₁ next
        refine ⟨url.toText :: urls, r, ?_, fun hn => ?_⟩
        · rw [hrun', hrest', List.append_assoc, List.singleton_append]
        · rw [hrun, hrest fun hmem => hn (List.mem_cons_of_mem _ hmem), List.append_assoc,
            List.singleton_append]

/-- A request that leaves the URL alone has the same answer in both worlds. -/
theorem request_congr (hnow : w'.now = w.now) (d : Reading) (url : String) : ∃ urls y,
    (request d url).run w' =
        (y, { w' with log := w'.log ++ [fetching url], requests := w'.requests ++ urls }) ∧
      (asked ∉ urls → (request d url).run w =
        (y, { w with log := w.log ++ [fetching url], requests := w.requests ++ urls })) := by
  cases hp : RequestUrl.parse url with
  | error p =>
    refine ⟨[], .error (transportFault url p.toForeign), ?_, fun _ => ?_⟩
    · rw [run_request_of_refused d w' hp, List.append_nil]
    · rw [run_request_of_refused d w hp, List.append_nil]
  | ok target =>
    set w₁ := w.tell .debug ("Fetching " ++ url)
    set w₁' := w'.tell .debug ("Fetching " ++ url)
    have hreplies₁ : ∀ u, u ≠ asked → w₁'.replyTo u = w₁.replyTo u := hreplies
    obtain ⟨urls, r, hrun', hrun⟩ := follow_congr hreplies₁ redirectionLimit target.rooted
    refine ⟨urls, yielded d url w.now r, ?_, fun hn => run_request_of_follow d hp (hrun hn)⟩
    rw [← hnow]
    exact run_request_of_follow d hp hrun'

end

/-! ## Names of headers -/

/-- The names are in lower case. -/
def LowerNames (headers : List (String × String)) : Prop :=
  ∀ h ∈ headers, ∃ name : String, h.1 = .ofList (name.toList.map Char.toLower)

theorem lowerNames_mergeHeaders (headers : List (String × String)) :
    LowerNames (mergeHeaders headers) := by
  have hfold : ∀ merged, LowerNames merged → LowerNames (headers.foldl
      (fun merged h =>
        let name := String.ofList (h.1.toList.map Char.toLower)
        if merged.any (·.1 = name) then
          merged.map fun m => if m.1 = name then (name, m.2 ++ ", " ++ h.2) else m
        else merged ++ [(name, h.2)]) merged) := by
    induction headers with
    | nil => exact fun merged h => h
    | cons x headers ih =>
      intro merged hmerged
      refine ih _ ?_
      intro h hmem
      dsimp only at hmem
      split at hmem
      · obtain ⟨m, hm, rfl⟩ := List.mem_map.1 hmem
        split
        · exact ⟨x.1, rfl⟩
        · exact hmerged m hm
      · rcases List.mem_append.1 hmem with hmem | hmem
        · exact hmerged h hmem
        · rw [List.mem_singleton.1 hmem]
          exact ⟨x.1, rfl⟩
  exact hfold [] fun h hmem => absurd hmem List.not_mem_nil

theorem lowerNames_responseHeaders (headers : List (String × String)) (body : List UInt8) :
    LowerNames (responseHeaders headers body) := by
  intro h hmem
  rw [responseHeaders] at hmem
  split at hmem
  · exact lowerNames_mergeHeaders headers h hmem
  · rcases List.mem_append.1 hmem with hmem | hmem
    · exact lowerNames_mergeHeaders headers h hmem
    · rw [List.mem_singleton.1 hmem]
      exact ⟨"content-length", show "content-length" = _ by decide⟩

theorem Exchange.lowerNames {replyTo : String → Reply} {url : RequestUrl} {urls : List String}
    {r : Except Foreign Landing} (h : Exchange replyTo url urls r) :
    ∀ l, r = .ok l → LowerNames l.headers := by
  induction h with
  | landed h hnext =>
    rintro l ⟨⟩
    exact lowerNames_responseHeaders _ _
  | moved h hnext hrest ih => exact ih
  | broken h => rintro l ⟨⟩
  | astray h hnext => rintro l ⟨⟩
  | weary h hnext => rintro l ⟨⟩

theorem Get.lowerNames {replyTo : String → Reply} {url : String} {urls : List String} {l : Landing}
    (h : Get replyTo url urls (.ok l)) : LowerNames l.headers := by
  cases h with
  | sent h hx => exact hx.lowerNames l rfl

end ModuleGraph.Fetch
