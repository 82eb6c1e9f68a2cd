import ModuleGraph.Loading.Step
import ModuleGraph.Proofs.Text.Affix
/-!
# What messages say about errors

A message on an error holds the text of the error, and something even if this text is empty. Errors
are put around each other: a module could not be loaded because a source could not be read because a
connection broke down. Each of them takes up a message on the one below it, so that the text of the
outermost one still holds the text of the innermost one, and the URL or the name of each error in
between.

An error may be of any kind: what is said of errors without a text depends on the kinds above its
own, and nothing is assumed about these.

Results:
* `Mention.describe_cases`: what a message on an error is;
* `Wrapper.mention_wrap`: the text of a fault around another one;
* `Wrapper.text_isPartOf_around`, `Wrapper.named_isPartOf_around`: what one error around another one
  keeps, and what it adds;
* `Mention.tells_cause`: **main theorem**: what the outermost of errors around each other says,
  however many they are;
* `text_isPartOf_nowhereFault`: a module that no URL has is told with the error of each URL.
-/

namespace ModuleGraph

open Text

namespace Mention

/-! ## One message -/

/-- A message on an error is its text, or something that is said behind the name of its kind: its
text again, or a text of its own where the error has none. -/
theorem describe_cases (withKind : Bool) (m : Mention) :
    (m.text ≠ "" ∧ m.describe withKind = m.text ∧ (withKind = true → IsPartOf m.kind m.text)) ∨
      ∃ said, m.describe withKind = m.kind ++ ": " ++ said ∧ IsPartOf m.text said := by
  unfold describe
  split
  · next htext =>
    split
    · exact .inr ⟨m.text, rfl, .refl _⟩
    · next hnamed =>
      refine .inl ⟨htext, rfl, fun hkind => contains_iff.1 ?_⟩
      simpa [hkind] using hnamed
  · next htext =>
    rw [ne_eq, Decidable.not_not] at htext
    rw [htext]
    split
    · next said _ => exact .inr ⟨said, rfl, isPartOf_of_empty said⟩
    · refine .inr ⟨"(no additional details)", ?_, isPartOf_of_empty _⟩
      rw [String.append_assoc]
      exact congrArg (m.kind ++ ·) (by decide)

theorem describe_ne_empty (withKind : Bool) (m : Mention) : m.describe withKind ≠ "" := by
  rcases describe_cases withKind m with ⟨htext, hdescribe, -⟩ | ⟨said, hdescribe, -⟩
  · rwa [hdescribe]
  · rw [hdescribe, ← String.toList_inj.ne]
    simp

theorem text_isPartOf_describe (withKind : Bool) (m : Mention) :
    IsPartOf m.text (m.describe withKind) := by
  rcases describe_cases withKind m with ⟨-, hdescribe, -⟩ | ⟨said, hdescribe, hpart⟩
  · rw [hdescribe]
  · rw [hdescribe]
    exact hpart.append_left _

theorem kind_isPartOf_describe (m : Mention) : IsPartOf m.kind (m.describe true) := by
  rcases describe_cases true m with ⟨-, hdescribe, hnamed⟩ | ⟨said, hdescribe, -⟩
  · rw [hdescribe]
    exact hnamed rfl
  · rw [hdescribe]
    exact ((IsPartOf.refl m.kind).append_right _).append_right _

end Mention

/-! ## Errors around errors -/

/-- An error around another one. -/
inductive Wrapper where
  /-- A module that could not be fetched or transformed. -/
  | module (url : String)
  /-- A source that could not be read. -/
  | fetch (url : String) (withKind : Bool)
  /-- A library that could not be loaded. -/
  | library (name : String) (withKind : Bool)
  /-- A module that none of several URLs has, with what is said of the URLs before and after. -/
  | search (url : String) (before after : List String)

namespace Wrapper

/-- The fault around another one. -/
def wrap : Wrapper → Fault → Fault
  | module url, e => .module url e
  | fetch url withKind, e => .fetch url (e.describe withKind)
  | library name withKind, e => .library name (e.describe withKind)
  | search url before after, e =>
    .fetch url (Loading.faultSeparator.intercalate (before ++ e.describe false :: after))

/-- The kind of the outer error. -/
def kind : Wrapper → String
  | module _ => "ModuleLoadFailure"
  | fetch .. | search .. => "FetchFailure"
  | library .. => "LibraryLoadFailure"

/-- What the outer error names: a URL, or a library between quotes. -/
def named : Wrapper → String
  | module url | fetch url _ | search url _ _ => url
  | library name _ => quoted name

/-- What the outer error says in front of its reason. -/
def heading : Wrapper → String
  | module url => "Loading file " ++ url ++ " failed: "
  | fetch url _ | search url _ _ => "Failed to fetch " ++ url ++ ": "
  | library name _ => "Loading lib file " ++ quoted name ++ " failed: "

/-- The reason that the outer error gives. -/
def reason (w : Wrapper) (m : Mention) : String :=
  match w with
  | module _ => m.describe true
  | fetch _ withKind | library _ withKind => m.describe withKind
  | search _ before after =>
    Loading.faultSeparator.intercalate (before ++ m.describe false :: after)

/-- An error of any kind with the outer error around it. -/
def around (w : Wrapper) (m : Mention) : Mention := .ofKind w.kind (w.heading ++ w.reason m)

/-- The text of a fault around another one is a heading with a reason. -/
theorem mention_wrap (w : Wrapper) (e : Fault) : (w.wrap e).mention = w.around e.mention := by
  cases w <;> rfl

theorem mention_foldr_wrap (ws : List Wrapper) (cause : Fault) :
    (ws.foldr wrap cause).mention = ws.foldr around cause.mention := by
  induction ws with
  | nil => rfl
  | cons w ws ih => rw [List.foldr_cons, mention_wrap, ih, List.foldr_cons]

theorem named_isPartOf_heading (w : Wrapper) : IsPartOf w.named w.heading := by
  cases w <;> exact ((IsPartOf.refl _).append_left _).append_right _

/-- The reason holds a message on the inner error. -/
theorem exists_describe_isPartOf_reason (w : Wrapper) (m : Mention) :
    ∃ withKind, IsPartOf (m.describe withKind) (w.reason m) := by
  cases w with
  | module url => exact ⟨true, .refl _⟩
  | fetch url withKind => exact ⟨withKind, .refl _⟩
  | library name withKind => exact ⟨withKind, .refl _⟩
  | search url before after => exact ⟨false, isPartOf_join (by simp)⟩

theorem reason_ne_empty (w : Wrapper) (m : Mention) : w.reason m ≠ "" := by
  obtain ⟨withKind, hpart⟩ := w.exists_describe_isPartOf_reason m
  exact hpart.ne_empty (m.describe_ne_empty withKind)

/-- An error around another one keeps the text of the latter, whatever its kind is. -/
theorem text_isPartOf_around (w : Wrapper) (m : Mention) : IsPartOf m.text (w.around m).text := by
  obtain ⟨withKind, hpart⟩ := w.exists_describe_isPartOf_reason m
  exact ((m.text_isPartOf_describe withKind).trans hpart).append_left _

theorem named_isPartOf_around (w : Wrapper) (m : Mention) : IsPartOf w.named (w.around m).text :=
  w.named_isPartOf_heading.append_right _

end Wrapper

namespace Mention

/-- What the text of the outermost error says where errors are put around a first one, the outermost
error first. -/
structure TellsCause (ws : List Wrapper) (first outer : Mention) : Prop where
  /-- It holds the text of the innermost error. -/
  cause : IsPartOf first.text outer.text
  /-- It holds the URL or the quoted name of every error in between. -/
  named : ∀ w ∈ ws, IsPartOf w.named outer.text
  /-- It ends in a reason, which is what is said of the error right below it. -/
  reason : ∀ w inner, ws = w :: inner →
    outer.text = w.heading ++ w.reason (inner.foldr Wrapper.around first) ∧
      w.reason (inner.foldr Wrapper.around first) ≠ ""

/-- Each error keeps what the one below it holds, and adds its own URL or name. -/
theorem tellsCause_foldr (ws : List Wrapper) (cause : Mention) :
    TellsCause ws cause (ws.foldr Wrapper.around cause) := by
  induction ws with
  | nil => exact ⟨.refl _, fun w hw => absurd hw List.not_mem_nil, fun w inner h => by cases h⟩
  | cons w ws ih =>
    have hkept := w.text_isPartOf_around (ws.foldr Wrapper.around cause)
    rw [List.foldr_cons]
    refine ⟨ih.cause.trans hkept, fun w' hw' => ?_, fun w' inner h => ?_⟩
    · rcases List.mem_cons.1 hw' with rfl | hw'
      · exact w'.named_isPartOf_around _
      · exact (ih.named w' hw').trans hkept
    · cases h
      exact ⟨rfl, w.reason_ne_empty _⟩

/-- Faults around each other. -/
theorem tellsCause_wrap (ws : List Wrapper) (cause : Fault) :
    TellsCause ws cause.mention (ws.foldr Wrapper.wrap cause).mention := by
  rw [Wrapper.mention_foldr_wrap]
  exact tellsCause_foldr ws cause.mention

/-- **Messages never lose the cause.** A message on an error of any kind is not empty and holds the
text of the error, and the name of its kind where this is asked for. However many errors are put
around an error of any kind, the text of the outermost one holds the text of the innermost one and
all URLs and names in between, and ends in a reason that is not empty. So do faults around a
fault. -/
theorem tells_cause :
    (∀ m : Mention, (∀ withKind, m.describe withKind ≠ "" ∧
      IsPartOf m.text (m.describe withKind)) ∧ IsPartOf m.kind (m.describe true)) ∧
    (∀ (ws : List Wrapper) (cause : Mention),
      TellsCause ws cause (ws.foldr Wrapper.around cause)) ∧
    ∀ (ws : List Wrapper) (cause : Fault),
      TellsCause ws cause.mention (ws.foldr Wrapper.wrap cause).mention :=
  ⟨fun m => ⟨fun withKind => ⟨m.describe_ne_empty withKind, m.text_isPartOf_describe withKind⟩,
    m.kind_isPartOf_describe⟩, tellsCause_foldr, tellsCause_wrap⟩

example : ([Wrapper.module "https://cdn.test/a.ts", .fetch "https://cdn.test/a.ts" true].foldr
    Wrapper.wrap (.foreign ⟨"ReadTimeout", ""⟩)).text =
      "Loading file https://cdn.test/a.ts failed: FetchFailure: Failed to fetch " ++
        "https://cdn.test/a.ts: ReadTimeout: Request timed out." := by
  decide

end Mention

/-- The fault of a module that none of its URLs has holds the text of the error of each URL. -/
theorem text_isPartOf_nowhereFault (k : Loading.Claim) {tried : List (String × Fault)}
    {url : String} {e : Fault} (h : (url, e) ∈ tried) :
    IsPartOf e.text (Loading.nowhereFault k (tried.map fun u => u.2.describe false)).text := by
  obtain ⟨before, after, rfl⟩ := List.append_of_mem h
  have htells := Mention.tellsCause_wrap [.module k.url, .search k.url
    (before.map fun u => u.2.describe false) (after.map fun u => u.2.describe false)] e
  rw [List.map_append, List.map_cons]
  exact htells.cause

end ModuleGraph
