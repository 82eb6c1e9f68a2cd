import Mathlib.Data.List.Basic
import ModuleGraph.Braces
import ModuleGraph.Proofs.FilePath
/-!
# What patterns with alternatives stand for

A pattern has a meaning by its structure: a group stands for what one of its alternatives stands for,
whatever the other groups stand for. Expansion knows nothing of this structure. It cuts the text at
the first group without braces in it, and goes on with the texts that have an alternative in the
group's place.

The two agree because a step on the text is a step on the structure: the first group of the text is
the first group of the structure whose alternatives have no groups, and the new texts are those of the
patterns with this group replaced. A pattern stands for what these patterns stand for.

Results:
* `group?_eq_none_iff`: which texts have no group;
* `Pattern.firstGroup_text`: the first group of the text of a pattern;
* `Pattern.denotes_iff_of_step`: a step keeps the meaning of a pattern;
* `length_le_of_isChain`: how often an expansion can go on;
* `expands_alternatives`: **main theorem**: a pattern is expanded to what it stands for, and no text
  is expanded to one with a group.
-/

namespace ModuleGraph.Braces

/-! ## Patterns and their meaning -/

/-- The character stands for itself: it is no brace, and inside a group no comma. -/
def IsPlain (inside : Bool) (c : Char) : Prop :=
  c ≠ '\x7b' ∧ c ≠ '\x7d' ∧ (inside = true → c ≠ ',')

mutual

/-- Plain characters and groups one after the other, inside a group or not. -/
inductive Pattern : (inside : Bool) → Type
  | nil {inside : Bool} : Pattern inside
  | char {inside : Bool} (c : Char) (plain : IsPlain inside c) (rest : Pattern inside) :
      Pattern inside
  | group {inside : Bool} (g : Group) (rest : Pattern inside) : Pattern inside

/-- The alternatives of a group, of which there is at least one. -/
inductive Group : Type
  | last (p : Pattern true)
  | more (p : Pattern true) (g : Group)

end

mutual

/-- The text of a pattern. -/
def Pattern.text : {inside : Bool} → Pattern inside → List Char
  | _, .nil => []
  | _, .char c _ r => c :: r.text
  | _, .group g r => '\x7b' :: g.text ++ '\x7d' :: r.text

/-- The text between the braces of a group. -/
def Group.text : Group → List Char
  | .last p => p.text
  | .more p g => p.text ++ ',' :: g.text

end

mutual

/-- The word is one that the pattern stands for. -/
def Pattern.Denotes : {inside : Bool} → Pattern inside → List Char → Prop
  | _, .nil, w => w = []
  | _, .char c _ r, w => ∃ v, w = c :: v ∧ r.Denotes v
  | _, .group g r, w => ∃ u v, w = u ++ v ∧ g.Denotes u ∧ r.Denotes v

/-- The word is one that an alternative of the group stands for. -/
def Group.Denotes : Group → List Char → Prop
  | .last p, w => p.Denotes w
  | .more p g, w => p.Denotes w ∨ g.Denotes w

end

/-! ## A step on the structure -/

theorem IsPlain.weaken {c : Char} (h : IsPlain true c) (inside : Bool) : IsPlain inside c :=
  ⟨h.1, h.2.1, fun _ => h.2.2 rfl⟩

/-- An alternative with a pattern behind it. -/
def Pattern.append {inside : Bool} : Pattern true → Pattern inside → Pattern inside
  | .nil, r => r
  | .char c h p, r => .char c (h.weaken inside) (p.append r)
  | .group g p, r => .group g (p.append r)

/-- The alternatives of a group. -/
def Group.alternatives : Group → List (Pattern true)
  | .last p => [p]
  | .more p g => p :: g.alternatives

mutual

/-- The patterns that have one of its alternatives in the place of the first group without groups in
it; nothing if there is no group. -/
def Pattern.step? : {inside : Bool} → Pattern inside → Option (List (Pattern inside))
  | _, .nil => none
  | _, .char c h r => r.step?.map fun rs => rs.map (.char c h)
  | _, .group g r =>
    match g.step? with
    | some gs => some (gs.map fun g' => .group g' r)
    | none => some (g.alternatives.map fun p => p.append r)

/-- The groups in which this was done in the first alternative that has a group. -/
def Group.step? : Group → Option (List Group)
  | .last p => p.step?.map fun ps => ps.map .last
  | .more p g =>
    match p.step? with
    | some ps => some (ps.map fun p' => .more p' g)
    | none => g.step?.map fun gs => gs.map (.more p)

end

variable {inside : Bool}

theorem Pattern.text_append (p : Pattern true) (r : Pattern inside) :
    (p.append r).text = p.text ++ r.text := by
  match p with
  | .nil => rw [append, text, List.nil_append]
  | .char c h p => rw [append, text, text, p.text_append r, List.cons_append]
  | .group g p => simp only [append, text, p.text_append r, List.append_assoc, List.cons_append]

theorem Pattern.denotes_append_iff (p : Pattern true) (r : Pattern inside) (w : List Char) :
    (p.append r).Denotes w ↔ ∃ u v, w = u ++ v ∧ p.Denotes u ∧ r.Denotes v := by
  match p with
  | .nil => simp [append, Denotes]
  | .char c h p =>
    simp only [append, Denotes, p.denotes_append_iff r]
    constructor
    · rintro ⟨_, rfl, u, v, rfl, hu, hv⟩
      exact ⟨c :: u, v, rfl, ⟨u, rfl, hu⟩, hv⟩
    · rintro ⟨_, v, rfl, ⟨u, rfl, hu⟩, hv⟩
      exact ⟨u ++ v, rfl, u, v, rfl, hu, hv⟩
  | .group g p =>
    simp only [append, Denotes, p.denotes_append_iff r]
    constructor
    · rintro ⟨u, _, rfl, hu, v, x, rfl, hv, hx⟩
      exact ⟨u ++ v, x, (List.append_assoc u v x).symm, ⟨u, v, rfl, hu, hv⟩, hx⟩
    · rintro ⟨_, x, rfl, ⟨u, v, rfl, hu, hv⟩, hx⟩
      exact ⟨u, v ++ x, List.append_assoc u v x, hu, v, x, rfl, hv, hx⟩

theorem Group.alternatives_ne_nil (g : Group) : g.alternatives ≠ [] := by
  cases g <;> simp [alternatives]

/-- A group stands for what its alternatives stand for. -/
theorem Group.denotes_iff (g : Group) (w : List Char) :
    g.Denotes w ↔ ∃ p ∈ g.alternatives, p.Denotes w := by
  match g with
  | .last p => simp [Denotes, alternatives]
  | .more p g => simp [Denotes, alternatives, g.denotes_iff w]

mutual

theorem Pattern.step?_ne_nil : {inside : Bool} → (p : Pattern inside) →
    {ps : List (Pattern inside)} → p.step? = some ps → ps ≠ []
  | _, .nil, _, h => by cases h
  | _, .char c hc r, _, h => by
    obtain ⟨rs, hrs, rfl⟩ := Option.map_eq_some_iff.1 h
    exact mt List.map_eq_nil_iff.1 (r.step?_ne_nil hrs)
  | _, .group g r, ps, h => by
    rw [Pattern.step?] at h
    split at h
    · next gs hgs =>
      cases h
      exact mt List.map_eq_nil_iff.1 (g.step?_ne_nil hgs)
    · cases h
      exact mt List.map_eq_nil_iff.1 g.alternatives_ne_nil

theorem Group.step?_ne_nil : (g : Group) → {gs : List Group} → g.step? = some gs → gs ≠ []
  | .last p, _, h => by
    obtain ⟨ps, hps, rfl⟩ := Option.map_eq_some_iff.1 h
    exact mt List.map_eq_nil_iff.1 (p.step?_ne_nil hps)
  | .more p g, gs, h => by
    rw [Group.step?] at h
    split at h
    · next ps hps =>
      cases h
      exact mt List.map_eq_nil_iff.1 (p.step?_ne_nil hps)
    · obtain ⟨gs, hgs, rfl⟩ := Option.map_eq_some_iff.1 h
      exact mt List.map_eq_nil_iff.1 (g.step?_ne_nil hgs)

end

/-- What holds apart from a choice may be said before or after it. -/
theorem exists_mem_or_iff {α : Type} {l : List α} (hl : l ≠ []) (P : α → Prop) (q : Prop) :
    (∃ a ∈ l, P a ∨ q) ↔ (∃ a ∈ l, P a) ∨ q := by
  obtain ⟨a, r, rfl⟩ := List.exists_cons_of_ne_nil hl
  constructor
  · rintro ⟨b, hb, h | h⟩
    · exact .inl ⟨b, hb, h⟩
    · exact .inr h
  · rintro (⟨b, hb, h⟩ | h)
    · exact ⟨b, hb, .inl h⟩
    · exact ⟨a, List.mem_cons_self, .inr h⟩

mutual

/-- A step keeps the meaning of a pattern. -/
theorem Pattern.denotes_iff_of_step : {inside : Bool} → (p : Pattern inside) →
    {ps : List (Pattern inside)} → p.step? = some ps → (w : List Char) →
    (p.Denotes w ↔ ∃ q ∈ ps, q.Denotes w)
  | _, .nil, _, h, _ => by cases h
  | _, .char c hc r, _, h, w => by
    obtain ⟨rs, hrs, rfl⟩ := Option.map_eq_some_iff.1 h
    simp only [Pattern.Denotes, r.denotes_iff_of_step hrs, List.mem_map, exists_exists_and_eq_and]
    constructor
    · rintro ⟨v, rfl, q, hq, hv⟩
      exact ⟨q, hq, v, rfl, hv⟩
    · rintro ⟨q, hq, v, rfl, hv⟩
      exact ⟨v, rfl, q, hq, hv⟩
  | _, .group g r, ps, h, w => by
    rw [Pattern.step?] at h
    split at h
    · next gs hgs =>
      cases h
      simp only [Pattern.Denotes, g.denotes_iff_of_step hgs, List.mem_map,
        exists_exists_and_eq_and]
      constructor
      · rintro ⟨u, v, rfl, ⟨g', hg', hu⟩, hv⟩
        exact ⟨g', hg', u, v, rfl, hu, hv⟩
      · rintro ⟨g', hg', u, v, rfl, hu, hv⟩
        exact ⟨u, v, rfl, ⟨g', hg', hu⟩, hv⟩
    · cases h
      simp only [Pattern.Denotes, g.denotes_iff, List.mem_map, exists_exists_and_eq_and,
        Pattern.denotes_append_iff]
      constructor
      · rintro ⟨u, v, rfl, ⟨p, hp, hu⟩, hv⟩
        exact ⟨p, hp, u, v, rfl, hu, hv⟩
      · rintro ⟨p, hp, u, v, rfl, hu, hv⟩
        exact ⟨u, v, rfl, ⟨p, hp, hu⟩, hv⟩

theorem Group.denotes_iff_of_step : (g : Group) → {gs : List Group} → g.step? = some gs →
    (w : List Char) → (g.Denotes w ↔ ∃ g' ∈ gs, g'.Denotes w)
  | .last p, _, h, w => by
    obtain ⟨ps, hps, rfl⟩ := Option.map_eq_some_iff.1 h
    simp only [Group.Denotes, p.denotes_iff_of_step hps, List.mem_map, exists_exists_and_eq_and]
  | .more p g, gs, h, w => by
    rw [Group.step?] at h
    split at h
    · next ps hps =>
      cases h
      simp only [Group.Denotes, p.denotes_iff_of_step hps, List.mem_map, exists_exists_and_eq_and,
        exists_mem_or_iff (p.step?_ne_nil hps)]
    · obtain ⟨gs, hgs, rfl⟩ := Option.map_eq_some_iff.1 h
      simp only [Group.Denotes, g.denotes_iff_of_step hgs, List.mem_map, exists_exists_and_eq_and,
        or_comm (a := p.Denotes w), exists_mem_or_iff (g.step?_ne_nil hgs)]

end

/-! ## A step on the text -/

/-- What has been read of a text: what stands before the group that was begun, and the group. -/
def passed (before : List Char) (begun : Option (List Char)) : List Char :=
  before.reverse ++ (begun.map fun w => '\x7b' :: w.reverse).getD []

/-- The group is the first one of the text, with `h` before it and `t` behind it. Nothing that was
read before can be a group with a part of `h`, nor is anything looked at behind the group. -/
def FirstGroup (cs h i t : List Char) : Prop :=
  ∀ before begun rest, groupFrom before begun (cs ++ rest) =
    some (passed before begun ++ h, i, t ++ rest)

/-- The text holds a group without braces inside it. -/
def HasGroup (cs : List Char) : Prop :=
  ∃ h i t, cs = h ++ '\x7b' :: i ++ '\x7d' :: t ∧ '\x7b' ∉ i ∧ '\x7d' ∉ i

theorem groupFrom_plain (before : List Char) (begun : Option (List Char)) {c : Char}
    (hopen : c ≠ '\x7b') (hclose : c ≠ '\x7d') : ∃ before' begun',
      (∀ cs, groupFrom before begun (c :: cs) = groupFrom before' begun' cs) ∧
      passed before' begun' = passed before begun ++ [c] := by
  cases begun with
  | none => exact ⟨c :: before, none, fun cs => by simp [groupFrom, hopen], by simp [passed]⟩
  | some w =>
    exact ⟨before, some (c :: w), fun cs => by simp [groupFrom, hopen, hclose], by simp [passed]⟩

theorem groupFrom_open (before : List Char) (begun : Option (List Char)) : ∃ before',
    (∀ cs, groupFrom before begun ('\x7b' :: cs) = groupFrom before' (some []) cs) ∧
      before'.reverse = passed before begun := by
  cases begun with
  | none => exact ⟨before, fun cs => by simp [groupFrom], by simp [passed]⟩
  | some w => exact ⟨w ++ '\x7b' :: before, fun cs => by simp [groupFrom], by simp [passed]⟩

theorem groupFrom_close (before w rest : List Char) {cs : List Char} (hopen : '\x7b' ∉ cs)
    (hclose : '\x7d' ∉ cs) : groupFrom before (some w) (cs ++ '\x7d' :: rest) =
      some (before.reverse, w.reverse ++ cs, rest) := by
  induction cs generalizing w with
  | nil => simp [groupFrom]
  | cons c cs ih =>
    rw [List.mem_cons, not_or] at hopen hclose
    simp [groupFrom, Ne.symm hopen.1, Ne.symm hclose.1, ih (c :: w) hopen.2 hclose.2]

theorem FirstGroup.cons {c : Char} {cs h i t : List Char} (hf : FirstGroup cs h i t)
    (hopen : c ≠ '\x7b') (hclose : c ≠ '\x7d') : FirstGroup (c :: cs) (c :: h) i t := by
  intro before begun rest
  obtain ⟨before', begun', hread, hpassed⟩ := groupFrom_plain before begun hopen hclose
  rw [List.cons_append, hread, hf, hpassed, List.append_assoc, List.singleton_append]

theorem FirstGroup.prepend {a cs h i t : List Char} (hf : FirstGroup cs h i t)
    (ha : '\x7b' ∉ a ∧ '\x7d' ∉ a) : FirstGroup (a ++ cs) (a ++ h) i t := by
  induction a with
  | nil => exact hf
  | cons c a ih =>
    simp only [List.mem_cons, not_or] at ha
    exact (ih ⟨ha.1.2, ha.2.2⟩).cons (Ne.symm ha.1.1) (Ne.symm ha.2.1)

theorem FirstGroup.append {cs h i t : List Char} (hf : FirstGroup cs h i t) (r : List Char) :
    FirstGroup (cs ++ r) h i (t ++ r) := by
  intro before begun rest
  rw [List.append_assoc, hf, List.append_assoc]

theorem FirstGroup.behindBrace {cs h i t : List Char} (hf : FirstGroup cs h i t) :
    FirstGroup ('\x7b' :: cs) ('\x7b' :: h) i t := by
  intro before begun rest
  obtain ⟨before', hread, hpassed⟩ := groupFrom_open before begun
  rw [List.cons_append, hread, hf, ← hpassed]
  simp [passed]

theorem firstGroup_self {i : List Char} (hi : '\x7b' ∉ i ∧ '\x7d' ∉ i) (t : List Char) :
    FirstGroup ('\x7b' :: i ++ '\x7d' :: t) [] i t := by
  intro before begun rest
  obtain ⟨before', hread, hpassed⟩ := groupFrom_open before begun
  rw [List.append_assoc, List.cons_append, List.cons_append, hread,
    groupFrom_close before' [] _ hi.1 hi.2, hpassed, List.append_nil]
  rfl

theorem FirstGroup.group?_eq {cs h i t : List Char} (hf : FirstGroup cs h i t) :
    group? cs = some (h, i, t) := by
  have := hf [] none []
  simpa [passed, group?] using this

/-- A group is found wherever one stands, though it may be another one. -/
theorem isSome_groupFrom {i : List Char} (hi : '\x7b' ∉ i ∧ '\x7d' ∉ i) (h t before : List Char)
    (begun : Option (List Char)) :
    (groupFrom before begun (h ++ ('\x7b' :: i ++ '\x7d' :: t))).isSome = true := by
  induction h generalizing before begun with
  | nil =>
    have := firstGroup_self hi t before begun []
    rw [List.append_nil] at this
    rw [List.nil_append, this]
    rfl
  | cons c h ih =>
    rw [List.cons_append]
    cases begun with
    | none =>
      rw [groupFrom]
      split <;> exact ih _ _
    | some w =>
      rw [groupFrom]
      split
      · exact ih _ _
      · split
        · rfl
        · exact ih _ _

/-- The search for a group is one for two braces without braces between them. -/
theorem group?_eq_none_iff {cs : List Char} : group? cs = none ↔ ¬ HasGroup cs := by
  constructor
  · rintro hnone ⟨h, i, t, rfl, hi⟩
    have := isSome_groupFrom hi h t [] none
    rw [← List.append_assoc, ← group?, hnone] at this
    cases this
  · intro hno
    rw [Option.eq_none_iff_forall_ne_some]
    rintro ⟨h, i, t⟩ hsome
    exact hno ⟨h, i, t, groupFrom_eq_some hsome, groupFrom_inside (by simp) hsome⟩

/-! ## The text of a pattern -/

/-- A pattern without groups is a text of plain characters. -/
theorem Pattern.isPlain_of_mem : {inside : Bool} → (p : Pattern inside) → p.step? = none →
    ∀ c ∈ p.text, IsPlain inside c
  | _, .nil, _ => by simp [text]
  | _, .char c hc r, h => by
    rw [step?, Option.map_eq_none_iff] at h
    rw [text, List.forall_mem_cons]
    exact ⟨hc, r.isPlain_of_mem h⟩
  | _, .group g r, h => by
    rw [step?] at h
    split at h <;> cases h

/-- It stands for itself. -/
theorem Pattern.denotes_iff_of_plain : {inside : Bool} → (p : Pattern inside) → p.step? = none →
    (w : List Char) → (p.Denotes w ↔ w = p.text)
  | _, .nil, _, w => by rw [Denotes, text]
  | _, .char c hc r, h, w => by
    rw [step?, Option.map_eq_none_iff] at h
    simp only [Denotes, text, r.denotes_iff_of_plain h, exists_eq_right]
  | _, .group g r, h, _ => by
    rw [step?] at h
    split at h <;> cases h

theorem Pattern.noBraces (p : Pattern inside) (h : p.step? = none) :
    '\x7b' ∉ p.text ∧ '\x7d' ∉ p.text :=
  ⟨fun hc => (p.isPlain_of_mem h _ hc).1 rfl, fun hc => (p.isPlain_of_mem h _ hc).2.1 rfl⟩

/-- A group without groups in it has no braces inside, and its commas are those between its
alternatives. -/
theorem Group.pieces_text : (g : Group) → g.step? = none →
    ('\x7b' ∉ g.text ∧ '\x7d' ∉ g.text) ∧
      Text.piecesAt ',' g.text = g.alternatives.map Pattern.text
  | .last p, h => by
    rw [step?, Option.map_eq_none_iff] at h
    rw [text, alternatives]
    have hcomma : ',' ∉ p.text := fun hc => (p.isPlain_of_mem h _ hc).2.2 rfl rfl
    exact ⟨p.noBraces h, Text.piecesAt_of_not_mem hcomma⟩
  | .more p g, h => by
    rw [step?] at h
    split at h
    · cases h
    · next hp =>
      rw [Option.map_eq_none_iff] at h
      have hcomma : ',' ∉ p.text := fun hc => (p.isPlain_of_mem hp _ hc).2.2 rfl rfl
      obtain ⟨⟨hopen, hclose⟩, hpieces⟩ := g.pieces_text h
      obtain ⟨hopen', hclose'⟩ := p.noBraces hp
      rw [text, alternatives, Text.piecesAt_append, Text.piecesAt_of_not_mem hcomma, hpieces]
      simp [hopen, hopen', hclose, hclose']

mutual

/-- The first group of the text of a pattern, and the texts that have its alternatives in its
place: these are the texts after a step on the pattern. -/
theorem Pattern.firstGroup_text : {inside : Bool} → (p : Pattern inside) →
    {ps : List (Pattern inside)} → p.step? = some ps → ∃ h i t, FirstGroup p.text h i t ∧
      ps.map Pattern.text = (Text.piecesAt ',' i).map fun a => h ++ a ++ t
  | _, .nil, _, hs => by cases hs
  | _, .char c hc r, _, hs => by
    obtain ⟨rs, hrs, rfl⟩ := Option.map_eq_some_iff.1 hs
    obtain ⟨h, i, t, hfirst, htexts⟩ := r.firstGroup_text hrs
    refine ⟨c :: h, i, t, hfirst.cons hc.1 hc.2.1, ?_⟩
    have hcons := congrArg (List.map (c :: ·)) htexts
    rw [List.map_map, List.map_map] at hcons
    rw [List.map_map]
    exact hcons
  | _, .group g r, ps, hs => by
    rw [Pattern.step?] at hs
    split at hs
    · next gs hgs =>
      cases hs
      obtain ⟨h, i, t, hfirst, htexts⟩ := g.firstGroup_text hgs
      refine ⟨'\x7b' :: h, i, t ++ '\x7d' :: r.text, hfirst.behindBrace.append _, ?_⟩
      have hframed := congrArg (List.map fun cs => '\x7b' :: cs ++ '\x7d' :: r.text) htexts
      rw [List.map_map, List.map_map] at hframed
      rw [List.map_map]
      refine Eq.trans hframed (List.map_congr_left fun a _ => ?_)
      simp
    · next hg =>
      cases hs
      obtain ⟨hbraces, hpieces⟩ := g.pieces_text hg
      refine ⟨[], g.text, r.text, firstGroup_self hbraces r.text, ?_⟩
      rw [hpieces, List.map_map, List.map_map]
      exact List.map_congr_left fun p _ => p.text_append r

theorem Group.firstGroup_text : (g : Group) → {gs : List Group} → g.step? = some gs →
    ∃ h i t, FirstGroup g.text h i t ∧
      gs.map Group.text = (Text.piecesAt ',' i).map fun a => h ++ a ++ t
  | .last p, _, hs => by
    obtain ⟨ps, hps, rfl⟩ := Option.map_eq_some_iff.1 hs
    obtain ⟨h, i, t, hfirst, htexts⟩ := p.firstGroup_text hps
    exact ⟨h, i, t, hfirst, by rw [← htexts, List.map_map]; rfl⟩
  | .more p g, gs, hs => by
    rw [Group.step?] at hs
    split at hs
    · next ps hps =>
      cases hs
      obtain ⟨h, i, t, hfirst, htexts⟩ := p.firstGroup_text hps
      refine ⟨h, i, t ++ ',' :: g.text, hfirst.append _, ?_⟩
      have hframed := congrArg (List.map fun cs => cs ++ ',' :: g.text) htexts
      rw [List.map_map, List.map_map] at hframed
      rw [List.map_map]
      refine Eq.trans hframed (List.map_congr_left fun a _ => ?_)
      simp
    · next hp =>
      obtain ⟨gs, hgs, rfl⟩ := Option.map_eq_some_iff.1 hs
      obtain ⟨h, i, t, hfirst, htexts⟩ := g.firstGroup_text hgs
      have hbraces := p.noBraces hp
      refine ⟨p.text ++ ',' :: h, i, t, ?_, ?_⟩
      · exact (hfirst.cons (by decide) (by decide)).prepend hbraces
      · have hframed := congrArg (List.map fun cs => p.text ++ ',' :: cs) htexts
        rw [List.map_map, List.map_map] at hframed
        rw [List.map_map]
        refine Eq.trans hframed (List.map_congr_left fun a _ => ?_)
        simp

end

/-! ## Expansion -/

theorem expandChars_of_none {cs : List Char} (h : group? cs = none) : expandChars cs = [cs] := by
  rw [expandChars]
  split
  · rfl
  · next hsome =>
    rw [h] at hsome
    cases hsome

theorem expandChars_of_some {cs h i t : List Char} (hg : group? cs = some (h, i, t)) :
    expandChars cs = (Text.piecesAt ',' i).flatMap fun a => expandChars (h ++ a ++ t) := by
  rw [expandChars]
  split
  · next hnone =>
    rw [hg] at hnone
    cases hnone
  · next hsome =>
    rw [hg] at hsome
    cases hsome
    have hvals := List.flatMap_map (l := (Text.piecesAt ',' i).attach) (f := Subtype.val)
      (g := fun a => expandChars (h ++ a ++ t))
    rw [List.attach_map_subtype_val] at hvals
    exact hvals.symm

/-- A step on the text is a step on the pattern, and leaves fewer groups. -/
theorem expandChars_text_of_step {p : Pattern inside} {ps : List (Pattern inside)}
    (hs : p.step? = some ps) : expandChars p.text = ps.flatMap (fun q => expandChars q.text) ∧
      ∀ q ∈ ps, q.text.count '\x7b' < p.text.count '\x7b' := by
  obtain ⟨h, i, t, hfirst, htexts⟩ := p.firstGroup_text hs
  have hgroup := hfirst.group?_eq
  constructor
  · calc expandChars p.text
        = ((Text.piecesAt ',' i).map fun a => h ++ a ++ t).flatMap expandChars := by
          rw [expandChars_of_some hgroup, List.flatMap_map]
      _ = ps.flatMap fun q => expandChars q.text := by rw [← htexts, List.flatMap_map]
  · intro q hq
    have hmem : q.text ∈ ps.map Pattern.text := List.mem_map_of_mem hq
    rw [htexts] at hmem
    obtain ⟨a, ha, htext⟩ := List.mem_map.1 hmem
    rw [← htext]
    exact count_alternative hgroup ha

theorem expandChars_text_of_plain {p : Pattern inside} (hs : p.step? = none) :
    expandChars p.text = [p.text] := by
  refine expandChars_of_none (group?_eq_none_iff.2 ?_)
  rintro ⟨h, i, t, htext, -⟩
  refine (p.noBraces hs).1 ?_
  rw [htext]
  simp

/-- A pattern is expanded to what it stands for. -/
theorem mem_expandChars_text_iff (p : Pattern inside) (w : List Char) :
    w ∈ expandChars p.text ↔ p.Denotes w := by
  induction hn : p.text.count '\x7b' using Nat.strongRecOn generalizing p with
  | ind n ih =>
    cases hs : p.step? with
    | none => rw [expandChars_text_of_plain hs, List.mem_singleton, p.denotes_iff_of_plain hs]
    | some ps =>
      obtain ⟨hexpand, hless⟩ := expandChars_text_of_step hs
      rw [hexpand, List.mem_flatMap, p.denotes_iff_of_step hs]
      exact exists_congr fun q => and_congr_right fun hq => ih _ (hn ▸ hless q hq) q rfl

/-- Expansion goes on from one text to the other. -/
def Continues (cs cs' : List Char) : Prop :=
  ∃ h i t, group? cs = some (h, i, t) ∧ ∃ a ∈ Text.piecesAt ',' i, cs' = h ++ a ++ t

theorem Continues.count_lt {cs cs' : List Char} (h : Continues cs cs') :
    cs'.count '\x7b' < cs.count '\x7b' := by
  obtain ⟨h, i, t, hgroup, a, ha, rfl⟩ := h
  exact count_alternative hgroup ha

/-- Expansion goes on at most as often as there are opening braces in the text. -/
theorem length_le_of_isChain {cs : List Char} {later : List (List Char)}
    (h : (cs :: later).IsChain Continues) : later.length ≤ cs.count '\x7b' := by
  induction later generalizing cs with
  | nil => exact Nat.zero_le _
  | cons cs' later ih =>
    rw [List.isChain_cons_cons] at h
    have hless := h.1.count_lt
    have hrest := ih h.2
    rw [List.length_cons]
    omega

/-- What a text is expanded to has no groups. -/
theorem not_hasGroup_of_mem {cs w : List Char} (h : w ∈ expandChars cs) : ¬ HasGroup w := by
  induction hn : cs.count '\x7b' using Nat.strongRecOn generalizing cs with
  | ind n ih =>
    cases hg : group? cs with
    | none =>
      rw [expandChars_of_none hg, List.mem_singleton] at h
      rw [h]
      exact group?_eq_none_iff.1 hg
    | some found =>
      obtain ⟨before, i, t⟩ := found
      rw [expandChars_of_some hg, List.mem_flatMap] at h
      obtain ⟨a, ha, hw⟩ := h
      exact ih _ (hn ▸ count_alternative hg ha) hw rfl

/-- **Expansion is what the grammar of patterns means.** The text of a pattern is expanded to the
words that the pattern stands for, and to no others. Any text is expanded, in calls that are nested no
deeper than it has opening braces, to texts without a group, be its braces balanced or not. -/
theorem expands_alternatives :
    (∀ (p : Pattern false) (w : String), w ∈ expand (.ofList p.text) ↔ p.Denotes w.toList) ∧
    ∀ text : String,
      (∀ later, (text.toList :: later).IsChain Continues →
        later.length ≤ text.toList.count '\x7b') ∧
      ∀ w ∈ expand text, ¬ HasGroup w.toList := by
  refine ⟨fun p w => ?_, fun text => ⟨fun later => length_le_of_isChain, fun w hw => ?_⟩⟩
  · rw [expand, String.toList_ofList, ← mem_expandChars_text_iff, List.mem_map]
    constructor
    · rintro ⟨cs, hcs, rfl⟩
      rwa [String.toList_ofList]
    · exact fun h => ⟨w.toList, h, String.ofList_toList⟩
  · obtain ⟨cs, hcs, rfl⟩ := List.mem_map.1 hw
    rw [String.toList_ofList]
    exact not_hasGroup_of_mem hcs

end ModuleGraph.Braces
