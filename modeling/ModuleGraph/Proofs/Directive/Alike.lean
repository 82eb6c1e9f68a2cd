import Mathlib.Data.List.Forall2
import ModuleGraph.Proofs.Directive.Parts
/-!
# The same directives

As long as the stretches of a text and what they give way to are plain, directives are found in the
new text where they were found in the old one, in the same order.

Results:
* `Settled.exists_isPragma_iff`, `Settled.exists_isReference_iff`: where a directive begins;
* `Settled.pragma`: the pragma of the new text is that of the old one;
* `Settled.references`: **main theorem**: the references of the new text are those of the old one.
-/

namespace ModuleGraph.Directive

/-! ## Stretches in which nothing begins -/

/-- Where no pragma begins in the first characters, it is looked for behind them. -/
theorem pragmaFrom_append {u z : List Char}
    (h : ∀ a c s, u = a ++ c :: s → ¬∃ b v rest, IsPragma b v rest (c :: s ++ z)) (pos : Nat) :
    pragmaFrom pos (u ++ z) = pragmaFrom (pos + Utf8.width u) z := by
  induction u generalizing pos with
  | nil => rfl
  | cons c u ih =>
    have hrest : ∀ a d s, u = a ++ d :: s → ¬∃ b v rest, IsPragma b v rest (d :: s ++ z) :=
      fun a d s hu => h (c :: a) d s (by rw [hu, List.cons_append])
    rcases pragmaFrom_cases pos c (u ++ z) with hp | hnext
    · exact absurd hp (h [] c u rfl)
    · rw [List.cons_append, hnext, ih hrest, Utf8.width_cons, Nat.add_assoc]

/-- Where no reference begins in the first characters, the references are those behind them. -/
theorem referencesFrom_append {named : Attribute} {lineStart : Bool} {u z : List Char}
    (h : ∀ a c s, u = a ++ c :: s → lineAfter lineStart a = true →
      ¬∃ lead v b rest, IsReference named lead v b rest (c :: s ++ z)) (pos : Nat) :
    referencesFrom named 0 lineStart pos (u ++ z) =
      referencesFrom named 0 (lineAfter lineStart u) (pos + Utf8.width u) z := by
  induction u generalizing lineStart pos with
  | nil => rfl
  | cons c u ih =>
    have hrest : ∀ a d s, u = a ++ d :: s → lineAfter (c = '\n') a = true →
        ¬∃ lead v b rest, IsReference named lead v b rest (d :: s ++ z) :=
      fun a d s hu => h (c :: a) d s (by rw [hu, List.cons_append])
    rcases referencesFrom_cases named lineStart pos c (u ++ z) with ⟨hline, hr⟩ | hnext
    · exact absurd hr (h [] c u rfl hline)
    · rw [List.cons_append, hnext, ih hrest, Utf8.width_cons, Nat.add_assoc, lineAfter]

/-- No pragma begins close before a quote. -/
theorem not_isPragma_of_isPlainChar {s z b v rest : List Char} {q : Char}
    (hs : ∀ c ∈ s, isPlainChar c = true) (hq : IsQuote q) : ¬IsPragma b v rest (s ++ q :: z) := by
  intro h
  obtain ⟨d, b, rfl⟩ := List.exists_cons_of_ne_nil h.blank_ne
  have hd : isBlank d = true := h.blank d List.mem_cons_self
  have hcut := congrArg (List.dropWhile isPlainChar) h.eq
  rw [List.dropWhile_append_of_pos hs, List.dropWhile_append_of_pos isPlainChar_of_mem_pragmaWord,
    List.dropWhile_cons_of_neg (by simp [isPlainChar_eq_false_of_isQuote hq]), List.cons_append,
    List.dropWhile_cons_of_neg (by simp [isPlainChar, hd])] at hcut
  obtain ⟨rfl, -⟩ := List.cons.inj hcut
  rw [isBlank_eq_false_of_isQuote hq] at hd
  cases hd

/-- A reference begins with white space or a slash. -/
theorem head_of_isReference {named : Attribute} {lead v b rest r : List Char} {c : Char}
    (h : IsReference named lead v b rest (c :: r)) : isBlank c = true ∨ c = '/' := by
  obtain ⟨b₁, b₂, b₃, hlead⟩ := h.lead
  have heq := h.eq
  rw [hlead.eq] at heq
  cases b₁ with
  | nil =>
    obtain ⟨rfl, -⟩ := List.cons.inj heq
    exact .inr rfl
  | cons d b₁ =>
    obtain ⟨rfl, -⟩ := List.cons.inj heq
    exact .inl (hlead.blank₁ c List.mem_cons_self)

theorem not_beginsBlank_of_isPlain {o : List Char} (ho : IsPlain o) (z : List Char) :
    ¬BeginsBlank (o ++ z) := by
  obtain ⟨c, o, rfl⟩ := List.exists_cons_of_ne_nil ho.ne
  exact not_beginsBlank_cons (ho.of_mem List.mem_cons_self).1 _

/-- No reference begins with a word that is plain. -/
theorem not_isReference_of_isPlain {named : Attribute} {d o z lead v b rest : List Char}
    (hd : ∀ c ∈ d, isBlank c = true) (ho : IsPlain o) (hz : ∀ c ∈ z.head?, isBlank c = true) :
    ¬IsReference named lead v b rest (d ++ (o ++ z)) := by
  intro h
  obtain ⟨b₁, b₂, b₃, hlead⟩ := h.lead
  have heq := h.eq
  rw [hlead.eq, List.append_assoc, List.append_assoc] at heq
  obtain ⟨y, hy⟩ : ∃ y, d ++ (o ++ z) = b₁ ++ ("///".toList ++ y) := ⟨_, heq⟩
  have hslashes : Blanks b₁ ("///".toList ++ y) := ⟨hlead.blank₁, not_beginsBlank_cons rfl _⟩
  have hcut := congrArg (List.dropWhile isBlank) hy
  rw [Blanks.dropWhile ⟨hd, not_beginsBlank_of_isPlain ho z⟩, hslashes.dropWhile] at hcut
  rcases List.append_eq_append_iff.1 hcut with ⟨x, hx, rfl⟩ | ⟨x, rfl, -⟩
  · -- The word is a part of the slashes, and a slash stands behind it.
    cases x with
    | nil =>
      rw [List.append_nil] at hx
      exact ho.not_reference (hx ▸ List.prefix_rfl)
    | cons c x =>
      have hc : c ∈ "///".toList := by
        rw [hx]
        simp
      have hslash : c = '/' := by simpa using hc
      have := hz c rfl
      rw [hslash] at this
      cases this
  · exact ho.not_reference (List.prefix_append _ _)

theorem lineAfter_of_ne_nil {s : List Char} (hne : s ≠ []) (h : ∀ c ∈ s, isBlank c = false)
    (lineStart : Bool) : lineAfter lineStart s = false := by
  induction s generalizing lineStart with
  | nil => exact absurd rfl hne
  | cons c s ih =>
    obtain ⟨hc, hs⟩ := List.forall_mem_cons.1 h
    have hline : decide (c = '\n') = false := by
      simp only [decide_eq_false_iff_not]
      rintro rfl
      cases hc
    cases s with
    | nil => exact hline
    | cons d s =>
      rw [lineAfter]
      exact ih (by simp) hs _

/-- A plain stretch holds no reference, unless one begins with it. -/
theorem referencesFrom_of_isPlain {named : Attribute} {lineStart : Bool} {o z : List Char}
    (ho : IsPlain o) (h : lineStart = true → ¬∃ lead v b rest,
      IsReference named lead v b rest (o ++ z)) (pos : Nat) :
    referencesFrom named 0 lineStart pos (o ++ z) =
      referencesFrom named 0 false (pos + Utf8.width o) z := by
  rw [referencesFrom_append, lineAfter_of_ne_nil ho.ne fun c hc => (ho.of_mem hc).1]
  intro a c s hs hline
  cases a with
  | nil =>
    rw [← List.nil_append (c :: s), ← hs]
    exact h hline
  | cons d a =>
    have hfalse : lineAfter lineStart (d :: a) = false := by
      refine lineAfter_of_ne_nil (by simp) (fun x hx => (ho.of_mem (c := x) ?_).1) lineStart
      rw [hs]
      exact List.mem_append_left _ hx
    rw [hfalse] at hline
    cases hline

/-! ## The same directives -/

/-- A text is cut into parts before white space or a quote, which no stretch holds. -/
theorem exists_cut {ps : List Part} {v rest : List Char} (hplain : ∀ x ∈ ps, x.IsPlain)
    (hps : before ps = v ++ rest) (hrest : ∀ c ∈ rest.head?, isPlainChar c = false) :
    ∃ vs ws, ps = vs ++ ws ∧ before vs = v ∧ before ws = rest ∧
      (after ws).head? = rest.head? := by
  induction ps generalizing v with
  | nil =>
    obtain ⟨rfl, rfl⟩ := List.append_eq_nil_iff.1 hps.symm
    exact ⟨[], [], rfl, rfl, rfl, rfl⟩
  | cons x ps ih =>
    obtain ⟨hx, hplain'⟩ := List.forall_mem_cons.1 hplain
    cases x with
    | kept c =>
      cases v with
      | nil =>
        refine ⟨[], .kept c :: ps, rfl, rfl, hps, ?_⟩
        rw [List.nil_append] at hps
        rw [← hps]
        rfl
      | cons d v =>
        obtain ⟨rfl, hcs⟩ := List.cons.inj hps
        obtain ⟨vs, ws, rfl, rfl, hws, hhead⟩ := ih hplain' hcs
        exact ⟨.kept c :: vs, ws, rfl, rfl, hws, hhead⟩
    | moved o n =>
      obtain ⟨v', rfl, hcs⟩ : ∃ v', v = o ++ v' ∧ before ps = v' ++ rest := by
        rcases List.append_eq_append_iff.1 hps with ⟨v', hv', hcs⟩ | ⟨y, rfl, rfl⟩
        · exact ⟨v', hv', hcs⟩
        · cases y with
          | nil => exact ⟨[], by simp, rfl⟩
          | cons c y =>
            have hc : isPlainChar c = true := hx.1.isPlainChar (by simp)
            rw [hrest c rfl] at hc
            cases hc
      obtain ⟨vs, ws, rfl, rfl, hws, hhead⟩ := ih hplain' hcs
      exact ⟨.moved o n :: vs, ws, rfl, rfl, hws, hhead⟩

/-- What holds of the characters of the old text and of plain characters holds of those of the new
text. -/
theorem forall_mem_after {p : Char → Prop} (hp : ∀ cs, IsPlain cs → ∀ c ∈ cs, p c)
    {ps : List Part} (hplain : ∀ x ∈ ps, x.IsPlain) (h : ∀ c ∈ before ps, p c) :
    ∀ c ∈ after ps, p c := by
  intro c hc
  obtain ⟨x, hx, hcx⟩ := List.mem_flatMap.1 hc
  cases x with
  | kept d => exact h c (List.mem_flatMap.2 ⟨_, hx, hcx⟩)
  | moved o n => exact hp n (hplain _ hx).2 c hcx

/-- A quote is kept. -/
theorem exists_kept_of_isQuote {ps : List Part} {q : Char} {cs : List Char} (hq : IsQuote q)
    (hplain : ∀ x ∈ ps, x.IsPlain) (hps : before ps = q :: cs) :
    ∃ r, ps = .kept q :: r ∧ before r = cs := by
  cases ps with
  | nil => cases hps
  | cons x r =>
    cases x with
    | kept c =>
      cases hps
      exact ⟨r, rfl, rfl⟩
    | moved o n =>
      obtain ⟨ho, -⟩ := hplain _ List.mem_cons_self
      obtain ⟨c, o, rfl⟩ := List.exists_cons_of_ne_nil ho.ne
      obtain ⟨rfl, -⟩ := List.cons.inj hps
      exact absurd hq (ho.not_isQuote List.mem_cons_self)

/-- What stands before a quote and what stands behind it. -/
theorem exists_split {ps : List Part} {q : Char} {a cs : List Char} (hq : IsQuote q)
    (hplain : ∀ x ∈ ps, x.IsPlain) (hps : before ps = a ++ q :: cs) :
    ∃ us ws, ps = us ++ .kept q :: ws ∧ before us = a ∧ before ws = cs := by
  obtain ⟨us, ws, rfl, hus, hws, -⟩ := exists_cut hplain hps
    (by simpa using isPlainChar_eq_false_of_isQuote hq)
  obtain ⟨r, rfl, hr⟩ :=
    exists_kept_of_isQuote hq (fun x hx => hplain x (List.mem_append_right us hx)) hws
  exact ⟨us, r, rfl, hus, hr⟩

theorem after_ne_nil {ps : List Part} (h : ∀ x ∈ ps, x.IsPlain) (hne : before ps ≠ []) :
    after ps ≠ [] := by
  cases ps with
  | nil => exact absurd rfl hne
  | cons x ps =>
    cases x with
    | kept c => simp
    | moved o n =>
      have hn := (h _ List.mem_cons_self).2.ne
      simp [hn]

theorem not_isQuote_of_isBlank {c : Char} (h : isBlank c = true) : ¬IsQuote c := by
  intro hq
  rw [isBlank_eq_false_of_isQuote hq] at h
  cases h

theorem ne_at_of_isBlank {c : Char} (h : isBlank c = true) : c ≠ '@' := by
  rintro rfl
  cases h

/-- White space before a word ends where the word begins. -/
theorem eq_of_blanks {b b' cs cs' : List Char} (h : Blanks b cs) (h' : Blanks b' cs')
    (heq : b ++ cs = b' ++ cs') : b = b' ∧ cs = cs' := by
  have hb := congrArg (List.takeWhile isBlank) heq
  have hcs := congrArg (List.dropWhile isBlank) heq
  rw [h.takeWhile, h'.takeWhile] at hb
  rw [h.dropWhile, h'.dropWhile] at hcs
  exact ⟨hb, hcs⟩

namespace Settled

variable {ps : List Part}

/-- What stands before the value of a pragma is kept. -/
theorem exists_lead {b v rest : List Char} (h : Settled ps) (hp : IsPragma b v rest (before ps)) :
    ∃ r, ps = (pragmaWord ++ b).map .kept ++ r ∧ before r = v ++ rest := by
  have hcs := hp.eq
  obtain ⟨c, v', hv⟩ := List.exists_cons_of_ne_nil hp.value_ne
  have hblanks : Blanks b (v ++ rest) := by
    refine ⟨hp.blank, ?_⟩
    rw [hv]
    exact not_beginsBlank_cons (hp.value c (by simp [hv])) _
  cases h with
  | nil => cases hcs
  | @kept d r hr =>
    have hrun : ∀ c ∈ pragmaWord.tail ++ b, ¬IsQuote c ∧ c ≠ '@' := by
      intro c hc
      rcases List.mem_append.1 hc with hc | hc
      · exact of_mem_tail_pragmaWord c hc
      · exact ⟨not_isQuote_of_isBlank (hp.blank c hc), ne_at_of_isBlank (hp.blank c hc)⟩
    rw [pragmaWord_eq, before_kept, List.cons_append, ← List.append_assoc] at hcs
    obtain ⟨rfl, htail⟩ := List.cons.inj hcs
    obtain ⟨r', rfl, -, hz⟩ := hr.kept_run hrun htail
    refine ⟨r', ?_, hz⟩
    rw [pragmaWord_eq]
    rfl
  | quoted hq =>
    rw [pragmaWord_eq] at hcs
    obtain ⟨rfl, -⟩ := List.cons.inj hcs
    exact absurd hq (by decide)
  | @value b' o n r _ hqs hbne hb ho hn hends hr =>
    subst hqs
    simp only [before_append, before_map_kept, before_moved, List.append_assoc] at hcs
    obtain ⟨rfl, hz⟩ := eq_of_blanks ⟨hb, not_beginsBlank_of_isPlain ho _⟩ hblanks
      (List.append_cancel_left hcs)
    exact ⟨_, rfl, hz⟩

/-- A pragma is one in the new text as well. -/
theorem exists_value {b v rest : List Char} (h : Settled ps) (hp : IsPragma b v rest (before ps)) :
    ∃ vs ws, ps = (pragmaWord ++ b).map .kept ++ (vs ++ ws) ∧ before vs = v ∧
      IsPragma b (after vs) (after ws) (after ps) := by
  obtain ⟨r, rfl, hr⟩ := h.exists_lead hp
  have hplain : ∀ x ∈ r, x.IsPlain := fun x hx => h.isPlain x (List.mem_append_right _ hx)
  obtain ⟨vs, ws, rfl, rfl, rfl, hws⟩ :=
    exists_cut hplain hr fun c hc => by simp [isPlainChar, hp.ends c hc]
  have hvs : ∀ x ∈ vs, x.IsPlain := fun x hx => hplain x (List.mem_append_left ws hx)
  refine ⟨vs, ws, rfl, rfl, by simp, hp.blank, hp.blank_ne,
    forall_mem_after (fun cs hcs c hc => (hcs.of_mem hc).1) hvs hp.value,
    after_ne_nil hvs hp.value_ne, ?_⟩
  rw [hws]
  exact hp.ends

/-- The end of a reference is kept. -/
theorem exists_end {b rest : List Char} {s : List Part} (h : Settled (.kept '"' :: s))
    (hb : ∀ c ∈ b, isBlank c = true) (hs : before s = b ++ ("/>".toList ++ rest)) :
    ∃ r, s = (b ++ "/>".toList).map .kept ++ r ∧ Settled r ∧ before r = rest := by
  generalize hps : Part.kept '"' :: s = ps at h
  cases h with
  | nil => cases hps
  | @kept c r hr =>
    cases hps
    have hend : ∀ c ∈ "/>".toList, ¬IsQuote c ∧ c ≠ '@' :=
      List.all_iff_forall_prop.1 (by decide)
    have hrun : ∀ c ∈ b ++ "/>".toList, ¬IsQuote c ∧ c ≠ '@' := by
      intro c hc
      rcases List.mem_append.1 hc with hc | hc
      · exact ⟨not_isQuote_of_isBlank (hb c hc), ne_at_of_isBlank (hb c hc)⟩
      · exact hend c hc
    exact hr.kept_run hrun (by rw [hs, List.append_assoc])
  | @quoted q q' o n r hq hq' ho hn hr =>
    cases hps
    have hnone : Blanks [] (o ++ q' :: before r) :=
      ⟨fun c hc => absurd hc List.not_mem_nil, not_beginsBlank_of_isPlain ho _⟩
    have hsome : Blanks b ("/>".toList ++ rest) := ⟨hb, not_beginsBlank_cons rfl _⟩
    obtain ⟨-, hcut⟩ := eq_of_blanks hnone hsome hs
    rcases List.append_eq_append_iff.1 hcut with ⟨x, hx, hrest⟩ | ⟨x, rfl, -⟩
    · cases x with
      | nil =>
        rw [List.append_nil] at hx
        exact absurd (hx ▸ List.prefix_rfl) ho.not_end
      | cons c x =>
        obtain ⟨rfl, -⟩ := List.cons.inj hrest
        have hmem : q' ∈ "/>".toList := by
          rw [hx]
          simp
        have hnot : ∀ c ∈ "/>".toList, ¬IsQuote c := List.all_iff_forall_prop.1 (by decide)
        exact absurd hq' (hnot q' hmem)
    · exact absurd (List.prefix_append _ _) ho.not_end
  | value hqs =>
    rw [hqs, pragmaWord_eq] at hps
    cases hps

end Settled

/-- What stands before the value of a reference is a run of characters and a quote. -/
theorem Attribute.IsLead.exists_run {named : Attribute} {b₁ b₂ b₃ lead : List Char}
    (h : named.IsLead b₁ b₂ b₃ lead) :
    ∃ w, lead = w ++ ['"'] ∧ ∀ c ∈ w, ¬IsQuote c ∧ c ≠ '@' := by
  have hblank : ∀ c, isBlank c = true → ¬IsQuote c ∧ c ≠ '@' := fun c hc =>
    ⟨not_isQuote_of_isBlank hc, ne_at_of_isBlank hc⟩
  have hwords : ∀ c ∈ "///".toList ++ "<reference".toList, ¬IsQuote c ∧ c ≠ '@' :=
    List.all_iff_forall_prop.1 (by decide)
  obtain ⟨a, ha, hattribute⟩ :
      ∃ a, named.opening = a ++ ['"'] ∧ ∀ c ∈ a, ¬IsQuote c ∧ c ≠ '@' := by
    cases named
    · exact ⟨"path=".toList, rfl, List.all_iff_forall_prop.1 (by decide)⟩
    · exact ⟨"lib=".toList, rfl, List.all_iff_forall_prop.1 (by decide)⟩
  refine ⟨b₁ ++ ("///".toList ++ (b₂ ++ ("<reference".toList ++ (b₃ ++ a)))), ?_, fun c hc => ?_⟩
  · rw [h.eq, ha]
    simp only [List.append_assoc]
  · simp only [List.mem_append] at hc
    rcases hc with hc | hc | hc | hc | hc | hc
    · exact hblank c (h.blank₁ c hc)
    · exact hwords c (List.mem_append_left _ hc)
    · exact hblank c (h.blank₂ c hc)
    · exact hwords c (List.mem_append_right _ hc)
    · exact hblank c (h.blank₃ c hc)
    · exact hattribute c hc

namespace Settled

variable {ps : List Part}

/-- A reference is one in the new text as well. -/
theorem exists_reference {named : Attribute} {lead v b rest : List Char} (h : Settled ps)
    (hr : IsReference named lead v b rest (before ps)) :
    ∃ vs rs, ps = lead.map .kept ++ (vs ++ (('"' :: (b ++ "/>".toList)).map .kept ++ rs)) ∧
      before vs = v ∧ before rs = rest ∧ Settled rs ∧
      IsReference named lead (after vs) b (after rs) (after ps) := by
  obtain ⟨b₁, b₂, b₃, hlead⟩ := hr.lead
  obtain ⟨w, rfl, hw⟩ := hlead.exists_run
  have hcs := hr.eq
  rw [List.append_assoc, List.singleton_append] at hcs
  obtain ⟨r, rfl, hr₁, hz⟩ := h.kept_run hw hcs
  obtain ⟨s, rfl, hs⟩ := hr₁.exists_kept hz
  have hplain : ∀ x ∈ s, x.IsPlain := fun x hx => hr₁.isPlain x (List.mem_cons_of_mem _ hx)
  obtain ⟨vs, s, rfl, rfl, hs'⟩ := exists_split (.inl rfl) hplain hs
  have hvs : ∀ x ∈ vs, x.IsPlain := fun x hx => hplain x (List.mem_append_left _ hx)
  have hvalue : ∀ c ∈ after vs, c ≠ '"' :=
    forall_mem_after (fun cs hcs c hc => (hcs.of_mem hc).2.1) hvs
      fun c hc => ne_of_mem_of_not_mem hc hr.value
  obtain ⟨rs, rfl, hrs, hrest⟩ := (of_append (a := .kept '"' :: vs) (.inl rfl) hr₁).exists_end
    hr.blank hs'
  exact ⟨vs, rs, by simp, rfl, hrest, hrs, by simp, hr.lead, fun hc => hvalue _ hc rfl,
    after_ne_nil hvs hr.value_ne, hr.blank⟩

theorem exists_isPragma_iff (h : Settled ps) :
    (∃ b v rest, IsPragma b v rest (before ps)) ↔ ∃ b v rest, IsPragma b v rest (after ps) := by
  constructor
  · rintro ⟨b, v, rest, hp⟩
    obtain ⟨vs, ws, -, -, hp'⟩ := h.exists_value hp
    exact ⟨b, _, _, hp'⟩
  · rintro ⟨b, v, rest, hp⟩
    rw [← before_map_swap] at hp
    obtain ⟨vs, ws, -, -, hp'⟩ := h.swap.exists_value hp
    exact ⟨b, _, _, after_map_swap ps ▸ hp'⟩

theorem exists_isReference_iff (h : Settled ps) (named : Attribute) :
    (∃ lead v b rest, IsReference named lead v b rest (before ps)) ↔
      ∃ lead v b rest, IsReference named lead v b rest (after ps) := by
  constructor
  · rintro ⟨lead, v, b, rest, hr⟩
    obtain ⟨vs, rs, -, -, -, -, hr'⟩ := h.exists_reference hr
    exact ⟨lead, _, b, _, hr'⟩
  · rintro ⟨lead, v, b, rest, hr⟩
    rw [← before_map_swap] at hr
    obtain ⟨vs, rs, -, -, -, -, hr'⟩ := h.swap.exists_reference hr
    exact ⟨lead, _, b, _, after_map_swap ps ▸ hr'⟩

end Settled

/-- `f` is found in the old text, which begins at `pos`, and `f'` in the new one, which begins at
`pos'`: both are the same parts. -/
def Alike (pos pos' : Nat) (ps : List Part) (f f' : Found) : Prop :=
  ∃ us vs ws, ps = us ++ (vs ++ ws) ∧
    f = ⟨pos + Utf8.width (before us), pos + Utf8.width (before us) + Utf8.width (before vs),
      .ofList (before vs)⟩ ∧
    f' = ⟨pos' + Utf8.width (after us), pos' + Utf8.width (after us) + Utf8.width (after vs),
      .ofList (after vs)⟩

/-- What is alike behind the first parts is alike. -/
theorem Alike.after {pos pos' : Nat} {us ps : List Part} {f f' : Found}
    (h : Alike (pos + Utf8.width (before us)) (pos' + Utf8.width (after us)) ps f f') :
    Alike pos pos' (us ++ ps) f f' := by
  obtain ⟨us', vs, ws, rfl, rfl, rfl⟩ := h
  refine ⟨us ++ us', vs, ws, by rw [List.append_assoc], ?_, ?_⟩
  · rw [before_append, Utf8.width_append, Nat.add_assoc pos]
  · rw [after_append, Utf8.width_append, Nat.add_assoc pos']

/-- What is found behind the first parts, if nothing is found that begins in them. -/
theorem forall₂_alike {pos pos' : Nat} {ps qs : List Part} {fs fs' : List Found} (us : List Part)
    (hqs : qs = us ++ ps) (h : List.Forall₂
      (Alike (pos + Utf8.width (before us)) (pos' + Utf8.width (after us)) ps) fs fs') :
    List.Forall₂ (Alike pos pos' qs) fs fs' :=
  h.imp fun _ _ hf => hqs ▸ hf.after

/-- No pragma begins between quotes. -/
theorem pragmaFrom_quoted {q q' : Char} {o : List Char} (hq : IsQuote q) (hq' : IsQuote q')
    (ho : IsPlain o) (pos : Nat) (z : List Char) : pragmaFrom pos (q :: o ++ q' :: z) =
      pragmaFrom (pos + Utf8.width (q :: o)) (q' :: z) := by
  refine pragmaFrom_append (fun a c s hs => ?_) pos
  rintro ⟨b, v, rest, hp⟩
  rcases List.cons_eq_append_iff.1 hs with ⟨rfl, heq⟩ | ⟨a', rfl, rfl⟩
  · obtain ⟨rfl, -⟩ := List.cons.inj heq
    exact not_isPragma_of_isPlainChar (s := []) (by simp) hq hp
  · exact not_isPragma_of_isPlainChar (fun d hd => ho.isPlainChar (List.mem_append_right a' hd)) hq' hp

/-- No reference begins between quotes. -/
theorem referencesFrom_quoted (named : Attribute) (lineStart : Bool) {q : Char} {o : List Char}
    (hq : IsQuote q) (ho : IsPlain o) (pos : Nat) (z : List Char) :
    referencesFrom named 0 lineStart pos (q :: o ++ z) =
      referencesFrom named 0 false (pos + Utf8.width (q :: o)) z := by
  rcases referencesFrom_cases named lineStart pos q (o ++ z) with
    ⟨-, lead, v, b, rest, hr⟩ | hnext
  · rcases head_of_isReference hr with hblank | rfl
    · exact absurd hq (not_isQuote_of_isBlank hblank)
    · exact absurd hq (by decide)
  · have hline : decide (q = '\n') = false := by
      rcases hq with rfl | rfl <;> rfl
    rw [List.cons_append, hnext, hline, referencesFrom_of_isPlain ho (by simp), Utf8.width_cons,
      Nat.add_assoc]

/-- No reference begins in a pragma with a plain value. -/
theorem referencesFrom_pragma (named : Attribute) (lineStart : Bool) {b o z : List Char}
    (hb : ∀ c ∈ b, isBlank c = true) (ho : IsPlain o) (hz : ∀ c ∈ z.head?, isBlank c = true)
    (pos : Nat) :
    referencesFrom named 0 lineStart pos (pragmaWord ++ b ++ o ++ z) =
      referencesFrom named 0 false (pos + Utf8.width (pragmaWord ++ b ++ o)) z := by
  rw [List.append_assoc, referencesFrom_append, referencesFrom_of_isPlain ho,
    Utf8.width_append _ o, Nat.add_assoc pos]
  · rintro - ⟨lead, v, b', rest, hr⟩
    exact not_isReference_of_isPlain (d := []) (by simp) ho hz hr
  · rintro a c s hs - ⟨lead, v, b', rest, hr⟩
    rcases List.append_eq_append_iff.1 hs with ⟨x, rfl, hx⟩ | ⟨x, hx, heq⟩
    · rw [hx] at hb
      exact not_isReference_of_isPlain (fun d hd => hb d (List.mem_append_right x hd)) ho hz hr
    · cases x with
      | nil =>
        rw [heq] at hr
        exact not_isReference_of_isPlain hb ho hz hr
      | cons d x =>
        obtain ⟨rfl, -⟩ := List.cons.inj heq
        have hword : ∀ c ∈ pragmaWord, ¬(isBlank c = true ∨ c = '/') :=
          List.all_iff_forall_prop.1 (by decide)
        refine hword c ?_ (head_of_isReference hr)
        rw [hx]
        simp

namespace Settled

variable {ps : List Part}

/-- The pragma of the new text is that of the old one. -/
theorem pragma (h : Settled ps) (pos pos' : Nat) : List.Forall₂ (Alike pos pos' ps)
    (pragmaFrom pos (before ps)).toList (pragmaFrom pos' (after ps)).toList := by
  induction h generalizing pos pos' with
  | nil => exact .nil
  | @kept c ps hps ih =>
    by_cases hp : ∃ b v rest, IsPragma b v rest (before (.kept c :: ps))
    · obtain ⟨b, v, rest, hp⟩ := hp
      obtain ⟨vs, ws, hparts, rfl, hp'⟩ := (hps.kept c).exists_value hp
      rw [pragmaFrom_of_isPragma hp, pragmaFrom_of_isPragma hp']
      exact .cons ⟨_, vs, ws, hparts, by simp, by simp⟩ .nil
    · have hp' := mt (hps.kept c).exists_isPragma_iff.2 hp
      have hnext := (pragmaFrom_cases pos c (before ps)).resolve_left hp
      have hnext' := (pragmaFrom_cases pos' c (after ps)).resolve_left hp'
      rw [before_kept, after_kept, hnext, hnext']
      rw [← Utf8.width_singleton]
      exact forall₂_alike [.kept c] rfl (ih _ _)
  | @quoted q q' o n ps hq hq' ho hn hps ih =>
    have hold := pragmaFrom_quoted hq hq' ho pos (before ps)
    have hnew := pragmaFrom_quoted hq hq' hn pos' (after ps)
    simp only [before_kept, after_kept, before_moved, after_moved, ← List.cons_append] at ih ⊢
    rw [hold, hnew]
    exact forall₂_alike [.kept q, .moved o n] rfl (by simpa using ih _ _)
  | @value b o n ps qs hqs hbne hb ho hn hends hps ih =>
    subst hqs
    have hold : IsPragma b o (before ps)
        (before ((pragmaWord ++ b).map .kept ++ .moved o n :: ps)) :=
      ⟨by simp, hb, hbne, fun c hc => (ho.of_mem hc).1, ho.ne, hends⟩
    have hnew : IsPragma b n (after ps)
        (after ((pragmaWord ++ b).map .kept ++ .moved o n :: ps)) :=
      ⟨by simp, hb, hbne, fun c hc => (hn.of_mem hc).1, hn.ne, hps.head? ▸ hends⟩
    rw [pragmaFrom_of_isPragma hold, pragmaFrom_of_isPragma hnew]
    exact .cons ⟨(pragmaWord ++ b).map .kept, [.moved o n], ps, rfl, by simp, by simp⟩ .nil

/-- **main theorem**: the references of the new text are those of the old one. -/
theorem references (h : Settled ps) (named : Attribute) (lineStart : Bool) (pos pos' : Nat) :
    List.Forall₂ (Alike pos pos' ps) (referencesFrom named 0 lineStart pos (before ps))
      (referencesFrom named 0 lineStart pos' (after ps)) := by
  induction hlen : ps.length using Nat.strongRecOn generalizing ps lineStart pos pos' with
  | _ size ih =>
    cases h with
    | nil => exact .nil
    | @kept c ps hps =>
      by_cases hr : lineStart = true ∧
        ∃ lead v b rest, IsReference named lead v b rest (before (.kept c :: ps))
      · obtain ⟨rfl, lead, v, b, rest, hr⟩ := hr
        obtain ⟨vs, rs, hparts, rfl, rfl, hrs, hr'⟩ := (hps.kept c).exists_reference hr
        rw [referencesFrom_of_isReference hr, referencesFrom_of_isReference hr']
        refine .cons ⟨_, vs, _, hparts, by simp, by simp⟩ ?_
        have hsize : rs.length < size := by
          rw [← hlen, hparts]
          simp only [List.length_append, List.length_map, List.length_cons]
          omega
        have hsplit : .kept c :: ps =
            lead.map .kept ++ (vs ++ ('"' :: (b ++ "/>".toList)).map .kept) ++ rs := by
          rw [hparts]
          simp
        simpa using forall₂_alike _ hsplit (ih rs.length hsize hrs false _ _ rfl)
      · have hr' : ¬(lineStart = true ∧
            ∃ lead v b rest, IsReference named lead v b rest (after (.kept c :: ps))) := by
          rwa [← (hps.kept c).exists_isReference_iff]
        have hnext := (referencesFrom_cases named lineStart pos c (before ps)).resolve_left hr
        have hnext' := (referencesFrom_cases named lineStart pos' c (after ps)).resolve_left hr'
        rw [before_kept, after_kept, hnext, hnext', ← Utf8.width_singleton]
        exact forall₂_alike [.kept c] rfl (ih ps.length (by rw [← hlen]; simp) hps _ _ _ rfl)
    | @quoted q q' o n ps hq hq' ho hn hps =>
      have hold := referencesFrom_quoted named lineStart hq ho pos (q' :: before ps)
      have hnew := referencesFrom_quoted named lineStart hq hn pos' (q' :: after ps)
      simp only [before_kept, after_kept, before_moved, after_moved, ← List.cons_append]
      rw [hold, hnew]
      refine forall₂_alike [.kept q, .moved o n] rfl ?_
      have := ih (Part.kept q' :: ps).length (by rw [← hlen]; simp) hps false
      simpa using this _ _ rfl
    | @value b o n ps qs hqs hbne hb ho hn hends hps =>
      subst hqs
      have hold := referencesFrom_pragma named lineStart hb ho hends pos
      have hnew := referencesFrom_pragma named lineStart hb hn (hps.head? ▸ hends) pos'
      simp only [before_append, before_map_kept, before_moved, after_append, after_map_kept,
        after_moved, ← List.append_assoc]
      rw [hold, hnew]
      have hsize : ps.length < size := by
        rw [← hlen]
        simp only [List.length_append, List.length_map, List.length_cons]
        omega
      have hsplit : (pragmaWord ++ b).map .kept ++ .moved o n :: ps =
          (pragmaWord ++ b).map .kept ++ [.moved o n] ++ ps := by simp
      simpa using forall₂_alike _ hsplit (ih ps.length hsize hps false _ _ rfl)

end Settled

end ModuleGraph.Directive
