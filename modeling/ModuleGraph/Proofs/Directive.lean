import Mathlib.Data.List.TakeWhile
import ModuleGraph.Directive
import ModuleGraph.Proofs.Utf8
/-!
# Where directives stand

The pragma and the references are found character by character, and their values are given as
ranges of bytes. Each such range begins and ends between characters: the bytes in it are those of
the value.

Results:
* `pragmaAt?_eq_some_iff`, `referenceAt?_eq_some`, `referenceAt?_of_isReference`: what a pragma and
  a reference look like;
* `hasPragma_of_pragma?`, `hasReference_of_references`: what is found stands in the text;
* `bytes_of_stands`, `isText_of_stands`: the bytes of what is found are those of its value, so they
  are a text;
* `pairwise_references`: references share no byte.
-/

namespace ModuleGraph.Directive

/-! ## Letters and white space -/

theorem isAscii_of_isBlank {c : Char} (h : isBlank c = true) : c.toNat < 128 := by
  simp only [isBlank, Bool.or_eq_true, decide_eq_true_eq] at h
  rcases h with ((((rfl | rfl) | rfl) | rfl) | rfl) | rfl <;> decide

theorem afterText?_eq_some_iff {w cs r : List Char} :
    Syntax.Peg.afterText? w cs = some r ↔ cs = w ++ r := by
  induction w generalizing cs with
  | nil => cases cs <;> simp [Syntax.Peg.afterText?]
  | cons t ts ih =>
    cases cs with
    | nil => simp [Syntax.Peg.afterText?]
    | cons c cs =>
      rw [Syntax.Peg.afterText?]
      split
      · next htc => simp [htc, ih]
      · next htc => simp [Ne.symm htc]

/-- The list begins with white space only if it is not empty. -/
def BeginsBlank (cs : List Char) : Prop := ∃ c ∈ cs.head?, isBlank c = true

/-- A run of white space ends where none begins. -/
structure Blanks (b cs : List Char) : Prop where
  all : ∀ c ∈ b, isBlank c = true
  ends : ¬BeginsBlank cs

theorem Blanks.takeWhile {b cs : List Char} (h : Blanks b cs) :
    (b ++ cs).takeWhile isBlank = b := by
  rw [List.takeWhile_append_of_pos h.all]
  cases cs with
  | nil => simp
  | cons c cs =>
    have hc : isBlank c = false := by
      simpa using fun hc => h.ends ⟨c, rfl, hc⟩
    simp [hc]

theorem Blanks.dropWhile {b cs : List Char} (h : Blanks b cs) :
    (b ++ cs).dropWhile isBlank = cs := by
  rw [List.dropWhile_append_of_pos h.all]
  cases cs with
  | nil => simp
  | cons c cs =>
    have hc : isBlank c = false := by
      simpa using fun hc => h.ends ⟨c, rfl, hc⟩
    simp [hc]

theorem not_beginsBlank_cons {c : Char} (hc : isBlank c = false) (cs : List Char) :
    ¬BeginsBlank (c :: cs) := by
  rintro ⟨d, hd, hblank⟩
  obtain rfl : c = d := by simpa using hd
  rw [hc] at hblank
  cases hblank

/-! ## The pragma -/

/-- The characters are the word of the pragma, white space, a value, and what follows it. -/
structure IsPragma (b v rest cs : List Char) : Prop where
  eq : cs = pragmaWord ++ (b ++ (v ++ rest))
  blank : ∀ c ∈ b, isBlank c = true
  blank_ne : b ≠ []
  value : ∀ c ∈ v, isBlank c = false
  value_ne : v ≠ []
  ends : ∀ c ∈ rest.head?, isBlank c = true

theorem pragmaAt?_eq_some_iff {pos : Nat} {cs : List Char} {f : Found} :
    pragmaAt? pos cs = some f ↔ ∃ b v rest, IsPragma b v rest cs ∧
      f = ⟨pos + pragmaWord.length + b.length,
        pos + pragmaWord.length + b.length + Utf8.width v, .ofList v⟩ := by
  unfold pragmaAt?
  simp only [Option.bind_eq_bind, Option.bind_eq_some_iff]
  constructor
  · rintro ⟨r, hr, h⟩
    split at h
    · cases h
    · next hne =>
      simp only [Bool.or_eq_true, List.isEmpty_iff, not_or] at hne
      cases h
      refine ⟨r.takeWhile isBlank, (r.dropWhile isBlank).takeWhile fun c => !isBlank c,
        (r.dropWhile isBlank).dropWhile fun c => !isBlank c, ⟨?_, ?_, hne.1, ?_, hne.2, ?_⟩, rfl⟩
      · rw [List.takeWhile_append_dropWhile, List.takeWhile_append_dropWhile]
        exact afterText?_eq_some_iff.1 hr
      · exact fun c hc => List.mem_takeWhile_imp hc
      · exact fun c hc => by simpa using List.mem_takeWhile_imp hc
      · intro c hc
        have := List.head?_dropWhile_not (fun c => !isBlank c) (r.dropWhile isBlank)
        rw [hc] at this
        simpa using this
  · rintro ⟨b, v, rest, ⟨rfl, hb, hbne, hv, hvne, hends⟩, rfl⟩
    have hrun : Blanks b (v ++ rest) := by
      refine ⟨hb, ?_⟩
      cases v with
      | nil => exact absurd rfl hvne
      | cons c v => exact not_beginsBlank_cons (hv c List.mem_cons_self) _
    have hvalue : (v ++ rest).takeWhile (fun c => !isBlank c) = v := by
      rw [List.takeWhile_append_of_pos fun c hc => by simp [hv c hc]]
      cases rest with
      | nil => simp
      | cons c rest => simp [hends c rfl]
    refine ⟨_, afterText?_eq_some_iff.2 rfl, ?_⟩
    rw [hrun.takeWhile, hrun.dropWhile, hvalue]
    simp [hbne, hvne]

theorem width_lead {b : List Char} (hb : ∀ c ∈ b, isBlank c = true) :
    Utf8.width (pragmaWord ++ b) = pragmaWord.length + b.length := by
  have hword : Utf8.width pragmaWord = pragmaWord.length := by decide
  rw [Utf8.width_append, hword, Utf8.width_ascii fun c hc => isAscii_of_isBlank (hb c hc)]

/-- A pragma is found where it stands. -/
theorem pragmaFrom_of_isPragma {b v rest cs : List Char} (h : IsPragma b v rest cs) (pos : Nat) :
    pragmaFrom pos cs = some ⟨pos + Utf8.width (pragmaWord ++ b),
      pos + Utf8.width (pragmaWord ++ b) + Utf8.width v, .ofList v⟩ := by
  have hat : pragmaAt? pos cs = some _ := pragmaAt?_eq_some_iff.2 ⟨b, v, rest, h, rfl⟩
  rw [width_lead h.blank, ← Nat.add_assoc pos]
  cases cs with
  | nil => cases h.eq
  | cons c r => rw [pragmaFrom, hat]

/-- Where no pragma stands, the first one is that from the next character on. -/
theorem pragmaFrom_cases (pos : Nat) (c : Char) (r : List Char) :
    (∃ b v rest, IsPragma b v rest (c :: r)) ∨
      pragmaFrom pos (c :: r) = pragmaFrom (pos + c.utf8Size) r := by
  rw [pragmaFrom]
  cases hat : pragmaAt? pos (c :: r) with
  | none => exact .inr rfl
  | some f =>
    obtain ⟨b, v, rest, h, -⟩ := pragmaAt?_eq_some_iff.1 hat
    exact .inl ⟨b, v, rest, h⟩

/-! ## References -/

/-- What stands before the value of a reference. -/
structure Attribute.IsLead (named : Attribute) (b₁ b₂ b₃ lead : List Char) : Prop where
  eq : lead = b₁ ++ ("///".toList ++ (b₂ ++ ("<reference".toList ++ (b₃ ++ named.opening))))
  blank₁ : ∀ c ∈ b₁, isBlank c = true
  blank₂ : ∀ c ∈ b₂, isBlank c = true
  blank₃ : ∀ c ∈ b₃, isBlank c = true
  blank₃_ne : b₃ ≠ []

/-- The characters are a reference and what follows it. -/
structure IsReference (named : Attribute) (lead v b rest cs : List Char) : Prop where
  eq : cs = lead ++ (v ++ ('"' :: (b ++ ("/>".toList ++ rest))))
  lead : ∃ b₁ b₂ b₃, named.IsLead b₁ b₂ b₃ lead
  value : '"' ∉ v
  value_ne : v ≠ []
  blank : ∀ c ∈ b, isBlank c = true

theorem afterText?_dropWhile_eq_some {w cs r : List Char}
    (h : Syntax.Peg.afterText? w (cs.dropWhile isBlank) = some r) :
    ∃ b, cs = b ++ (w ++ r) ∧ ∀ c ∈ b, isBlank c = true := by
  refine ⟨cs.takeWhile isBlank, ?_, fun c hc => List.mem_takeWhile_imp hc⟩
  rw [← afterText?_eq_some_iff.1 h, List.takeWhile_append_dropWhile]

theorem afterText?_dropWhile {w b : List Char} (r : List Char) (hb : ∀ c ∈ b, isBlank c = true)
    (hw : ¬BeginsBlank (w ++ r)) :
    Syntax.Peg.afterText? w ((b ++ (w ++ r)).dropWhile isBlank) = some r := by
  rw [Blanks.dropWhile ⟨hb, hw⟩]
  exact afterText?_eq_some_iff.2 rfl

theorem drop_length_takeWhile (p : Char → Bool) (cs : List Char) :
    cs.drop (cs.takeWhile p).length = cs.dropWhile p := by
  induction cs with
  | nil => rfl
  | cons c cs ih => by_cases hc : p c <;> simp [hc, ih]

theorem take_length_sub (a b : List Char) : (a ++ b).take ((a ++ b).length - b.length) = a := by
  simp

theorem referenceAt?_eq_some {named : Attribute} {pos n : Nat} {cs : List Char} {f : Found}
    (h : referenceAt? named pos cs = some (f, n)) :
    ∃ lead v b rest, IsReference named lead v b rest cs ∧ n + rest.length = cs.length ∧
      f = ⟨pos + Utf8.width lead, pos + Utf8.width lead + Utf8.width v, .ofList v⟩ := by
  unfold referenceAt? at h
  simp only [Option.bind_eq_bind, Option.bind_eq_some_iff] at h
  obtain ⟨r₁, hr₁, r₂, hr₂, h⟩ := h
  by_cases hblanks : (r₂.takeWhile isBlank).isEmpty = true
  · rw [if_pos hblanks] at h
    cases h
  rw [if_neg hblanks, Option.bind_eq_some_iff] at h
  obtain ⟨r₃, hr₃, h⟩ := h
  by_cases hvalue : (r₃.takeWhile (· ≠ '"')).isEmpty = true
  · rw [if_pos hvalue] at h
    cases h
  rw [if_neg hvalue, Option.bind_eq_some_iff] at h
  obtain ⟨r₄, hr₄, h⟩ := h
  obtain ⟨r₅, hr₅, h⟩ := Option.bind_eq_some_iff.1 h
  cases h
  obtain ⟨b₁, hcs, hb₁⟩ := afterText?_dropWhile_eq_some hr₁
  obtain ⟨b₂, rfl, hb₂⟩ := afterText?_dropWhile_eq_some hr₂
  obtain ⟨b, rfl, hb⟩ := afterText?_dropWhile_eq_some hr₅
  have hr₂ : r₂ = r₂.takeWhile isBlank ++ (named.opening ++ r₃) := by
    rw [← afterText?_eq_some_iff.1 hr₃, List.takeWhile_append_dropWhile]
  have hr₃ : r₃ = r₃.takeWhile (· ≠ '"') ++ '"' :: (b ++ ("/>".toList ++ r₅)) := by
    have hdrop := afterText?_eq_some_iff.1 hr₄
    rw [List.singleton_append] at hdrop
    rw [← hdrop, drop_length_takeWhile, List.takeWhile_append_dropWhile]
  have hlead : cs = b₁ ++ ("///".toList ++ (b₂ ++ ("<reference".toList ++
      (r₂.takeWhile isBlank ++ named.opening)))) ++ r₃ := by
    simp only [List.append_assoc]
    rw [← hr₂]
    exact hcs
  have hlen : r₅.length ≤ cs.length := by
    rw [hlead, hr₃]
    simp only [List.length_append, List.length_cons]
    omega
  refine ⟨_, r₃.takeWhile (· ≠ '"'), b, r₅, ⟨?_, ⟨b₁, b₂, r₂.takeWhile isBlank, rfl, hb₁, hb₂,
    fun c hc => List.mem_takeWhile_imp hc, by simpa using hblanks⟩, fun hc => ?_,
    by simpa using hvalue, hb⟩, Nat.sub_add_cancel hlen, ?_⟩
  · rw [← hr₃]
    exact hlead
  · simpa using List.mem_takeWhile_imp hc
  · rw [hlead, take_length_sub]

/-- A reference is found where it stands. -/
theorem referenceAt?_of_isReference {named : Attribute} {lead v b rest cs : List Char}
    (h : IsReference named lead v b rest cs) (pos : Nat) :
    referenceAt? named pos cs = some
      (⟨pos + Utf8.width lead, pos + Utf8.width lead + Utf8.width v, .ofList v⟩,
        cs.length - rest.length) := by
  obtain ⟨hcs, ⟨b₁, b₂, b₃, hlead, hb₁, hb₂, hb₃, hb₃ne⟩, hv, hvne, hb⟩ := h
  -- What is left of the characters behind each of the parts of a reference.
  obtain ⟨r₄, hr₄⟩ : ∃ r, r = b ++ ("/>".toList ++ rest) := ⟨_, rfl⟩
  obtain ⟨r₃, hr₃⟩ : ∃ r, r = v ++ '"' :: r₄ := ⟨_, rfl⟩
  obtain ⟨r₂, hr₂⟩ : ∃ r, r = b₃ ++ (named.opening ++ r₃) := ⟨_, rfl⟩
  obtain ⟨r₁, hr₁⟩ : ∃ r, r = b₂ ++ ("<reference".toList ++ r₂) := ⟨_, rfl⟩
  have hcs₁ : cs = b₁ ++ ("///".toList ++ r₁) := by
    rw [hcs, hlead, hr₁, hr₂, hr₃, hr₄]
    simp only [List.append_assoc]
  have hcs₃ : cs = lead ++ r₃ := by rw [hcs, hr₃, hr₄]
  have hrun : Blanks b₃ (named.opening ++ r₃) := by
    refine ⟨hb₃, ?_⟩
    cases named
    · exact not_beginsBlank_cons rfl _
    · exact not_beginsBlank_cons rfl _
  have hvalue : r₃.takeWhile (· ≠ '"') = v := by
    rw [hr₃, List.takeWhile_append_of_pos fun c hc => by simpa using ne_of_mem_of_not_mem hc hv]
    simp
  have hdrop : r₃.drop v.length = ['"'] ++ r₄ := by
    rw [hr₃, List.drop_left, List.singleton_append]
  have hs₁ : Syntax.Peg.afterText? "///".toList (cs.dropWhile isBlank) = some r₁ := by
    rw [hcs₁]
    exact afterText?_dropWhile _ hb₁ (not_beginsBlank_cons rfl _)
  have hs₂ : Syntax.Peg.afterText? "<reference".toList (r₁.dropWhile isBlank) = some r₂ := by
    rw [hr₁]
    exact afterText?_dropWhile _ hb₂ (not_beginsBlank_cons rfl _)
  have hs₃ : Syntax.Peg.afterText? named.opening (r₂.dropWhile isBlank) = some r₃ := by
    rw [hr₂, hrun.dropWhile, afterText?_eq_some_iff]
  have hs₄ : Syntax.Peg.afterText? ['"'] (r₃.drop v.length) = some r₄ :=
    afterText?_eq_some_iff.2 hdrop
  have hs₅ : Syntax.Peg.afterText? "/>".toList (r₄.dropWhile isBlank) = some rest := by
    rw [hr₄]
    exact afterText?_dropWhile _ hb (not_beginsBlank_cons rfl _)
  have hblanks : ¬(r₂.takeWhile isBlank).isEmpty = true := by
    rw [hr₂, hrun.takeWhile]
    simpa using hb₃ne
  unfold referenceAt?
  simp only [Option.bind_eq_bind, hs₁, hs₂, hs₃, Option.bind_some, if_neg hblanks, hvalue]
  rw [if_neg (by simpa using hvne), hs₄, Option.bind_some, hs₅, Option.bind_some, hcs₃,
    take_length_sub]
  rfl

theorem length_of_isReference {named : Attribute} {lead v b rest cs : List Char}
    (h : IsReference named lead v b rest cs) : rest.length < cs.length := by
  rw [h.eq]
  simp only [List.length_append, List.length_cons]
  omega

/-- A line begins behind the characters; `lineStart` tells that one begins before them. -/
def lineAfter (lineStart : Bool) : List Char → Bool
  | [] => lineStart
  | c :: r => lineAfter (c = '\n') r

theorem lineAfter_append (lineStart : Bool) (a b : List Char) :
    lineAfter lineStart (a ++ b) = lineAfter (lineAfter lineStart a) b := by
  induction a generalizing lineStart with
  | nil => rfl
  | cons c a ih => exact ih _

/-- The characters that belong to a reference are passed over. -/
theorem referencesFrom_skip (named : Attribute) (lineStart : Bool) (pos : Nat)
    (u w : List Char) : referencesFrom named u.length lineStart pos (u ++ w) =
      referencesFrom named 0 (lineAfter lineStart u) (pos + Utf8.width u) w := by
  induction u generalizing lineStart pos with
  | nil => rfl
  | cons c u ih =>
    rw [List.length_cons, List.cons_append, referencesFrom, ih, Utf8.width_cons, Nat.add_assoc,
      lineAfter]

/-- The references from the beginning of a line on: the one that stands there, then those behind
it. -/
theorem referencesFrom_of_isReference {named : Attribute} {lead v b rest cs : List Char}
    (h : IsReference named lead v b rest cs) (pos : Nat) :
    referencesFrom named 0 true pos cs =
      ⟨pos + Utf8.width lead, pos + Utf8.width lead + Utf8.width v, .ofList v⟩ ::
        referencesFrom named 0 false
          (pos + Utf8.width (lead ++ (v ++ '"' :: (b ++ "/>".toList)))) rest := by
  have hfound := referenceAt?_of_isReference h pos
  have hcs : cs = lead ++ (v ++ '"' :: (b ++ "/>".toList)) ++ rest := by
    rw [h.eq]
    simp
  have hlast : lineAfter true (lead ++ (v ++ '"' :: (b ++ "/>".toList))) = false := by
    rw [lineAfter_append, lineAfter_append, lineAfter, lineAfter_append]
    rfl
  obtain ⟨c, u, hu⟩ : ∃ c u, lead ++ (v ++ '"' :: (b ++ "/>".toList)) = c :: u :=
    List.exists_cons_of_ne_nil (by simp)
  rw [hu] at hcs hlast ⊢
  rw [lineAfter] at hlast
  have hlen : cs.length - rest.length - 1 = u.length := by
    rw [hcs]
    simp only [List.length_append, List.length_cons]
    omega
  rw [hcs, List.cons_append] at hfound hlen
  rw [hcs, List.cons_append, referencesFrom]
  simp only [if_true, hfound, hlen]
  rw [referencesFrom_skip, hlast, Utf8.width_cons, Nat.add_assoc pos c.utf8Size]

/-- Where no reference stands, the references are those from the next character on. -/
theorem referencesFrom_cases (named : Attribute) (lineStart : Bool) (pos : Nat) (c : Char)
    (r : List Char) :
    (lineStart = true ∧ ∃ lead v b rest, IsReference named lead v b rest (c :: r)) ∨
      referencesFrom named 0 lineStart pos (c :: r) =
        referencesFrom named 0 (c = '\n') (pos + c.utf8Size) r := by
  rw [referencesFrom]
  cases hat : (if lineStart then referenceAt? named pos (c :: r) else none) with
  | none => exact .inr rfl
  | some found =>
    left
    split at hat
    · next hline =>
      obtain ⟨lead, v, b, rest, h, -⟩ := referenceAt?_eq_some hat
      exact ⟨hline, lead, v, b, rest, h⟩
    · cases hat

/-! ## Where they stand -/

/-- What is found stands in the characters, which begin at byte `pos`. -/
def Stands (pos : Nat) (cs : List Char) (f : Found) : Prop :=
  ∃ a v b, cs = a ++ (v ++ b) ∧ v ≠ [] ∧
    f = ⟨pos + Utf8.width a, pos + Utf8.width a + Utf8.width v, .ofList v⟩

theorem Stands.bounds {pos : Nat} {cs : List Char} {f : Found} (h : Stands pos cs f) :
    pos ≤ f.start ∧ f.start < f.stop ∧ f.stop ≤ pos + Utf8.width cs := by
  obtain ⟨a, v, b, rfl, hv, rfl⟩ := h
  have hpos : 0 < Utf8.width v := by
    cases v with
    | nil => exact absurd rfl hv
    | cons c v =>
      have := c.utf8Size_pos
      rw [Utf8.width_cons]
      omega
  simp only [Utf8.width_append]
  omega

/-- A pragma stands in the characters, which begin at byte `pos`; its value is found. -/
def HasPragma (pos : Nat) (cs : List Char) (f : Found) : Prop :=
  ∃ u b v rest cs', cs = u ++ cs' ∧ IsPragma b v rest cs' ∧
    f = ⟨pos + Utf8.width (u ++ (pragmaWord ++ b)),
      pos + Utf8.width (u ++ (pragmaWord ++ b)) + Utf8.width v, .ofList v⟩

theorem HasPragma.stands {pos : Nat} {cs : List Char} {f : Found} (h : HasPragma pos cs f) :
    Stands pos cs f := by
  obtain ⟨u, b, v, rest, cs', rfl, hp, rfl⟩ := h
  exact ⟨u ++ (pragmaWord ++ b), v, rest, by simp [hp.eq], hp.value_ne, rfl⟩

theorem hasPragma_of_pragmaFrom {pos : Nat} {cs : List Char} {f : Found}
    (h : pragmaFrom pos cs = some f) : HasPragma pos cs f := by
  induction cs generalizing pos with
  | nil => cases h
  | cons c r ih =>
    rcases pragmaFrom_cases pos c r with ⟨b, v, rest, hp⟩ | hnext
    · rw [pragmaFrom_of_isPragma hp] at h
      cases h
      exact ⟨[], b, v, rest, _, rfl, hp, rfl⟩
    · rw [hnext] at h
      obtain ⟨u, b, v, rest, cs', rfl, hp, rfl⟩ := ih h
      refine ⟨c :: u, b, v, rest, cs', rfl, hp, ?_⟩
      rw [List.cons_append, Utf8.width_cons, Nat.add_assoc pos]

/-- The pragma that is found stands in the text. -/
theorem hasPragma_of_pragma? {text : String} {f : Found} (h : pragma? text = some f) :
    HasPragma 0 text.toList f :=
  hasPragma_of_pragmaFrom h

/-- The value of the pragma that is found stands in the text. -/
theorem stands_of_pragma? {text : String} {f : Found} (h : pragma? text = some f) :
    Stands 0 text.toList f :=
  (hasPragma_of_pragma? h).stands

/-- A reference stands in the characters, which begin at byte `pos`; its value is found. -/
def HasReference (named : Attribute) (pos : Nat) (cs : List Char) (f : Found) : Prop :=
  ∃ u lead v b rest cs', cs = u ++ cs' ∧ IsReference named lead v b rest cs' ∧
    f = ⟨pos + Utf8.width (u ++ lead), pos + Utf8.width (u ++ lead) + Utf8.width v, .ofList v⟩

theorem HasReference.stands {named : Attribute} {pos : Nat} {cs : List Char} {f : Found}
    (h : HasReference named pos cs f) : Stands pos cs f := by
  obtain ⟨u, lead, v, b, rest, cs', rfl, hr, rfl⟩ := h
  exact ⟨u ++ lead, v, _, by rw [hr.eq, List.append_assoc], hr.value_ne, rfl⟩

/-- A reference in the rest of a text is a reference in the text. -/
theorem HasReference.after {named : Attribute} {pos : Nat} {u cs : List Char} {f : Found}
    (h : HasReference named (pos + Utf8.width u) cs f) : HasReference named pos (u ++ cs) f := by
  obtain ⟨u', lead, v, b, rest, cs', rfl, hr, rfl⟩ := h
  refine ⟨u ++ u', lead, v, b, rest, cs', by rw [List.append_assoc], hr, ?_⟩
  rw [List.append_assoc, Utf8.width_append u, Nat.add_assoc pos]

/-- What is found stands in the text, one reference behind the other. -/
theorem referencesFrom_spec (named : Attribute) (lineStart : Bool) (pos : Nat) (cs : List Char) :
    (∀ f ∈ referencesFrom named 0 lineStart pos cs, HasReference named pos cs f) ∧
      (referencesFrom named 0 lineStart pos cs).Pairwise fun f g => f.stop ≤ g.start := by
  induction hn : cs.length using Nat.strongRecOn generalizing lineStart pos cs with
  | _ n ih =>
    cases cs with
    | nil => simp [referencesFrom]
    | cons c r =>
      rcases referencesFrom_cases named lineStart pos c r with
        ⟨rfl, lead, v, b, rest, h⟩ | hnext
      · obtain ⟨u, hu⟩ : ∃ u, u = lead ++ (v ++ '"' :: (b ++ "/>".toList)) := ⟨_, rfl⟩
        have hcs : c :: r = u ++ rest := by
          rw [h.eq, hu]
          simp
        have hstop : pos + Utf8.width lead + Utf8.width v ≤ pos + Utf8.width u := by
          rw [hu, Utf8.width_append, Utf8.width_append]
          omega
        obtain ⟨hhas, hpairs⟩ :=
          ih rest.length (hn ▸ length_of_isReference h) false (pos + Utf8.width u) rest rfl
        rw [referencesFrom_of_isReference h pos, ← hu, List.forall_mem_cons, List.pairwise_cons]
        refine ⟨⟨⟨[], lead, v, b, rest, _, rfl, h, rfl⟩, fun f hf => ?_⟩, fun f hf => ?_, hpairs⟩
        · rw [hcs]
          exact (hhas f hf).after
        · exact hstop.trans (hhas f hf).stands.bounds.1
      · obtain ⟨hhas, hpairs⟩ :=
          ih r.length (by rw [← hn]; simp) (c = '\n') (pos + Utf8.width [c]) r rfl
        rw [hnext, ← Utf8.width_singleton c]
        exact ⟨fun f hf => (hhas f hf).after, hpairs⟩

/-- The references that are found stand in the text. -/
theorem hasReference_of_references {named : Attribute} {text : String} {f : Found}
    (h : f ∈ references named text) : HasReference named 0 text.toList f :=
  (referencesFrom_spec named true 0 text.toList).1 f h

/-- The values of the references that are found stand in the text. -/
theorem stands_of_references {named : Attribute} {text : String} {f : Found}
    (h : f ∈ references named text) : Stands 0 text.toList f :=
  (hasReference_of_references h).stands

/-- References share no byte. -/
theorem pairwise_references (named : Attribute) (text : String) :
    (references named text).Pairwise fun f g => f.stop ≤ g.start :=
  (referencesFrom_spec named true 0 text.toList).2

/-! ## The bytes of what is found -/

/-- The bytes of what is found are those of its value. -/
theorem bytes_of_stands {text : String} {f : Found} (h : Stands 0 text.toList f) :
    ((Utf8.encode text).take f.stop).drop f.start = Utf8.encode f.value := by
  obtain ⟨a, v, b, htext, -, rfl⟩ := h
  simp only [Nat.zero_add]
  rw [Utf8.encode_eq, htext, Utf8.drop_take_encodeChars, Utf8.encode_eq, String.toList_ofList]

/-- The bytes of what is found are a text. -/
theorem isText_of_stands {text : String} {f : Found} (h : Stands 0 text.toList f) :
    Utf8.IsText (((Utf8.encode text).take f.stop).drop f.start) :=
  bytes_of_stands h ▸ Utf8.isText_encode f.value

end ModuleGraph.Directive
