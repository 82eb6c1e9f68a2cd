import Mathlib.Data.Bool.AllAny
import ModuleGraph.Proofs.Directive
/-!
# Texts in which stretches gave way

A text and what becomes of it are told side by side as a list of parts: a character that is kept, or
a stretch that gives way to another one. Each stretch stands between quotes, or it is the value of
the pragma.

Stretches are plain: nothing in them ends or escapes the place where they stand, and they begin
neither a reference nor the end of one.

Results:
* `Settled.exists_kept`, `Settled.head?`: both texts begin alike;
* `Settled.swap`: the parts may be read the other way round;
* `Settled.kept_run`, `Settled.of_append`: what is left of the parts behind some of them.
-/

namespace ModuleGraph.Directive

/-! ## Plain stretches -/

/-- A quote. -/
def IsQuote (c : Char) : Prop := c = '"' ∨ c = '\''

instance (c : Char) : Decidable (IsQuote c) := inferInstanceAs (Decidable (c = '"' ∨ c = '\''))

/-- A character that neither ends nor escapes a value. -/
def isPlainChar (c : Char) : Bool := !isBlank c && c ≠ '"' && c ≠ '\'' && c ≠ '\\'

/-- The characters stay inside the place that they are written to. -/
structure IsPlain (cs : List Char) : Prop where
  ne : cs ≠ []
  inside : cs.all isPlainChar = true
  not_reference : ¬"///".toList <+: cs
  not_end : ¬"/>".toList <+: cs

instance (cs : List Char) : Decidable (IsPlain cs) :=
  decidable_of_iff (cs ≠ [] ∧ cs.all isPlainChar = true ∧ ¬"///".toList <+: cs ∧
    ¬"/>".toList <+: cs)
    ⟨fun ⟨h₁, h₂, h₃, h₄⟩ => ⟨h₁, h₂, h₃, h₄⟩, fun ⟨h₁, h₂, h₃, h₄⟩ => ⟨h₁, h₂, h₃, h₄⟩⟩

theorem IsPlain.of_mem {cs : List Char} (h : IsPlain cs) {c : Char} (hc : c ∈ cs) :
    isBlank c = false ∧ c ≠ '"' ∧ c ≠ '\'' ∧ c ≠ '\\' := by
  simpa [isPlainChar, and_assoc] using List.all_eq_true.1 h.inside c hc

theorem isBlank_eq_false_of_isQuote {q : Char} (h : IsQuote q) : isBlank q = false := by
  rcases h with rfl | rfl <;> rfl

theorem IsPlain.not_isQuote {cs : List Char} (h : IsPlain cs) {c : Char} (hc : c ∈ cs) :
    ¬IsQuote c := by
  rintro (hq | hq)
  · exact (h.of_mem hc).2.1 hq
  · exact (h.of_mem hc).2.2.1 hq

theorem IsPlain.isPlainChar {cs : List Char} (h : IsPlain cs) {c : Char} (hc : c ∈ cs) :
    isPlainChar c = true :=
  List.all_eq_true.1 h.inside c hc

theorem isPlainChar_eq_false_of_isQuote {q : Char} (h : IsQuote q) : isPlainChar q = false := by
  rcases h with rfl | rfl <;> rfl

theorem isPlainChar_of_mem_pragmaWord : ∀ c ∈ pragmaWord, isPlainChar c = true :=
  List.all_eq_true.1 (by decide)

theorem pragmaWord_eq : pragmaWord = '@' :: pragmaWord.tail := by decide

theorem of_mem_tail_pragmaWord : ∀ c ∈ pragmaWord.tail, ¬IsQuote c ∧ c ≠ '@' :=
  List.all_iff_forall_prop.1 (by decide)

/-! ## Parts of a text -/

/-- A part of a text: a character that is kept, or a stretch and what it gives way to. -/
inductive Part where
  | kept (c : Char)
  | moved (old new : List Char)

/-- The characters of a part in the old text. -/
def Part.old : Part → List Char
  | kept c => [c]
  | moved old _ => old

/-- The characters of a part in the new text. -/
def Part.new : Part → List Char
  | kept c => [c]
  | moved _ new => new

/-- The part, the other way round. -/
def Part.swap : Part → Part
  | kept c => kept c
  | moved old new => moved new old

/-- The old text. -/
def before (ps : List Part) : List Char := ps.flatMap Part.old

/-- The new text. -/
def after (ps : List Part) : List Char := ps.flatMap Part.new

@[simp] theorem before_nil : before [] = [] := rfl

@[simp] theorem after_nil : after [] = [] := rfl

@[simp] theorem before_kept (c : Char) (ps : List Part) :
    before (.kept c :: ps) = c :: before ps := rfl

@[simp] theorem after_kept (c : Char) (ps : List Part) : after (.kept c :: ps) = c :: after ps := rfl

@[simp] theorem before_moved (o n : List Char) (ps : List Part) :
    before (.moved o n :: ps) = o ++ before ps := rfl

@[simp] theorem after_moved (o n : List Char) (ps : List Part) :
    after (.moved o n :: ps) = n ++ after ps := rfl

@[simp] theorem before_append (ps qs : List Part) :
    before (ps ++ qs) = before ps ++ before qs := List.flatMap_append

@[simp] theorem after_append (ps qs : List Part) : after (ps ++ qs) = after ps ++ after qs :=
  List.flatMap_append

@[simp] theorem before_map_kept (cs : List Char) : before (cs.map .kept) = cs := by
  induction cs with
  | nil => rfl
  | cons c cs ih => rw [List.map_cons, before_kept, ih]

@[simp] theorem after_map_kept (cs : List Char) : after (cs.map .kept) = cs := by
  induction cs with
  | nil => rfl
  | cons c cs ih => rw [List.map_cons, after_kept, ih]

theorem before_map_swap (ps : List Part) : before (ps.map .swap) = after ps := by
  induction ps with
  | nil => rfl
  | cons x ps ih => cases x <;> simp [Part.swap, ih]

theorem after_map_swap (ps : List Part) : after (ps.map .swap) = before ps := by
  induction ps with
  | nil => rfl
  | cons x ps ih => cases x <;> simp [Part.swap, ih]

/-! ## Where stretches stand -/

/-- Every stretch that gives way stands between quotes or is the value of a pragma, and both it and
what it gives way to are plain. -/
inductive Settled : List Part → Prop
  | nil : Settled []
  | kept (c : Char) {ps : List Part} : Settled ps → Settled (.kept c :: ps)
  | quoted {q q' : Char} {o n : List Char} {ps : List Part} : IsQuote q → IsQuote q' →
      IsPlain o → IsPlain n → Settled (.kept q' :: ps) →
      Settled (.kept q :: .moved o n :: .kept q' :: ps)
  | value {b o n : List Char} {ps qs : List Part} :
      qs = (pragmaWord ++ b).map .kept ++ .moved o n :: ps → b ≠ [] → (∀ c ∈ b, isBlank c = true) →
      IsPlain o → IsPlain n → (∀ c ∈ (before ps).head?, isBlank c = true) → Settled ps → Settled qs

/-- What a part puts into the texts is plain, unless it is a character that is kept. -/
def Part.IsPlain : Part → Prop
  | kept _ => True
  | moved o n => Directive.IsPlain o ∧ Directive.IsPlain n

namespace Settled

variable {ps : List Part}

theorem isPlain (h : Settled ps) : ∀ x ∈ ps, x.IsPlain := by
  induction h with
  | nil => simp
  | kept c _ ih => simpa [Part.IsPlain] using ih
  | quoted _ _ ho hn _ ih => simpa [Part.IsPlain, ho, hn] using ih
  | value hqs _ _ ho hn _ _ ih =>
    subst hqs
    intro x hx
    simp only [List.mem_append, List.mem_map, List.mem_cons] at hx
    rcases hx with ⟨c, -, rfl⟩ | rfl | hx
    · trivial
    · exact ⟨ho, hn⟩
    · exact ih x hx

/-- Nothing gives way at the head of the text. -/
theorem head? (h : Settled ps) : (before ps).head? = (after ps).head? := by
  cases h with
  | nil => rfl
  | kept => rfl
  | quoted => rfl
  | value hqs => subst hqs; rfl

theorem exists_kept (h : Settled ps) {c : Char} {cs : List Char} (hps : before ps = c :: cs) :
    ∃ r, ps = .kept c :: r ∧ before r = cs := by
  cases h with
  | nil => cases hps
  | kept d _ =>
    cases hps
    exact ⟨_, rfl, rfl⟩
  | quoted =>
    cases hps
    exact ⟨_, rfl, rfl⟩
  | value hqs =>
    subst hqs
    cases hps
    exact ⟨_, rfl, rfl⟩

theorem swap (h : Settled ps) : Settled (ps.map .swap) := by
  induction h with
  | nil => exact .nil
  | kept c _ ih => exact .kept c ih
  | quoted hq hq' ho hn _ ih => exact .quoted hq hq' hn ho ih
  | @value b o n ps qs hqs hbne hb ho hn hends hps ih =>
    have hqs' : qs.map Part.swap =
        (pragmaWord ++ b).map Part.kept ++ .moved n o :: ps.map Part.swap := by
      subst hqs
      simp [Part.swap, Function.comp_def]
    refine .value hqs' hbne hb hn ho ?_ ih
    rw [before_map_swap, ← hps.head?]
    exact hends

/-- Characters that are no quotes and begin no pragma are kept. -/
theorem kept_run {w z : List Char} (h : Settled ps) (hw : ∀ c ∈ w, ¬IsQuote c ∧ c ≠ '@')
    (hps : before ps = w ++ z) : ∃ r, ps = w.map .kept ++ r ∧ Settled r ∧ before r = z := by
  induction w generalizing ps with
  | nil => exact ⟨ps, rfl, h, hps⟩
  | cons c w ih =>
    obtain ⟨hc, hrest⟩ := List.forall_mem_cons.1 hw
    cases h with
    | nil => cases hps
    | @kept d r hr =>
      obtain ⟨rfl, hcs⟩ := List.cons.inj hps
      obtain ⟨r', rfl, hr', hz⟩ := ih hr hrest hcs
      exact ⟨r', rfl, hr', hz⟩
    | quoted hq =>
      obtain ⟨rfl, -⟩ := List.cons.inj hps
      exact absurd hq hc.1
    | value hqs =>
      subst hqs
      obtain ⟨rfl, -⟩ := List.cons.inj hps
      exact absurd rfl hc.2

/-- What begins at a quote that is kept is settled. -/
theorem of_append {a s : List Part} {q : Char} (hq : IsQuote q)
    (h : Settled (a ++ .kept q :: s)) : Settled (.kept q :: s) := by
  generalize hps : a ++ .kept q :: s = ps at h
  induction h generalizing a with
  | nil => simp at hps
  | @kept c r hr ih =>
    rcases List.append_eq_cons_iff.1 hps with ⟨rfl, heq⟩ | ⟨a', rfl, rfl⟩
    · rw [heq]
      exact .kept c hr
    · exact ih rfl
  | @quoted q₁ q₂ o n r hq₁ hq₂ ho hn hr ih =>
    rcases List.append_eq_cons_iff.1 hps with ⟨rfl, heq⟩ | ⟨a', rfl, hrest⟩
    · rw [heq]
      exact .quoted hq₁ hq₂ ho hn hr
    · rcases List.cons_eq_append_iff.1 hrest with ⟨rfl, heq⟩ | ⟨a'', rfl, hcons⟩
      · cases heq
      · exact ih hcons.symm
  | @value b o n r qs hqs _ hb _ _ _ hr ih =>
    have hnot : ∀ c ∈ pragmaWord ++ b, c ≠ q := by
      rintro c hc rfl
      rcases List.mem_append.1 hc with hc | hc
      · have := isPlainChar_of_mem_pragmaWord c hc
        rw [isPlainChar_eq_false_of_isQuote hq] at this
        cases this
      · have := hb c hc
        rw [isBlank_eq_false_of_isQuote hq] at this
        cases this
    rw [hqs] at hps
    rcases List.append_eq_append_iff.1 hps with ⟨x, hx, heq⟩ | ⟨x, rfl, heq⟩
    · cases x with
      | nil => cases heq
      | cons y x =>
        obtain ⟨rfl, -⟩ := List.cons.inj heq
        have hmem : Part.kept q ∈ (pragmaWord ++ b).map Part.kept := by
          rw [hx]
          simp
        obtain ⟨c, hc, heq⟩ := List.mem_map.1 hmem
        cases heq
        exact absurd rfl (hnot q hc)
    · cases x with
      | nil => cases heq
      | cons y x =>
        obtain ⟨-, rfl⟩ := List.cons.inj heq
        exact ih rfl

end Settled

end ModuleGraph.Directive
