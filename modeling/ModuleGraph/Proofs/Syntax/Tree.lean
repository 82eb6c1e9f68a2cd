import ModuleGraph.Syntax.Tree
/-!
# Ranges in syntax trees

The nodes of a syntax tree stand one after the other in the text, and the children of a node stand
inside it. No string stands inside another one. In such a tree the ranges of the specifiers share no
byte, although a range is found at the node that holds it and not at the string itself.

Results:
* `lt_of_mem_specifierSpans`: the ranges of the specifiers are not empty;
* `specifierSpans_eq`: the walk over a tree visits a node before its children, from left to right;
* `bounds_of_mem_specifierSpans`: the ranges lie between the ends of the tree;
* `pairwise_specifierSpans`: **main theorem**: the ranges of the specifiers share no byte.
-/

namespace ModuleGraph.Syntax.Tree

/-! ## The walk -/

theorem preorder_eq (t : Tree) :
    preorder t = (specifierSpan? t).toList ++ preorderList t.children := by
  cases t
  rfl

theorem preorderList_append (a b : List Tree) :
    preorderList (a ++ b) = preorderList a ++ preorderList b := by
  induction a with
  | nil => rfl
  | cons t a ih => rw [List.cons_append, preorderList, preorderList, ih, List.append_assoc]

theorem walk_eq (stack : List Tree) : walk stack = preorderList stack := by
  fun_induction walk stack with
  | case1 => rfl
  | case2 t rest ih =>
    rw [ih, preorderList_append, preorderList, preorder_eq, List.append_assoc]

/-- The walk over a tree visits a node before its children, from left to right. -/
theorem specifierSpans_eq (root : Tree) : specifierSpans root = preorder root := by
  rw [specifierSpans, walk_eq, preorderList, preorderList, List.append_nil]

theorem lt_of_mem_walk {stack : List Tree} {span : Nat × Nat} (h : span ∈ walk stack) :
    span.1 < span.2 := by
  fun_induction walk stack with
  | case1 => cases h
  | case2 t rest ih =>
    rcases List.mem_append.1 h with h | h
    · simpa using (Option.filter_eq_some_iff.1 (Option.mem_toList.1 h)).2
    · exact ih h

/-- The ranges of the specifiers are not empty. -/
theorem lt_of_mem_specifierSpans {root : Tree} {span : Nat × Nat}
    (h : span ∈ specifierSpans root) : span.1 < span.2 :=
  lt_of_mem_walk h

/-! ## Nodes in their places -/

/-- The trees stand one after the other between two positions, and so do the children of each of
them between the ends of its range. -/
inductive Laid : (lo hi : Nat) → List Tree → Prop
  | nil {lo hi : Nat} : lo ≤ hi → Laid lo hi []
  | cons {lo hi : Nat} {t : Tree} {r : List Tree} : lo ≤ t.start → Laid t.start t.stop t.children →
      Laid t.stop hi r → Laid lo hi (t :: r)

/-- A property of all nodes of the trees. -/
inductive Every (P : Tree → Prop) : List Tree → Prop
  | nil : Every P []
  | cons {t : Tree} {r : List Tree} : P t → Every P t.children → Every P r → Every P (t :: r)

variable {P Q : Tree → Prop} {lo hi : Nat} {t : Tree} {ts us : List Tree}

@[simp]
theorem laid_nil_iff : Laid lo hi [] ↔ lo ≤ hi :=
  ⟨fun h => by cases h; assumption, .nil⟩

@[simp]
theorem laid_cons_iff : Laid lo hi (t :: ts) ↔
    lo ≤ t.start ∧ Laid t.start t.stop t.children ∧ Laid t.stop hi ts :=
  ⟨fun h => by cases h; exact ⟨‹_›, ‹_›, ‹_›⟩, fun h => .cons h.1 h.2.1 h.2.2⟩

@[simp]
theorem every_nil : Every P [] := .nil

@[simp]
theorem every_cons_iff : Every P (t :: ts) ↔ P t ∧ Every P t.children ∧ Every P ts :=
  ⟨fun h => by cases h; exact ⟨‹_›, ‹_›, ‹_›⟩, fun h => .cons h.1 h.2.1 h.2.2⟩

theorem Laid.le (h : Laid lo hi ts) : lo ≤ hi := by
  induction h with
  | nil h => exact h
  | cons hlo _ _ ihc ihr => omega

theorem Laid.mono {lo' hi' : Nat} (h : Laid lo hi ts) (hlo : lo' ≤ lo) (hhi : hi ≤ hi') :
    Laid lo' hi' ts := by
  induction h generalizing lo' with
  | nil h => exact .nil (by omega)
  | cons hs hc _ _ ihr => exact .cons (by omega) hc (ihr (Nat.le_refl _) hhi)

theorem Laid.append {mid : Nat} (h : Laid lo mid ts) (h' : Laid mid hi us) :
    Laid lo hi (ts ++ us) := by
  induction h with
  | nil h => exact h'.mono h (Nat.le_refl _)
  | cons hs hc _ _ ihr => exact .cons hs hc (ihr h')

theorem Laid.of_mem (h : Laid lo hi ts) (ht : t ∈ ts) :
    lo ≤ t.start ∧ Laid t.start t.stop t.children ∧ t.stop ≤ hi := by
  induction h with
  | nil => cases ht
  | cons hs hc hr _ ihr =>
    rcases List.mem_cons.1 ht with rfl | ht
    · exact ⟨hs, hc, hr.le⟩
    · obtain ⟨hlo, hchildren, hhi⟩ := ihr ht
      have := hc.le
      exact ⟨by omega, hchildren, hhi⟩

theorem Every.imp (h : Every P ts) (hpq : ∀ t, P t → Q t) : Every Q ts := by
  induction h with
  | nil => exact .nil
  | cons hp _ _ ihc ihr => exact .cons (hpq _ hp) ihc ihr

theorem Every.append (h : Every P ts) (h' : Every P us) : Every P (ts ++ us) := by
  induction h with
  | nil => exact h'
  | cons hp hc _ _ ihr => exact .cons hp hc ihr

theorem Every.of_mem (h : Every P ts) (ht : t ∈ ts) : P t ∧ Every P t.children := by
  induction h with
  | nil => cases ht
  | cons hp hc _ _ ihr =>
    rcases List.mem_cons.1 ht with rfl | ht
    · exact ⟨hp, hc⟩
    · exact ihr ht

/-! ## Specifiers -/

/-- Two ranges share no byte. -/
def Apart (a b : Nat × Nat) : Prop := a.2 ≤ b.1 ∨ b.2 ≤ a.1

/-- What fills the arguments of a call is a node of that kind. -/
def HasArguments (t : Tree) : Prop :=
  t.kind = "call_expression" → ∀ a, t.childBy? "arguments" = some a → a.kind = "arguments"

/-- No string stands below a string, and what fills the arguments of a call is a node of that
kind. -/
structure IsUntangled (t : Tree) : Prop where
  strings : t.kind = "string" → Every (fun d => d.kind ≠ "string") t.children
  arguments : t.HasArguments

theorem isUntangled_iff : t.IsUntangled ↔
    (t.kind = "string" → Every (fun d => d.kind ≠ "string") t.children) ∧ t.HasArguments :=
  ⟨fun h => ⟨h.strings, h.arguments⟩, fun h => ⟨h.1, h.2⟩⟩

/-- Strings have no parts, and only the arguments of a call fill the field of that name. -/
structure IsFormed (t : Tree) : Prop where
  leaf : t.kind = "string" → t.children = []
  arguments : t.field = some "arguments" → t.kind = "arguments"

theorem mem_of_childBy? {c : Tree} {name : String} (h : t.childBy? name = some c) :
    c ∈ t.children ∧ c.field = some name :=
  ⟨List.mem_of_find?_eq_some h, by simpa using List.find?_some h⟩

theorem hasArguments_of_formed (h : Every IsFormed t.children) : t.HasArguments := by
  intro _ a ha
  obtain ⟨hmem, hfield⟩ := mem_of_childBy? ha
  exact (h.of_mem hmem).1.arguments hfield

/-- Where strings have no parts, none stands inside another one. -/
theorem Every.untangled (h : Every IsFormed ts) : Every IsUntangled ts := by
  induction h with
  | nil => exact .nil
  | cons hp hc _ ihc ihr =>
    refine .cons ⟨fun hkind => ?_, hasArguments_of_formed hc⟩ ihc ihr
    rw [hp.leaf hkind]
    exact .nil

/-- The range of a specifier is the content of a string, which is a child of its statement or a
child of the arguments of its call. -/
theorem mem_of_specifierSpan? {span : Nat × Nat} (h : t.specifierSpan? = some span) :
    (∃ c ∈ t.children, c.contentSpan? = some span) ∨
      t.kind = "call_expression" ∧ ∃ a, t.childBy? "arguments" = some a ∧
        ∃ c ∈ a.children, c.contentSpan? = some span := by
  obtain ⟨h, -⟩ := Option.filter_eq_some_iff.1 h
  obtain ⟨c, hc, hspan⟩ := Option.bind_eq_some_iff.1 h
  unfold specifierNode? at hc
  split at hc
  · exact .inl ⟨c, (mem_of_childBy? hc).1, hspan⟩
  · split at hc
    · next hcall =>
      obtain ⟨callee, -, hc⟩ := Option.bind_eq_some_iff.1 hc
      split at hc
      · cases hc
      · obtain ⟨a, ha, hc⟩ := Option.bind_eq_some_iff.1 hc
        exact .inr ⟨hcall, a, ha, c, List.mem_of_find?_eq_some hc, hspan⟩
    · cases hc

theorem contentSpan?_eq_some_iff {span : Nat × Nat} : t.contentSpan? = some span ↔
    t.kind = "string" ∧ 2 ≤ t.stop - t.start ∧ span = (t.start + 1, t.stop - 1) := by
  unfold contentSpan?
  split
  · next h => simp [h, eq_comm]
  · next h =>
    simp only [reduceCtorEq, false_iff]
    exact fun h' => h ⟨h'.1, h'.2.1⟩

/-- Nodes of other kinds hold no specifier. -/
theorem preorder_of_kind (h : t.kind = "string" ∨ t.kind = "arguments") :
    preorder t = preorderList t.children := by
  have hnone : t.specifierSpan? = none := by
    unfold specifierSpan? specifierNode?
    rcases h with h | h <;> simp [h]
  rw [preorder_eq, hnone]
  rfl

theorem exists_string_of_specifierSpan? (h : Every P t.children) {span : Nat × Nat}
    (hs : t.specifierSpan? = some span) : ∃ c, P c ∧ c.contentSpan? = some span := by
  rcases mem_of_specifierSpan? hs with ⟨c, hmem, hspan⟩ | ⟨-, a, ha, c, hmem, hspan⟩
  · exact ⟨c, (h.of_mem hmem).1, hspan⟩
  · exact ⟨c, ((h.of_mem (mem_of_childBy? ha).1).2.of_mem hmem).1, hspan⟩

theorem exists_string_of_mem (h : Every P ts) {span : Nat × Nat} (hs : span ∈ preorderList ts) :
    ∃ c, P c ∧ c.contentSpan? = some span := by
  induction h with
  | nil => cases hs
  | @cons t r hp hc hr ihc ihr =>
    rw [preorderList, preorder_eq, List.mem_append, List.mem_append, Option.mem_toList] at hs
    rcases hs with (hs | hs) | hs
    · exact exists_string_of_specifierSpan? hc hs
    · exact ihc hs
    · exact ihr hs

/-- Every range found in a tree is the content of a string among its nodes. -/
theorem exists_string_of_mem_specifierSpans (h : Every P t.children) {span : Nat × Nat}
    (hs : span ∈ specifierSpans t) : ∃ c, P c ∧ c.contentSpan? = some span := by
  rw [specifierSpans_eq, preorder_eq, List.mem_append, Option.mem_toList] at hs
  rcases hs with hs | hs
  · exact exists_string_of_specifierSpan? h hs
  · exact exists_string_of_mem h hs

/-- The ranges found in the trees lie between the ends of the trees. -/
theorem bounds_of_mem (h : Laid lo hi ts) {span : Nat × Nat} (hs : span ∈ preorderList ts) :
    lo ≤ span.1 ∧ span.2 ≤ hi := by
  induction h with
  | nil => cases hs
  | @cons lo hi t r hlo hc hr ihc ihr =>
    have hle := hc.le
    have hhi := hr.le
    rw [preorderList, preorder_eq, List.mem_append, List.mem_append, Option.mem_toList] at hs
    rcases hs with (hs | hs) | hs
    · rcases mem_of_specifierSpan? hs with ⟨c, hmem, hspan⟩ | ⟨-, a, ha, c, hmem, hspan⟩
      · obtain ⟨-, -, rfl⟩ := contentSpan?_eq_some_iff.1 hspan
        have := hc.of_mem hmem
        simp only
        omega
      · obtain ⟨-, -, rfl⟩ := contentSpan?_eq_some_iff.1 hspan
        obtain ⟨hlo', hc', hhi'⟩ := hc.of_mem (mem_of_childBy? ha).1
        have := hc'.of_mem hmem
        simp only
        omega
    · have := ihc hs
      omega
    · have := ihr hs
      omega

theorem bounds_of_preorder (h : Laid t.start t.stop t.children) {span : Nat × Nat}
    (hs : span ∈ preorder t) : t.start ≤ span.1 ∧ span.2 ≤ t.stop := by
  have hmem : span ∈ preorderList [t] := by simpa [preorderList] using hs
  exact bounds_of_mem (.cons (Nat.le_refl _) h (.nil (Nat.le_refl _))) hmem

/-- A range inside one of the trees that shares no byte with the ranges found in this tree shares
none with those found in the other trees. -/
theorem apart_preorderList (h : Laid lo hi ts) (ht : t ∈ ts) {span : Nat × Nat}
    (hlo : t.start ≤ span.1) (hhi : span.2 ≤ t.stop) (hap : ∀ s ∈ preorder t, Apart span s) :
    ∀ s ∈ preorderList ts, Apart span s := by
  induction h with
  | nil => cases ht
  | @cons lo hi u r hs hc hr _ ihr =>
    intro s hmem
    rw [preorderList, List.mem_append] at hmem
    rcases List.mem_cons.1 ht with rfl | ht
    · rcases hmem with hmem | hmem
      · exact hap s hmem
      · exact .inl (Nat.le_trans hhi (bounds_of_mem hr hmem).1)
    · rcases hmem with hmem | hmem
      · have hsu := (bounds_of_preorder hc hmem).2
        have htu := (hr.of_mem ht).1
        exact .inr (by omega)
      · exact ihr ht s hmem

/-- Trees without strings hold no ranges. -/
theorem preorderList_eq_nil (h : Every (fun d => d.kind ≠ "string") ts) : preorderList ts = [] := by
  refine List.eq_nil_iff_forall_not_mem.2 fun span hs => ?_
  obtain ⟨c, hc, hspan⟩ := exists_string_of_mem h hs
  exact hc (contentSpan?_eq_some_iff.1 hspan).1

/-- The content of a string shares no byte with the ranges found in the trees among which the string
stands. -/
theorem apart_of_string (h : Laid lo hi ts) (he : Every IsUntangled ts) (ht : t ∈ ts)
    {span : Nat × Nat} (hspan : t.contentSpan? = some span) :
    ∀ s ∈ preorderList ts, Apart span s := by
  obtain ⟨hkind, -, rfl⟩ := contentSpan?_eq_some_iff.1 hspan
  refine apart_preorderList h ht (Nat.le_succ _) (Nat.sub_le _ _) ?_
  rw [preorder_of_kind (.inl hkind), preorderList_eq_nil ((he.of_mem ht).1.strings hkind)]
  simp

/-- The range that a node holds shares no byte with those found below the node. -/
theorem apart_of_specifierSpan? (h : Laid t.start t.stop t.children) (ha : t.HasArguments)
    (he : Every IsUntangled t.children) {span : Nat × Nat} (hspan : t.specifierSpan? = some span) :
    ∀ s ∈ preorderList t.children, Apart span s := by
  rcases mem_of_specifierSpan? hspan with
    ⟨c, hc, hcontent⟩ | ⟨hcall, a, hchild, c, hc, hcontent⟩
  · exact apart_of_string h he hc hcontent
  · have hmem := (mem_of_childBy? hchild).1
    obtain ⟨-, hchildren, -⟩ := h.of_mem hmem
    obtain ⟨hlo, hinside, hhi⟩ := hchildren.of_mem hc
    have hle := hinside.le
    have hap := apart_of_string hchildren (he.of_mem hmem).2 hc hcontent
    obtain ⟨-, -, rfl⟩ := contentSpan?_eq_some_iff.1 hcontent
    refine apart_preorderList h hmem (by simp only; omega) (by simp only; omega) ?_
    -- The arguments themselves hold no range, or that of the same literal might be found twice.
    rwa [preorder_of_kind (.inr (ha hcall a hchild))]

theorem pairwise_preorder (h : Laid t.start t.stop t.children) (ha : t.HasArguments)
    (he : Every IsUntangled t.children) (hp : (preorderList t.children).Pairwise Apart) :
    (preorder t).Pairwise Apart := by
  rw [preorder_eq, List.pairwise_append]
  refine ⟨?_, hp, ?_⟩
  · cases t.specifierSpan? <;> simp
  · intro s hs s' hs'
    exact apart_of_specifierSpan? h ha he (Option.mem_toList.1 hs) s' hs'

theorem pairwise_preorderList (h : Laid lo hi ts) (he : Every IsUntangled ts) :
    (preorderList ts).Pairwise Apart := by
  induction h with
  | nil => exact .nil
  | @cons lo hi t r hlo hc hr ihc ihr =>
    obtain ⟨huntangled, hchildren, hrest⟩ := every_cons_iff.1 he
    rw [preorderList, List.pairwise_append]
    refine ⟨pairwise_preorder hc huntangled.arguments hchildren (ihc hchildren), ihr hrest, ?_⟩
    intro s hs s' hs'
    exact .inl (Nat.le_trans (bounds_of_preorder hc hs).2 (bounds_of_mem hr hs').1)

/-- The ranges of the specifiers in a tree lie between its ends. -/
theorem bounds_of_mem_specifierSpans (h : Laid t.start t.stop t.children) {span : Nat × Nat}
    (hs : span ∈ specifierSpans t) : t.start ≤ span.1 ∧ span.2 ≤ t.stop := by
  rw [specifierSpans_eq] at hs
  exact bounds_of_preorder h hs

/-- **main theorem**: the ranges of the specifiers in a tree share no byte, if the nodes of the tree
are in their places. -/
theorem pairwise_specifierSpans (h : Laid t.start t.stop t.children) (ha : t.HasArguments)
    (he : Every IsUntangled t.children) : (specifierSpans t).Pairwise Apart := by
  rw [specifierSpans_eq]
  exact pairwise_preorder h ha he (pairwise_preorderList h he)

end ModuleGraph.Syntax.Tree
