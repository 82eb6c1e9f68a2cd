import ModuleGraph.Proofs.Directive
import ModuleGraph.Proofs.Syntax.Tree
import ModuleGraph.Syntax.Grammar
/-!
# What reading by a grammar yields

Whatever a parsing expression is, reading by it uses up characters and yields nodes that stand in
them, one after the other. In a grammar that makes strings of string lexemes only, every string of
the tree stands in the text with its quotes.

Results:
* `stringTail_eq_some`: a string ends with its opening quote;
* `reads_of_run`: **main theorem**: what reading by an honest grammar yields.
-/

namespace ModuleGraph.Syntax

/-! ## Places in a script -/

theorem Cursor.advanceFrom_eq (n : Nat) (rest : List Char) (pos : Nat) :
    advanceFrom n rest pos = ⟨rest.drop n, pos + Utf8.width (rest.take n)⟩ := by
  fun_induction advanceFrom n rest pos with
  | case1 => simp [Utf8.width]
  | case2 => simp [Utf8.width]
  | case3 n c r pos ih => simp [ih, Utf8.width_cons, Nat.add_assoc]

/-- A range is the content of a string with its quotes in the characters, which begin at byte
`pos`. -/
def Quoted (pos : Nat) (cs : List Char) (span : Nat × Nat) : Prop :=
  ∃ a q v b, cs = a ++ q :: (v ++ q :: b) ∧ (q = '"' ∨ q = '\'') ∧
    span = (pos + Utf8.width a + 1, pos + Utf8.width a + 1 + Utf8.width v)

theorem Quoted.append {pos : Nat} {cs : List Char} {span : Nat × Nat} (h : Quoted pos cs span)
    (ds : List Char) : Quoted pos (cs ++ ds) span := by
  obtain ⟨a, q, v, b, rfl, hq, hspan⟩ := h
  exact ⟨a, q, v, b ++ ds, by simp, hq, hspan⟩

theorem Quoted.after {pos : Nat} {used cs : List Char} {span : Nat × Nat}
    (h : Quoted (pos + Utf8.width used) cs span) : Quoted pos (used ++ cs) span := by
  obtain ⟨a, q, v, b, rfl, hq, hspan⟩ := h
  refine ⟨used ++ a, q, v, b, by simp, hq, ?_⟩
  rw [hspan, Utf8.width_append, Nat.add_assoc pos]

/-- A node is formed, and if it is a string it stands in the characters with its quotes. -/
structure Genuine (pos : Nat) (cs : List Char) (t : Tree) : Prop where
  formed : t.IsFormed
  quoted : t.kind = "string" → ∀ span, t.contentSpan? = some span → Quoted pos cs span

/-- What reading from a place to another one yields. -/
structure Reads (c : Cursor) (ts : List Tree) (next : Cursor) : Prop where
  used : ∃ used, c.rest = used ++ next.rest ∧ next.pos = c.pos + Utf8.width used
  laid : Tree.Laid c.pos next.pos ts
  genuine : Tree.Every (Genuine c.pos c.rest) ts

namespace Reads

variable {c d e : Cursor} {ts us : List Tree}

theorem refl (c : Cursor) : Reads c [] c :=
  ⟨⟨[], rfl, rfl⟩, .nil (Nat.le_refl _), .nil⟩

theorem append (h : Reads c ts d) (h' : Reads d us e) : Reads c (ts ++ us) e := by
  obtain ⟨used, hrest, hpos⟩ := h.used
  obtain ⟨used', hrest', hpos'⟩ := h'.used
  refine ⟨⟨used ++ used', by rw [hrest, hrest', List.append_assoc], ?_⟩, h.laid.append h'.laid,
    h.genuine.append (h'.genuine.imp fun t ht => ⟨ht.formed, fun hk span hspan => ?_⟩)⟩
  · rw [hpos', hpos, Utf8.width_append, Nat.add_assoc]
  · rw [hrest]
    exact (hpos ▸ ht.quoted hk span hspan).after

/-- Characters are passed over. -/
theorem advance (c : Cursor) (n : Nat) : Reads c [] (c.advance n) := by
  have hpos : (c.advance n).pos = c.pos + Utf8.width (c.rest.take n) := by
    rw [Cursor.advance, Cursor.advanceFrom_eq]
  refine ⟨⟨c.rest.take n, ?_, hpos⟩, .nil (by omega), .nil⟩
  rw [Cursor.advance, Cursor.advanceFrom_eq, List.take_append_drop]

/-- A node over what is read. -/
theorem node {kind : String} {named : Bool} (h : Reads c ts d) (hkind : kind ≠ "string") :
    Reads c [.node kind c.pos d.pos none named ts] d := by
  refine ⟨h.used, .cons (Nat.le_refl _) h.laid (.nil (Nat.le_refl _)),
    .cons ⟨⟨?_, ?_⟩, ?_⟩ h.genuine .nil⟩
  · exact fun hk => absurd hk hkind
  · intro hf
    cases hf
  · exact fun hk => absurd hk hkind

/-- What is read of the next characters alone is read of the whole. -/
theorem of_take {n : Nat} (h : Reads ⟨c.rest.take n, c.pos⟩ ts d) : Reads c ts (c.advance n) := by
  obtain ⟨used, hused, hpos⟩ := h.used
  obtain ⟨all, hall, hnext⟩ := (advance c n).used
  simp only at hused hpos
  have hwidth : Utf8.width (c.rest.take n) = Utf8.width used + Utf8.width d.rest := by
    rw [hused, Utf8.width_append]
  refine ⟨⟨all, hall, hnext⟩, h.laid.mono (Nat.le_refl _) ?_,
    h.genuine.imp fun t ht => ⟨ht.formed, fun hk span hspan => ?_⟩⟩
  · rw [Cursor.advance, Cursor.advanceFrom_eq]
    simp only
    omega
  · rw [← List.take_append_drop n c.rest]
    exact (ht.quoted hk span hspan).append _

theorem comment (c : Cursor) (n : Nat) :
    Reads c [.node "comment" c.pos (c.advance n).pos none true []] (c.advance n) :=
  (advance c n).node (by decide)

/-- White space and comments are passed over. -/
theorem skip (c : Cursor) : Reads c c.skip.1 c.skip.2 := by
  obtain ⟨rest, pos⟩ := c
  unfold Cursor.skip
  simp only
  fun_induction Cursor.skipFrom rest pos with
  | case1 pos => exact refl _
  | case2 pos x r hspace ih =>
    have hstep : Reads ⟨x :: r, pos⟩ [] ⟨r, pos + x.utf8Size⟩ := advance ⟨x :: r, pos⟩ 1
    exact hstep.append ih
  | case3 pos x r hspace hcomment => exact refl _
  | case4 pos x r hspace n hcomment after comments next hskip ih =>
    rw [hskip] at ih
    exact (comment ⟨x :: r, pos⟩ (n + 1)).append ih

end Reads

/-! ## Lexemes -/

/-- A string ends with its opening quote. -/
theorem stringTail_eq_some {q : Char} {cs : List Char} {n : Nat} (h : stringTail q cs = some n) :
    ∃ v r, cs = v ++ q :: r ∧ n = v.length + 1 := by
  fun_induction stringTail q cs generalizing n with
  | case1 => cases h
  | case2 r ih =>
    obtain ⟨m, hm, rfl⟩ := Option.map_eq_some_iff.1 h
    obtain ⟨v, r', rfl, rfl⟩ := ih hm
    exact ⟨'\\' :: '\r' :: '\n' :: v, r', rfl, rfl⟩
  | case3 c r _ _ ih =>
    obtain ⟨m, hm, rfl⟩ := Option.map_eq_some_iff.1 h
    obtain ⟨v, r', rfl, rfl⟩ := ih hm
    exact ⟨'\\' :: c :: v, r', rfl, rfl⟩
  | case4 => cases h
  | case5 r =>
    cases h
    exact ⟨[], r, rfl, rfl⟩
  | case6 => cases h
  | case7 c r _ _ _ _ ih =>
    obtain ⟨m, hm, rfl⟩ := Option.map_eq_some_iff.1 h
    obtain ⟨v, r', rfl, rfl⟩ := ih hm
    exact ⟨c :: v, r', rfl, rfl⟩

/-- Characters that neither end nor escape anything are read up to the quote. -/
theorem stringTail_append {q : Char} {v : List Char} (r : List Char) (hq : q ≠ '\\')
    (hv : ∀ c ∈ v, c ≠ q ∧ c ≠ '\\' ∧ c ≠ '\n' ∧ c ≠ '\r') :
    stringTail q (v ++ q :: r) = some (v.length + 1) := by
  induction v with
  | nil =>
    rw [List.nil_append, stringTail]
    · simp
    · exact fun _ h _ => hq h
    · exact fun _ _ h _ => hq h
  | cons c v ih =>
    obtain ⟨⟨hcq, hc, hn, hr⟩, hv⟩ := List.forall_mem_cons.1 hv
    rw [List.cons_append, stringTail, ih hv]
    · simp [hcq, hc, hn, hr]
    · exact fun _ h _ => hc h
    · exact fun _ _ h _ => hc h

/-- A string has a quote at both ends. -/
theorem string?_eq_some {cs : List Char} {n : Nat} (h : string? cs = some n) :
    ∃ q v r, cs = q :: (v ++ q :: r) ∧ (q = '"' ∨ q = '\'') ∧ n = v.length + 2 := by
  unfold string? at h
  split at h
  · obtain ⟨m, hm, rfl⟩ := Option.map_eq_some_iff.1 h
    obtain ⟨v, r, rfl, rfl⟩ := stringTail_eq_some hm
    exact ⟨'"', v, r, rfl, .inl rfl, rfl⟩
  · obtain ⟨m, hm, rfl⟩ := Option.map_eq_some_iff.1 h
    obtain ⟨v, r, rfl, rfl⟩ := stringTail_eq_some hm
    exact ⟨'\'', v, r, rfl, .inr rfl, rfl⟩
  · cases h

/-- A leaf is read. -/
theorem Reads.leaf {c d : Cursor} {comments : List Tree} (h : Reads c comments d) {n : Nat}
    {kind : String} {named : Bool} (hstring : kind = "string" → string? d.rest = some n) :
    Reads c (Peg.leaf comments d n kind named).1 (Peg.leaf comments d n kind named).2 := by
  obtain ⟨used, hused, hpos⟩ := (advance d n).used
  have hnode : Reads d [.node kind d.pos (d.advance n).pos none named []] (d.advance n) := by
    refine ⟨⟨used, hused, hpos⟩, ?_, .cons ⟨⟨fun _ => rfl, ?_⟩, ?_⟩ .nil .nil⟩
    · exact .cons (Nat.le_refl _) (advance d n).laid (.nil (Nat.le_refl _))
    · intro hf
      cases hf
    · intro hk span hspan
      obtain ⟨q, v, r, hrest, hq, hn⟩ := string?_eq_some (hstring hk)
      obtain ⟨-, -, rfl⟩ := Tree.contentSpan?_eq_some_iff.1 hspan
      refine ⟨[], q, v, r, hrest, hq, ?_⟩
      have hone : q.utf8Size = 1 := by rcases hq with rfl | rfl <;> rfl
      have htake : d.rest.take n = q :: (v ++ [q]) := by
        have hsplit : d.rest = q :: (v ++ [q]) ++ r := by simp [hrest]
        rw [hsplit, List.take_left' (by simp [hn])]
      have hstop : (d.advance n).pos = d.pos + (1 + (Utf8.width v + 1)) := by
        rw [Cursor.advance, Cursor.advanceFrom_eq, htake, Utf8.width_cons, Utf8.width_append,
          Utf8.width_cons, hone]
        rfl
      simp only [Tree.start, Tree.stop, hstop, Prod.mk.injEq]
      have hnil : Utf8.width [] = 0 := rfl
      omega
  exact h.append hnode

/-! ## Fields -/

/-- The last node is of a kind. -/
def LastIs (kind : String) (ts : List Tree) : Prop := ∀ t ∈ ts.getLast?, t.kind = kind

theorem LastIs.tail {kind : String} {t u : Tree} {r : List Tree} (h : LastIs kind (t :: u :: r)) :
    LastIs kind (u :: r) := by
  intro x hx
  exact h x (by rwa [List.getLast?_cons_cons])

theorem laid_setField {lo hi : Nat} {ts : List Tree} (name : String) (h : Tree.Laid lo hi ts) :
    Tree.Laid lo hi (Peg.setField name ts) := by
  fun_induction Peg.setField name ts generalizing lo with
  | case1 => exact h
  | case2 k s e f n cs =>
    cases h with
    | cons hs hc hr => exact .cons hs hc hr
  | case3 t r _ ih =>
    cases h with
    | cons hs hc hr => exact .cons hs hc (ih hr)

theorem genuine_setField {pos : Nat} {cs : List Char} {name : String} {ts : List Tree}
    (h : Tree.Every (Genuine pos cs) ts) (hlast : name = "arguments" → LastIs "arguments" ts) :
    Tree.Every (Genuine pos cs) (Peg.setField name ts) := by
  fun_induction Peg.setField name ts with
  | case1 => exact h
  | case2 k s e f n children =>
    cases h with
    | cons ht hc hr =>
      refine .cons ⟨⟨ht.formed.leaf, fun hf => ?_⟩, ht.quoted⟩ hc .nil
      exact hlast (by simpa [Tree.field] using hf) (.node k s e f n children) rfl
  | case3 t r hr ih =>
    cases h with
    | cons ht hc hrest =>
      refine .cons ht hc (ih hrest fun hname => ?_)
      cases r with
      | nil => intro x hx; cases hx
      | cons u r => exact (hlast hname).tail

/-! ## Reading by an expression -/

namespace Peg

variable {ρ : Type} {grammar : ρ → Peg ρ}

/-- The expression is a rule that makes a node of a kind. -/
def makes (grammar : ρ → Peg ρ) (kind : String) : Peg ρ → Bool
  | .rule r =>
    match grammar r with
    | .node k _ => k = kind
    | _ => false
  | _ => false

mutual

/-- Nothing but a lexeme makes a string, and only arguments fill the field of that name. -/
def isHonest (grammar : ρ → Peg ρ) : Peg ρ → Bool
  | .seq ps | .alt ps => areHonest grammar ps
  | .many p | .opt p | .stretch _ p => isHonest grammar p
  | .sign text _ | .word text => text ≠ "string"
  | .node kind p => kind ≠ "string" && isHonest grammar p
  | .field name p => (name ≠ "arguments" || makes grammar "arguments" p) && isHonest grammar p
  | .ahead _ | .absent _ | .lexeme _ | .rule _ | .only _ | .forgiving | .sameLine | .finish
  | .ending _ | .character => true

/-- All of the expressions are honest. -/
def areHonest (grammar : ρ → Peg ρ) : List (Peg ρ) → Bool
  | [] => true
  | p :: ps => isHonest grammar p && areHonest grammar ps

end

-- The proofs below open these functions level by level. Their equations are worked out here, once.
attribute [local simp] run isHonest areHonest

theorem lastIs_of_makes {how : Reading} {fuel : Nat} {p : Peg ρ} {c next : Cursor} {ts : List Tree}
    {kind : String} (hp : makes grammar kind p = true)
    (h : run grammar how fuel p c = some (ts, next)) : LastIs kind ts := by
  unfold makes at hp
  split at hp
  · next r =>
    split at hp
    · next k q hr =>
      obtain rfl : k = kind := by simpa using hp
      match fuel with
      | 0 => cases h
      | 1 => cases h
      | fuel + 2 =>
        simp only [run, hr] at h
        split at h
        · cases h
        · cases h
          intro t ht
          simp only [List.getLast?_append, List.getLast?_singleton, Option.some_or,
            Option.mem_def, Option.some.injEq] at ht
          rw [← ht]
          rfl
    · cases hp
  · cases hp

variable {how : Reading} {fuel : Nat} {p : Peg ρ} {ps : List (Peg ρ)} {c next : Cursor}
  {ts : List Tree}

/-- With so much fuel, reading by any honest expression uses up characters and yields nodes that
stand in them. -/
def ReadsWith (grammar : ρ → Peg ρ) (how : Reading) (fuel : Nat) : Prop :=
  ∀ {p : Peg ρ} {c next : Cursor} {ts : List Tree}, isHonest grammar p = true →
    run grammar how fuel p c = some (ts, next) → Reads c ts next

theorem reads_seq (ih : ReadsWith grammar how fuel) (hp : areHonest grammar ps = true)
    (h : run grammar how (fuel + 1) (.seq ps) c = some (ts, next)) : Reads c ts next := by
  cases ps with
  | nil =>
    cases h
    exact .refl c
  | cons p ps =>
    rw [areHonest, Bool.and_eq_true] at hp
    simp only [run] at h
    cases hr : run grammar how fuel p c with
    | none => simp [hr] at h
    | some r =>
      obtain ⟨us, d⟩ := r
      cases hr' : run grammar how fuel (.seq ps) d with
      | none => simp [hr, hr'] at h
      | some r =>
        obtain ⟨vs, e⟩ := r
        simp only [hr, hr', Option.some.injEq, Prod.mk.injEq] at h
        obtain ⟨rfl, rfl⟩ := h
        exact (ih hp.1 hr).append (ih (by rw [isHonest]; exact hp.2) hr')

theorem reads_alt (ih : ReadsWith grammar how fuel) (hp : areHonest grammar ps = true)
    (h : run grammar how (fuel + 1) (.alt ps) c = some (ts, next)) : Reads c ts next := by
  cases ps with
  | nil => cases h
  | cons p ps =>
    rw [areHonest, Bool.and_eq_true] at hp
    simp only [run] at h
    cases hr : run grammar how fuel p c with
    | none =>
      rw [hr] at h
      exact ih (by rw [isHonest]; exact hp.2) h
    | some r =>
      rw [hr] at h
      cases h
      exact ih hp.1 hr

theorem reads_many (ih : ReadsWith grammar how fuel) (hp : isHonest grammar p = true)
    (h : run grammar how (fuel + 1) (.many p) c = some (ts, next)) : Reads c ts next := by
  simp only [run] at h
  cases hr : run grammar how fuel p c with
  | none =>
    simp only [hr, Option.some.injEq, Prod.mk.injEq] at h
    obtain ⟨rfl, rfl⟩ := h
    exact .refl c
  | some r =>
    obtain ⟨us, d⟩ := r
    rw [hr] at h
    simp only at h
    split at h
    · cases hr' : run grammar how fuel (.many p) d with
      | none => simp [hr'] at h
      | some r =>
        obtain ⟨vs, e⟩ := r
        simp only [hr', Option.some.injEq, Prod.mk.injEq] at h
        obtain ⟨rfl, rfl⟩ := h
        exact (ih hp hr).append (ih (by rwa [isHonest]) hr')
    · cases h
      exact ih hp hr

theorem reads_opt (ih : ReadsWith grammar how fuel) (hp : isHonest grammar p = true)
    (h : run grammar how (fuel + 1) (.opt p) c = some (ts, next)) : Reads c ts next := by
  simp only [run] at h
  cases hr : run grammar how fuel p c with
  | none =>
    rw [hr] at h
    cases h
    exact .refl c
  | some r =>
    rw [hr] at h
    cases h
    exact ih hp hr

theorem reads_node {kind : String} (ih : ReadsWith grammar how fuel)
    (hp : isHonest grammar (.node kind p) = true)
    (h : run grammar how (fuel + 1) (.node kind p) c = some (ts, next)) : Reads c ts next := by
  rw [isHonest, Bool.and_eq_true] at hp
  simp only [run] at h
  cases hr : run grammar how fuel p c.skip.2 with
  | none => simp [hr] at h
  | some r =>
    obtain ⟨us, d⟩ := r
    simp only [hr, Option.some.injEq, Prod.mk.injEq] at h
    obtain ⟨rfl, rfl⟩ := h
    exact (Reads.skip c).append ((ih hp.2 hr).node (by simpa using hp.1))

theorem reads_field {name : String} (ih : ReadsWith grammar how fuel)
    (hp : isHonest grammar (.field name p) = true)
    (h : run grammar how (fuel + 1) (.field name p) c = some (ts, next)) : Reads c ts next := by
  rw [isHonest, Bool.and_eq_true] at hp
  simp only [run] at h
  cases hr : run grammar how fuel p c with
  | none => simp [hr] at h
  | some r =>
    obtain ⟨us, d⟩ := r
    simp only [hr, Option.some.injEq, Prod.mk.injEq] at h
    obtain ⟨rfl, rfl⟩ := h
    obtain ⟨hused, hlaid, hgenuine⟩ := ih hp.2 hr
    refine ⟨hused, laid_setField name hlaid, genuine_setField hgenuine fun hname => ?_⟩
    exact lastIs_of_makes (by simpa [hname] using hp.1) hr

theorem reads_stretch {inBlock : Bool} (ih : ReadsWith grammar how fuel)
    (hp : isHonest grammar p = true)
    (h : run grammar how (fuel + 1) (.stretch inBlock p) c = some (ts, next)) :
    Reads c ts next := by
  simp only [run] at h
  split at h
  · generalize stretchLength inBlock c.skip.2.rest = n at h
    cases n with
    | zero => cases h
    | succ n =>
      simp only [Option.some.injEq, Prod.mk.injEq] at h
      obtain ⟨rfl, rfl⟩ := h
      refine (Reads.skip c).append (Reads.node ?_ (by decide))
      -- The parts are read of the stretch alone, and all of it is passed over.
      cases hr : run grammar how fuel p ⟨c.skip.2.rest.take (n + 1), c.skip.2.pos⟩ with
      | none => exact .advance _ _
      | some r => exact (ih hp hr).of_take
  · cases h

theorem reads_lexeme {l : Lexeme}
    (h : run grammar how (fuel + 1) (.lexeme l) c = some (ts, next)) : Reads c ts next := by
  have hbefore : Reads c (if l.isImmediate then ([], c) else c.skip).1
      (if l.isImmediate then ([], c) else c.skip).2 := by
    split
    · exact .refl c
    · exact .skip c
  simp only [run] at h
  split at h
  · next n hn =>
    cases h
    refine hbefore.leaf fun hk => ?_
    cases l with
    | string => exact hn
    | _ => simp [Lexeme.kind] at hk
  · cases h

/-- **main theorem**: reading by an honest expression of an honest grammar uses up characters and
yields nodes that stand in them. -/
theorem reads_of_run (hgrammar : ∀ r, isHonest grammar (grammar r) = true)
    (hp : isHonest grammar p = true) (h : run grammar how fuel p c = some (ts, next)) :
    Reads c ts next := by
  induction fuel generalizing p c next ts with
  | zero => cases h
  | succ fuel ih =>
    cases p with
    | seq ps => exact reads_seq ih (by rwa [isHonest] at hp) h
    | alt ps => exact reads_alt ih (by rwa [isHonest] at hp) h
    | many p => exact reads_many ih (by rwa [isHonest] at hp) h
    | stretch inBlock p => exact reads_stretch ih (by rwa [isHonest] at hp) h
    | lexeme l => exact reads_lexeme h
    | opt p => exact reads_opt ih (by rwa [isHonest] at hp) h
    | node kind p => exact reads_node ih hp h
    | field name p => exact reads_field ih hp h
    | rule r => exact ih (hgrammar r) h
    | sign text barred | word text =>
      simp only [isHonest, decide_eq_true_eq] at hp
      simp only [run] at h
      split at h
      · cases h
        exact (Reads.skip c).leaf fun hk => absurd hk hp
      · cases h
    | finish =>
      simp only [run] at h
      split at h
      · cases h
        exact .skip c
      · cases h
    | character =>
      simp only [run] at h
      split at h
      · cases h
      · cases h
        simpa using (Reads.skip c).append (.advance c.skip.2 1)
    | ahead p | absent p | only d | forgiving | sameLine | ending e =>
      -- These look at what follows and read nothing.
      simp only [run] at h
      split at h <;> cases h
      exact .refl c

end Peg

/-- The grammar of scripts is honest. -/
theorem Grammar.isHonest_rules (r : Rule) : Peg.isHonest Grammar.rules (Grammar.rules r) = true := by
  cases r <;> decide +kernel

end ModuleGraph.Syntax
