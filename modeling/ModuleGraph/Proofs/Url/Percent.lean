import ModuleGraph.Proofs.Utf8
import ModuleGraph.Url.Percent
/-!
# Undoing escapes, segment by segment

A slash is never part of an escape, and its byte never continues a character. So a path is decoded
segment by segment, whatever the segments hold, malformed escapes and malformed characters included.

Results:
* `Utf8.decodeLossy_slash`: bytes are read on both sides of the byte of a slash;
* `unescape_slash`: a path is decoded on both sides of a slash;
* `unescape_eq_self`: a text without escapes stays as it is;
* `unescape_eq_nil_iff`: decoding leaves something of everything.
-/

namespace ModuleGraph

namespace Utf8

/-- The character for a piece. -/
def Piece.shown : Piece → Char
  | .char c => c
  | .bad _ => Char.ofNat 0xFFFD

/-- What is read of bytes after a character that may have been begun. -/
def shownFrom (pos : Nat) (st : Option Pending) (bytes : List UInt8) : List Char :=
  (piecesFrom pos st bytes).map Piece.shown

theorem toList_decodeLossy (bytes : List UInt8) :
    (decodeLossy bytes).toList = shownFrom 0 none bytes := by
  rw [decodeLossy, String.toList_ofList]
  rfl

/-- The states of the machine agree in all that it goes by: not in the places where characters were
begun. -/
def Alike : Option Pending → Option Pending → Prop
  | none, none => True
  | some p, some q => p.code = q.code ∧ p.owed = q.owed ∧ p.low = q.low ∧ p.high = q.high
  | _, _ => False

theorem begin_alike (pos pos' : Nat) (b : UInt8) :
    (begin pos b).1.map Piece.shown = (begin pos' b).1.map Piece.shown ∧
      Alike (begin pos b).2 (begin pos' b).2 := by
  unfold begin
  dsimp only
  split_ifs <;> simp [Alike, Piece.shown]

theorem step_alike {st st' : Option Pending} (h : Alike st st') (pos pos' : Nat) (b : UInt8) :
    (step pos st b).1.map Piece.shown = (step pos' st' b).1.map Piece.shown ∧
      Alike (step pos st b).2 (step pos' st' b).2 := by
  have hbegin := begin_alike pos pos' b
  cases st with
  | none =>
    cases st' with
    | none => exact hbegin
    | some q => exact h.elim
  | some p =>
    cases st' with
    | none => exact h.elim
    | some q =>
      obtain ⟨hcode, howed, hlow, hhigh⟩ := h
      unfold step
      dsimp only
      rw [hlow, hhigh, howed, hcode]
      split_ifs
      · exact ⟨rfl, trivial⟩
      · exact ⟨rfl, rfl, rfl, rfl, rfl⟩
      · exact ⟨by rw [List.map_cons, List.map_cons, hbegin.1]; rfl, hbegin.2⟩

/-- What is read does not depend on where the bytes stand. -/
theorem shownFrom_alike {st st' : Option Pending} (h : Alike st st') (pos pos' : Nat)
    (bytes : List UInt8) : shownFrom pos st bytes = shownFrom pos' st' bytes := by
  induction bytes generalizing st st' pos pos' with
  | nil =>
    cases st with
    | none =>
      cases st' with
      | none => rfl
      | some q => exact h.elim
    | some p =>
      cases st' with
      | none => exact h.elim
      | some q => rfl
  | cons b bytes ih =>
    have hstep := step_alike h pos pos' b
    have hrest := ih hstep.2 (pos + 1) (pos' + 1)
    unfold shownFrom at hrest ⊢
    rw [piecesFrom, piecesFrom, List.map_append, List.map_append, hstep.1, hrest]

theorem alike_refl (st : Option Pending) : Alike st st := by
  cases st with
  | none => trivial
  | some p => exact ⟨rfl, rfl, rfl, rfl⟩

/-- A character is continued by bytes outside of ASCII only. -/
def OwesHigh (st : Option Pending) : Prop := ∀ p, st = some p → 0x80 ≤ p.low

theorem owesHigh_begin (pos : Nat) (b : UInt8) : OwesHigh (begin pos b).2 := by
  intro p hp
  unfold begin at hp
  dsimp only at hp
  split_ifs at hp <;> cases hp <;> simp

theorem owesHigh_step {st : Option Pending} (pos : Nat) (b : UInt8) :
    OwesHigh (step pos st b).2 := by
  cases st with
  | none => exact owesHigh_begin pos b
  | some p =>
    unfold step
    dsimp only
    split_ifs
    · intro q hq
      cases hq
    · intro q hq
      cases hq
      exact Nat.le_refl 0x80
    · exact owesHigh_begin pos b

/-- The byte of a slash ends whatever was begun before it. -/
theorem shownFrom_slash {st : Option Pending} (hst : OwesHigh st) (pos : Nat)
    (a b : List UInt8) :
    shownFrom pos st (a ++ 0x2F :: b) = shownFrom pos st a ++ '/' :: shownFrom 0 none b := by
  induction a generalizing st pos with
  | nil =>
    have hbegin : begin pos 0x2F = ([.char '/'], none) := begin_one pos (by decide)
    have hrest : shownFrom (pos + 1) none b = shownFrom 0 none b :=
      shownFrom_alike (alike_refl none) _ _ b
    unfold shownFrom at hrest ⊢
    rw [List.nil_append, piecesFrom]
    cases st with
    | none =>
      rw [step, hbegin, List.map_append, hrest]
      rfl
    | some p =>
      have hlow := hst p rfl
      have hout : ¬(p.low ≤ (0x2F : UInt8).toNat ∧ (0x2F : UInt8).toNat ≤ p.high) := by
        intro h
        have : (0x2F : UInt8).toNat = 0x2F := rfl
        omega
      rw [step]
      dsimp only
      rw [if_neg hout, hbegin, List.map_append, hrest]
      rfl
  | cons x a ih =>
    have hrest := ih (@owesHigh_step st pos x) (pos + 1)
    unfold shownFrom at hrest ⊢
    rw [List.cons_append, piecesFrom, piecesFrom, List.map_append, List.map_append, hrest,
      List.append_assoc]

theorem decodeLossy_slash (a b : List UInt8) : (decodeLossy (a ++ 0x2F :: b)).toList =
    (decodeLossy a).toList ++ '/' :: (decodeLossy b).toList := by
  simp only [toList_decodeLossy]
  exact shownFrom_slash (fun p hp => by cases hp) 0 a b

/-- A character that was begun is read as something. -/
theorem shownFrom_some_ne_nil (pos : Nat) (p : Pending) (bytes : List UInt8) :
    shownFrom pos (some p) bytes ≠ [] := by
  induction bytes generalizing pos p with
  | nil => exact List.cons_ne_nil _ _
  | cons b bytes ih =>
    unfold shownFrom at ih ⊢
    rw [piecesFrom, step]
    dsimp only
    split_ifs
    · exact List.cons_ne_nil _ _
    · exact ih (pos + 1) _
    · exact List.cons_ne_nil _ _

/-- Something is read of all bytes. -/
theorem shownFrom_cons_ne_nil (pos : Nat) (b : UInt8) (bytes : List UInt8) :
    shownFrom pos none (b :: bytes) ≠ [] := by
  unfold shownFrom
  rw [piecesFrom, step, List.map_append]
  cases hbegin : (begin pos b).2 with
  | some p => exact List.append_ne_nil_of_right_ne_nil _ (shownFrom_some_ne_nil (pos + 1) p bytes)
  | none =>
    refine List.append_ne_nil_of_left_ne_nil ?_ _
    unfold begin at hbegin ⊢
    dsimp only at hbegin ⊢
    split_ifs at hbegin ⊢ <;> simp at hbegin ⊢

end Utf8

namespace Url

/-! ## Escapes -/

/-- The list begins with the two digits of an escape. -/
def beginsDigits : List Char → Bool
  | a :: b :: _ => (Hex.digitValue? a).isSome && (Hex.digitValue? b).isSome
  | _ => false

theorem unescapeBytes_of_ne {c : Char} (hc : c ≠ '%') (r : List Char) :
    unescapeBytes (c :: r) = UInt8.ofNat c.toNat :: unescapeBytes r := by
  rw [unescapeBytes]
  intro _ _ _ h
  exact absurd h hc

/-- The sign of an escape without digits stands for itself. -/
theorem unescapeBytes_of_not_beginsDigits {r : List Char} (h : beginsDigits r = false) :
    unescapeBytes ('%' :: r) = 0x25 :: unescapeBytes r := by
  match r with
  | [] => rfl
  | [x] =>
    rw [unescapeBytes]
    · rfl
    · intro _ _ _ _ h
      cases h
  | x :: y :: r =>
    rw [unescapeBytes]
    cases hx : Hex.digitValue? x with
    | none => rfl
    | some m =>
      cases hy : Hex.digitValue? y with
      | none => rfl
      | some n => simp [beginsDigits, hx, hy] at h

/-- A slash is no digit. -/
theorem beginsDigits_slash {r : List Char} (h : beginsDigits r = false) (b : List Char) :
    beginsDigits (r ++ '/' :: b) = false := by
  have hslash : Hex.digitValue? '/' = none := by decide
  match r with
  | [] => cases b <;> simp [beginsDigits, hslash]
  | [x] => simp [beginsDigits, hslash]
  | x :: y :: r => exact h

/-- Escapes are undone on both sides of a slash. -/
theorem unescapeBytes_slash (a b : List Char) :
    unescapeBytes (a ++ '/' :: b) = unescapeBytes a ++ 0x2F :: unescapeBytes b := by
  -- What is read of the sign and the rest of `a`, if the sign stands for itself.
  have hsign : ∀ r, beginsDigits r = false →
      unescapeBytes (r ++ '/' :: b) = unescapeBytes r ++ 0x2F :: unescapeBytes b →
      unescapeBytes ('%' :: r ++ '/' :: b) = unescapeBytes ('%' :: r) ++ 0x2F :: unescapeBytes b := by
    intro r hr ih
    rw [List.cons_append, unescapeBytes_of_not_beginsDigits (beginsDigits_slash hr b),
      unescapeBytes_of_not_beginsDigits hr, ih]
    rfl
  induction a using unescapeBytes.induct with
  | case1 => exact unescapeBytes_of_ne (by decide) b
  | case2 x y r m n hx hy ih =>
    rw [List.cons_append, List.cons_append, List.cons_append, unescapeBytes, unescapeBytes, hx, hy]
    dsimp only
    rw [ih, List.cons_append]
  | case3 x y r hnone ih =>
    refine hsign (x :: y :: r) ?_ ih
    cases hx : Hex.digitValue? x with
    | none => simp [beginsDigits, hx]
    | some m =>
      cases hy : Hex.digitValue? y with
      | none => simp [beginsDigits, hy]
      | some n => exact (hnone m n hx hy).elim
  | case4 c r hne ih =>
    by_cases hc : c = '%'
    · subst hc
      refine hsign r ?_ ih
      match r with
      | [] => rfl
      | [x] => rfl
      | x :: y :: r => exact (hne x y r rfl rfl).elim
    · rw [List.cons_append, unescapeBytes_of_ne hc, unescapeBytes_of_ne hc, ih, List.cons_append]

theorem unescapeRun_slash (a b : List Char) :
    unescapeRun (a ++ '/' :: b) = unescapeRun a ++ '/' :: unescapeRun b := by
  rw [unescapeRun, unescapeBytes_slash, Utf8.decodeLossy_slash]
  rfl

/-- A run that holds a slash is decoded on both sides of it. -/
theorem unescapeFrom_slash (before after cs : List Char) :
    unescapeFrom (after ++ '/' :: before) cs =
      unescapeRun before.reverse ++ '/' :: unescapeFrom after cs := by
  induction cs generalizing after with
  | nil =>
    rw [unescapeFrom, unescapeFrom, List.reverse_append, List.reverse_cons, List.append_assoc,
      List.singleton_append, unescapeRun_slash]
  | cons c cs ih =>
    rw [unescapeFrom, unescapeFrom]
    split_ifs with hc
    · exact ih (c :: after)
    · rw [List.reverse_append, List.reverse_cons, List.append_assoc, List.singleton_append,
        unescapeRun_slash, List.append_assoc, List.cons_append]

theorem unescapeFrom_append_slash (run a b : List Char) :
    unescapeFrom run (a ++ '/' :: b) = unescapeFrom run a ++ '/' :: unescape b := by
  induction a generalizing run with
  | nil => exact unescapeFrom_slash run [] b
  | cons c a ih =>
    rw [List.cons_append, unescapeFrom, unescapeFrom]
    split_ifs with hc
    · exact ih (c :: run)
    · rw [ih, List.append_assoc, List.cons_append]

/-- A path is decoded on both sides of a slash. -/
theorem unescape_slash (a b : List Char) :
    unescape (a ++ '/' :: b) = unescape a ++ '/' :: unescape b :=
  unescapeFrom_append_slash [] a b

theorem unescape_nil : unescape [] = [] := rfl

/-- Slashes at the end of a path stay where they are. -/
theorem unescape_slashes (a : List Char) (n : Nat) :
    unescape (a ++ List.replicate n '/') = unescape a ++ List.replicate n '/' := by
  induction n generalizing a with
  | zero => simp
  | succ n ih =>
    rw [List.replicate_succ, unescape_slash]
    have h := ih []
    rw [List.nil_append, unescape_nil, List.nil_append] at h
    rw [h]

/-! ## Texts without escapes -/

theorem shownFrom_ascii (pos : Nat) {cs : List Char} (h : ∀ c ∈ cs, c.toNat < 0x80) :
    Utf8.shownFrom pos none (cs.map fun c => UInt8.ofNat c.toNat) = cs := by
  induction cs generalizing pos with
  | nil => rfl
  | cons c cs ih =>
    have hc := h c List.mem_cons_self
    have hbyte : (UInt8.ofNat c.toNat).toNat = c.toNat := Utf8.toNat_ofNat_of_lt (by omega)
    have hrest := ih (pos + 1) fun d hd => h d (List.mem_cons_of_mem c hd)
    unfold Utf8.shownFrom at hrest ⊢
    rw [List.map_cons, Utf8.pieces_one pos (by omega), List.map_cons, hrest, hbyte,
      Char.ofNat_toNat]
    rfl

theorem unescapeFrom_ascii (run : List Char) {cs : List Char} (h : ∀ c ∈ cs, c.toNat < 0x80) :
    unescapeFrom run cs = unescapeRun (run.reverse ++ cs) := by
  induction cs generalizing run with
  | nil => rw [unescapeFrom, List.append_nil]
  | cons c cs ih =>
    rw [unescapeFrom, if_pos (h c List.mem_cons_self),
      ih (c :: run) fun d hd => h d (List.mem_cons_of_mem c hd)]
    simp

/-- A text of ASCII without escapes stays as it is. -/
theorem unescape_eq_self {cs : List Char} (h : ∀ c ∈ cs, c.toNat < 0x80 ∧ c ≠ '%') :
    unescape cs = cs := by
  have hbytes : unescapeBytes cs = cs.map fun c => UInt8.ofNat c.toNat := by
    induction cs with
    | nil => rfl
    | cons c cs ih =>
      rw [unescapeBytes_of_ne (h c List.mem_cons_self).2, List.map_cons,
        ih fun d hd => h d (List.mem_cons_of_mem c hd)]
  rw [unescape, unescapeFrom_ascii [] fun c hc => (h c hc).1, List.reverse_nil, List.nil_append,
    unescapeRun, hbytes, Utf8.toList_decodeLossy, shownFrom_ascii 0 fun c hc => (h c hc).1]

/-! ## Something is left -/

theorem unescapeBytes_ne_nil {cs : List Char} (h : cs ≠ []) : unescapeBytes cs ≠ [] := by
  intro hnil
  obtain ⟨c, r, rfl⟩ := List.exists_cons_of_ne_nil h
  by_cases hc : c = '%'
  · subst hc
    cases hr : beginsDigits r with
    | false =>
      rw [unescapeBytes_of_not_beginsDigits hr] at hnil
      cases hnil
    | true =>
      match r with
      | [] => cases hr
      | [x] => cases hr
      | x :: y :: r =>
        rw [beginsDigits, Bool.and_eq_true, Option.isSome_iff_exists, Option.isSome_iff_exists] at hr
        obtain ⟨⟨m, hx⟩, ⟨n, hy⟩⟩ := hr
        rw [unescapeBytes, hx, hy] at hnil
        cases hnil
  · rw [unescapeBytes_of_ne hc] at hnil
    cases hnil

theorem unescapeRun_ne_nil {cs : List Char} (h : cs ≠ []) : unescapeRun cs ≠ [] := by
  rw [unescapeRun, Utf8.toList_decodeLossy]
  obtain ⟨b, r, hb⟩ := List.exists_cons_of_ne_nil (unescapeBytes_ne_nil h)
  rw [hb]
  exact Utf8.shownFrom_cons_ne_nil 0 b r

theorem unescapeFrom_ne_nil {run cs : List Char} (h : run ≠ [] ∨ cs ≠ []) :
    unescapeFrom run cs ≠ [] := by
  induction cs generalizing run with
  | nil =>
    rw [unescapeFrom]
    exact unescapeRun_ne_nil (by simpa using h)
  | cons c cs ih =>
    rw [unescapeFrom]
    split_ifs
    · exact ih (.inl (List.cons_ne_nil c run))
    · simp

/-- Decoding leaves something of everything. -/
theorem unescape_eq_nil_iff (cs : List Char) : unescape cs = [] ↔ cs = [] := by
  constructor
  · intro h
    exact Decidable.byContradiction fun hne => unescapeFrom_ne_nil (.inr hne) h
  · rintro rfl
    rfl

end Url

end ModuleGraph
