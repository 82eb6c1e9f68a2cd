import Mathlib.Tactic.SplitIfs
import ModuleGraph.Text.Utf8
/-!
# Reading and writing UTF-8

The machine reads what is written: `decode` accepts exactly the bytes of texts and gives back the
text. A stretch of a text that is a text by itself is cut out between characters, so that what
stands before and behind it are texts as well.

Results:
* `piecesFrom_encodeChar`: the machine reads one character that is written;
* `decode_eq_ok_iff`: `decode` inverts `encode`, and accepts nothing else;
* `isText_around`: what stands around a stretch that is a text is a text.
-/

namespace ModuleGraph.Utf8

/-- The bytes of a list of characters. -/
def encodeChars (cs : List Char) : List UInt8 := cs.flatMap String.utf8EncodeChar

theorem encode_eq (s : String) : encode s = encodeChars s.toList := rfl

@[simp] theorem encodeChars_nil : encodeChars [] = [] := rfl

theorem encodeChars_cons (c : Char) (cs : List Char) :
    encodeChars (c :: cs) = String.utf8EncodeChar c ++ encodeChars cs := rfl

theorem encodeChars_append (cs ds : List Char) :
    encodeChars (cs ++ ds) = encodeChars cs ++ encodeChars ds :=
  List.flatMap_append

/-! ## Reading one character -/

theorem begin_one (pos : Nat) {b : UInt8} (h : b.toNat < 0x80) :
    begin pos b = ([.char (Char.ofNat b.toNat)], none) := by
  simp [begin, h]

theorem begin_two (pos : Nat) {b : UInt8} (hl : 0xC2 ≤ b.toNat) (hh : b.toNat < 0xE0) :
    begin pos b = ([], some ⟨pos, b, b.toNat - 0xC0, 1, 0x80, 0xBF⟩) := by
  have h1 : ¬ b.toNat < 0x80 := by omega
  have h2 : ¬ b.toNat < 0xC2 := by omega
  simp [begin, h1, h2, hh]

/-- The least second byte of a character of three bytes. -/
def lowThree (n : Nat) : Nat := if n = 0xE0 then 0xA0 else 0x80

/-- The greatest second byte of a character of three bytes. -/
def highThree (n : Nat) : Nat := if n = 0xED then 0x9F else 0xBF

theorem begin_three (pos : Nat) {b : UInt8} (hl : 0xE0 ≤ b.toNat) (hh : b.toNat < 0xF0) :
    begin pos b =
      ([], some ⟨pos, b, b.toNat - 0xE0, 2, lowThree b.toNat, highThree b.toNat⟩) := by
  have h1 : ¬ b.toNat < 0x80 := by omega
  have h2 : ¬ b.toNat < 0xC2 := by omega
  have h3 : ¬ b.toNat < 0xE0 := by omega
  simp only [begin, lowThree, highThree, h1, h2, h3, hh, if_false, if_true]
  by_cases h4 : b.toNat = 0xE0
  · simp [h4]
  · by_cases h5 : b.toNat = 0xED <;> simp [h4, h5]

/-- The least second byte of a character of four bytes. -/
def lowFour (n : Nat) : Nat := if n = 0xF0 then 0x90 else 0x80

/-- The greatest second byte of a character of four bytes. -/
def highFour (n : Nat) : Nat := if n = 0xF4 then 0x8F else 0xBF

theorem begin_four (pos : Nat) {b : UInt8} (hl : 0xF0 ≤ b.toNat) (hh : b.toNat < 0xF5) :
    begin pos b =
      ([], some ⟨pos, b, b.toNat - 0xF0, 3, lowFour b.toNat, highFour b.toNat⟩) := by
  have h1 : ¬ b.toNat < 0x80 := by omega
  have h2 : ¬ b.toNat < 0xC2 := by omega
  have h3 : ¬ b.toNat < 0xE0 := by omega
  have h4 : ¬ b.toNat < 0xF0 := by omega
  have h5 : b.toNat ≠ 0xE0 := by omega
  have h6 : b.toNat ≠ 0xED := by omega
  simp only [begin, lowFour, highFour, h1, h2, h3, h4, h5, h6, if_false]
  by_cases h7 : b.toNat = 0xF0
  · simp [h7]
  · by_cases h8 : b.toNat < 0xF4
    · have h9 : b.toNat ≠ 0xF4 := by omega
      simp [h7, h8, h9]
    · have h9 : b.toNat = 0xF4 := by omega
      simp [h9]

theorem begin_bad (pos : Nat) {b : UInt8}
    (h : (0x80 ≤ b.toNat ∧ b.toNat < 0xC2) ∨ 0xF5 ≤ b.toNat) :
    begin pos b = ([.bad ⟨pos, pos + 1, b, .invalidStart⟩], none) := by
  have h1 : ¬ b.toNat < 0x80 := by omega
  by_cases h2 : b.toNat < 0xC2
  · simp [begin, h1, h2]
  · have h3 : ¬ b.toNat < 0xE0 := by omega
    have h4 : ¬ b.toNat < 0xF0 := by omega
    have h5 : ¬ b.toNat < 0xF4 := by omega
    have h6 : b.toNat ≠ 0xE0 := by omega
    have h7 : b.toNat ≠ 0xED := by omega
    have h8 : b.toNat ≠ 0xF0 := by omega
    have h9 : b.toNat ≠ 0xF4 := by omega
    simp [begin, h1, h2, h3, h4, h5, h6, h7, h8, h9]

theorem step_last (pos : Nat) {p : Pending} {b : UInt8} (ho : p.owed ≤ 1)
    (hl : p.low ≤ b.toNat) (hh : b.toNat ≤ p.high) :
    step pos (some p) b = ([.char (Char.ofNat (p.code * 64 + (b.toNat - 0x80)))], none) := by
  simp [step, hl, hh, ho]

theorem step_more (pos : Nat) {p : Pending} {b : UInt8} (ho : 1 < p.owed)
    (hl : p.low ≤ b.toNat) (hh : b.toNat ≤ p.high) :
    step pos (some p) b = ([], some { p with
      code := p.code * 64 + (b.toNat - 0x80), owed := p.owed - 1, low := 0x80, high := 0xBF }) := by
  have h : ¬ p.owed ≤ 1 := by omega
  simp [step, hl, hh, h]

theorem pieces_one (pos : Nat) {b : UInt8} (h : b.toNat < 0x80) (r : List UInt8) :
    piecesFrom pos none (b :: r) = .char (Char.ofNat b.toNat) :: piecesFrom (pos + 1) none r := by
  simp only [piecesFrom, step]
  rw [begin_one pos h]
  rfl

theorem pieces_two (pos : Nat) {b₁ b₂ : UInt8} (hl : 0xC2 ≤ b₁.toNat) (hh : b₁.toNat < 0xE0)
    (hl₂ : 0x80 ≤ b₂.toNat) (hh₂ : b₂.toNat ≤ 0xBF) (r : List UInt8) :
    piecesFrom pos none (b₁ :: b₂ :: r) =
      .char (Char.ofNat ((b₁.toNat - 0xC0) * 64 + (b₂.toNat - 0x80))) ::
        piecesFrom (pos + 2) none r := by
  rw [piecesFrom, step, begin_two pos hl hh, piecesFrom, step_last _ (Nat.le_refl 1) hl₂ hh₂]
  rfl

theorem pieces_three (pos : Nat) {b₁ b₂ b₃ : UInt8} (hl : 0xE0 ≤ b₁.toNat)
    (hh : b₁.toNat < 0xF0) (hl₂ : lowThree b₁.toNat ≤ b₂.toNat)
    (hh₂ : b₂.toNat ≤ highThree b₁.toNat) (hl₃ : 0x80 ≤ b₃.toNat) (hh₃ : b₃.toNat ≤ 0xBF)
    (r : List UInt8) :
    piecesFrom pos none (b₁ :: b₂ :: b₃ :: r) =
      .char (Char.ofNat (((b₁.toNat - 0xE0) * 64 + (b₂.toNat - 0x80)) * 64 +
        (b₃.toNat - 0x80))) :: piecesFrom (pos + 3) none r := by
  rw [piecesFrom, step, begin_three pos hl hh, piecesFrom,
    step_more _ (Nat.lt_succ_self 1) hl₂ hh₂, piecesFrom, step_last _ (Nat.le_refl 1) hl₃ hh₃]
  rfl

theorem pieces_four (pos : Nat) {b₁ b₂ b₃ b₄ : UInt8} (hl : 0xF0 ≤ b₁.toNat)
    (hh : b₁.toNat < 0xF5) (hl₂ : lowFour b₁.toNat ≤ b₂.toNat)
    (hh₂ : b₂.toNat ≤ highFour b₁.toNat) (hl₃ : 0x80 ≤ b₃.toNat) (hh₃ : b₃.toNat ≤ 0xBF)
    (hl₄ : 0x80 ≤ b₄.toNat) (hh₄ : b₄.toNat ≤ 0xBF) (r : List UInt8) :
    piecesFrom pos none (b₁ :: b₂ :: b₃ :: b₄ :: r) =
      .char (Char.ofNat ((((b₁.toNat - 0xF0) * 64 + (b₂.toNat - 0x80)) * 64 +
        (b₃.toNat - 0x80)) * 64 + (b₄.toNat - 0x80))) :: piecesFrom (pos + 4) none r := by
  rw [piecesFrom, step, begin_four pos hl hh, piecesFrom, step_more _ (by simp) hl₂ hh₂,
    piecesFrom, step_more _ (Nat.lt_succ_self 1) hl₃ hh₃, piecesFrom,
    step_last _ (Nat.le_refl 1) hl₄ hh₄]
  rfl

theorem toNat_ofNat_of_lt {n : Nat} (h : n < 256) : (UInt8.ofNat n).toNat = n := by
  simp [Nat.mod_eq_of_lt h]

theorem toNat_valid (c : Char) : c.toNat < 0xD800 ∨ 0xDFFF < c.toNat ∧ c.toNat < 0x110000 :=
  c.valid

/-- The machine reads one character that is written. -/
theorem piecesFrom_encodeChar (pos : Nat) (c : Char) (r : List UInt8) :
    piecesFrom pos none (String.utf8EncodeChar c ++ r) =
      .char c :: piecesFrom (pos + (String.utf8EncodeChar c).length) none r := by
  have hvalid := toNat_valid c
  have hself : Char.ofNat c.toNat = c := Char.ofNat_toNat c
  have hn : c.val.toNat = c.toNat := rfl
  simp only [String.utf8EncodeChar, hn]
  generalize c.toNat = n at hvalid hself
  split_ifs with h1 h2 h3
  · have e1 : (UInt8.ofNat n).toNat = n := toNat_ofNat_of_lt (by omega)
    simp only [List.cons_append, List.nil_append]
    rw [pieces_one pos (by omega), e1, hself]
    rfl
  · have e1 : (UInt8.ofNat (n / 64 % 32 + 192)).toNat = n / 64 + 192 := by
      rw [toNat_ofNat_of_lt (by omega)]
      omega
    have e2 : (UInt8.ofNat (n % 64 + 128)).toNat = n % 64 + 128 := toNat_ofNat_of_lt (by omega)
    have hcode : (n / 64 + 192 - 192) * 64 + (n % 64 + 128 - 128) = n := by omega
    simp only [List.cons_append, List.nil_append]
    rw [pieces_two pos (by omega) (by omega) (by omega) (by omega), e1, e2, hcode, hself]
    rfl
  · have e1 : (UInt8.ofNat (n / 4096 % 16 + 224)).toNat = n / 4096 + 224 := by
      rw [toNat_ofNat_of_lt (by omega)]
      omega
    have e2 : (UInt8.ofNat (n / 64 % 64 + 128)).toNat = n / 64 % 64 + 128 :=
      toNat_ofNat_of_lt (by omega)
    have e3 : (UInt8.ofNat (n % 64 + 128)).toNat = n % 64 + 128 := toNat_ofNat_of_lt (by omega)
    have hlow : lowThree (n / 4096 + 224) ≤ n / 64 % 64 + 128 := by
      unfold lowThree
      split_ifs <;> omega
    have hhigh : n / 64 % 64 + 128 ≤ highThree (n / 4096 + 224) := by
      unfold highThree
      split_ifs <;> omega
    have hcode : ((n / 4096 + 224 - 224) * 64 + (n / 64 % 64 + 128 - 128)) * 64 +
        (n % 64 + 128 - 128) = n := by omega
    simp only [List.cons_append, List.nil_append]
    rw [pieces_three pos (by omega) (by omega) (by rw [e1, e2]; exact hlow)
      (by rw [e1, e2]; exact hhigh) (by omega) (by omega), e1, e2, e3, hcode, hself]
    rfl
  · have e1 : (UInt8.ofNat (n / 262144 % 8 + 240)).toNat = n / 262144 + 240 := by
      rw [toNat_ofNat_of_lt (by omega)]
      omega
    have e2 : (UInt8.ofNat (n / 4096 % 64 + 128)).toNat = n / 4096 % 64 + 128 :=
      toNat_ofNat_of_lt (by omega)
    have e3 : (UInt8.ofNat (n / 64 % 64 + 128)).toNat = n / 64 % 64 + 128 :=
      toNat_ofNat_of_lt (by omega)
    have e4 : (UInt8.ofNat (n % 64 + 128)).toNat = n % 64 + 128 := toNat_ofNat_of_lt (by omega)
    have hlow : lowFour (n / 262144 + 240) ≤ n / 4096 % 64 + 128 := by
      unfold lowFour
      split_ifs <;> omega
    have hhigh : n / 4096 % 64 + 128 ≤ highFour (n / 262144 + 240) := by
      unfold highFour
      split_ifs <;> omega
    have hcode : (((n / 262144 + 240 - 240) * 64 + (n / 4096 % 64 + 128 - 128)) * 64 +
        (n / 64 % 64 + 128 - 128)) * 64 + (n % 64 + 128 - 128) = n := by omega
    simp only [List.cons_append, List.nil_append]
    rw [pieces_four pos (by omega) (by omega) (by rw [e1, e2]; exact hlow)
      (by rw [e1, e2]; exact hhigh) (by omega) (by omega) (by omega) (by omega), e1, e2, e3, e4,
      hcode, hself]
    rfl

/-! ## Reading a text -/

theorem charsOf_piecesFrom_encodeChars (pos : Nat) (cs : List Char) :
    charsOf (piecesFrom pos none (encodeChars cs)) = .ok cs := by
  induction cs generalizing pos with
  | nil => rfl
  | cons c r ih =>
    rw [encodeChars_cons, piecesFrom_encodeChar, charsOf, ih]
    rfl

/-- A character that is owed bytes gets one that continues it, or the bytes are no text. -/
theorem charsOf_pending {pos : Nat} {p : Pending} {bytes : List UInt8} {cs : List Char}
    (h : charsOf (piecesFrom pos (some p) bytes) = .ok cs) :
    ∃ b r, bytes = b :: r ∧ p.low ≤ b.toNat ∧ b.toNat ≤ p.high := by
  cases bytes with
  | nil => cases h
  | cons b r =>
    refine ⟨b, r, rfl, Decidable.byContradiction fun hb => ?_⟩
    have hstep : (step pos (some p) b).1 =
        .bad ⟨p.start, pos, p.lead, .invalidContinuation⟩ :: (begin pos b).1 := by
      simp [step, hb]
    rw [piecesFrom, hstep] at h
    cases h

theorem val_ofNat {n : Nat} (h : n < 0xD800 ∨ 0xDFFF < n ∧ n < 0x110000) :
    (Char.ofNat n).val.toNat = n := by
  have hv : n.isValidChar := h
  rw [Char.ofNat, dif_pos hv]
  rfl

theorem ofNat_eq {b : UInt8} {n : Nat} (h : n = b.toNat) : UInt8.ofNat n = b := by
  rw [h, UInt8.ofNat_toNat]

/-- The bytes of a text begin with a character. -/
theorem exists_encodeChar {pos : Nat} {b₁ : UInt8} {r₁ : List UInt8} {cs : List Char}
    (h : charsOf (piecesFrom pos none (b₁ :: r₁)) = .ok cs) :
    ∃ c r, b₁ :: r₁ = String.utf8EncodeChar c ++ r := by
  by_cases hone : b₁.toNat < 0x80
  · refine ⟨Char.ofNat b₁.toNat, r₁, ?_⟩
    rw [String.utf8EncodeChar, val_ofNat (by omega), if_pos (by omega), ofNat_eq rfl]
    rfl
  by_cases hbad : b₁.toNat < 0xC2 ∨ 0xF5 ≤ b₁.toNat
  · rw [piecesFrom, step, begin_bad pos (by omega)] at h
    cases h
  rw [piecesFrom, step] at h
  by_cases htwo : b₁.toNat < 0xE0
  · rw [begin_two pos (by omega) htwo] at h
    obtain ⟨b₂, r₂, rfl, hl₂, hh₂⟩ := charsOf_pending h
    simp only at hl₂ hh₂
    refine ⟨Char.ofNat ((b₁.toNat - 0xC0) * 64 + (b₂.toNat - 0x80)), r₂, ?_⟩
    rw [String.utf8EncodeChar, val_ofNat (by omega), if_neg (by omega), if_pos (by omega),
      ofNat_eq (b := b₁) (by omega), ofNat_eq (b := b₂) (by omega)]
    rfl
  by_cases hthree : b₁.toNat < 0xF0
  · rw [begin_three pos (by omega) hthree] at h
    obtain ⟨b₂, r₂, rfl, hl₂, hh₂⟩ := charsOf_pending h
    simp only at hl₂ hh₂
    rw [piecesFrom, step_more _ (Nat.lt_succ_self 1) hl₂ hh₂] at h
    obtain ⟨b₃, r₃, rfl, hl₃, hh₃⟩ := charsOf_pending h
    simp only at hl₃ hh₃
    unfold lowThree at hl₂
    unfold highThree at hh₂
    refine ⟨Char.ofNat (((b₁.toNat - 0xE0) * 64 + (b₂.toNat - 0x80)) * 64 +
      (b₃.toNat - 0x80)), r₃, ?_⟩
    have hl₂' : 0x80 ≤ b₂.toNat := by split_ifs at hl₂ <;> omega
    have hh₂' : b₂.toNat ≤ 0xBF := by split_ifs at hh₂ <;> omega
    rw [String.utf8EncodeChar, val_ofNat (by split_ifs at hl₂ hh₂ <;> omega),
      if_neg (by split_ifs at hl₂ <;> omega), if_neg (by split_ifs at hl₂ <;> omega),
      if_pos (by omega), ofNat_eq (b := b₁) (by omega), ofNat_eq (b := b₂) (by omega),
      ofNat_eq (b := b₃) (by omega)]
    rfl
  · rw [begin_four pos (by omega) (by omega)] at h
    obtain ⟨b₂, r₂, rfl, hl₂, hh₂⟩ := charsOf_pending h
    simp only at hl₂ hh₂
    rw [piecesFrom, step_more _ (by simp) hl₂ hh₂] at h
    obtain ⟨b₃, r₃, rfl, hl₃, hh₃⟩ := charsOf_pending h
    simp only at hl₃ hh₃
    rw [piecesFrom, step_more _ (Nat.lt_succ_self 1) hl₃ hh₃] at h
    obtain ⟨b₄, r₄, rfl, hl₄, hh₄⟩ := charsOf_pending h
    simp only at hl₄ hh₄
    unfold lowFour at hl₂
    unfold highFour at hh₂
    refine ⟨Char.ofNat ((((b₁.toNat - 0xF0) * 64 + (b₂.toNat - 0x80)) * 64 +
      (b₃.toNat - 0x80)) * 64 + (b₄.toNat - 0x80)), r₄, ?_⟩
    have hl₂' : 0x80 ≤ b₂.toNat := by split_ifs at hl₂ <;> omega
    have hh₂' : b₂.toNat ≤ 0xBF := by split_ifs at hh₂ <;> omega
    rw [String.utf8EncodeChar, val_ofNat (by split_ifs at hl₂ hh₂ <;> omega),
      if_neg (by split_ifs at hl₂ <;> omega), if_neg (by split_ifs at hl₂ <;> omega),
      if_neg (by split_ifs at hl₂ <;> omega), ofNat_eq (b := b₁) (by omega),
      ofNat_eq (b := b₂) (by omega), ofNat_eq (b := b₃) (by omega),
      ofNat_eq (b := b₄) (by omega)]
    rfl

theorem charsOf_cons {c : Char} {ps : List Piece} {cs : List Char}
    (h : charsOf (.char c :: ps) = .ok cs) : ∃ ds, cs = c :: ds ∧ charsOf ps = .ok ds := by
  rw [charsOf] at h
  cases hps : charsOf ps with
  | error m =>
    rw [hps] at h
    cases h
  | ok ds =>
    rw [hps] at h
    cases h
    exact ⟨ds, rfl, rfl⟩

/-- What the machine reads as a text is what is written for it. -/
theorem eq_encodeChars_of_charsOf {pos : Nat} {bytes : List UInt8} {cs : List Char}
    (h : charsOf (piecesFrom pos none bytes) = .ok cs) : bytes = encodeChars cs := by
  induction cs generalizing pos bytes with
  | nil =>
    cases bytes with
    | nil => rfl
    | cons b r =>
      obtain ⟨c, r', hb⟩ := exists_encodeChar h
      rw [hb, piecesFrom_encodeChar] at h
      obtain ⟨ds, hds, -⟩ := charsOf_cons h
      cases hds
  | cons c cs ih =>
    cases bytes with
    | nil => cases h
    | cons b r =>
      obtain ⟨c', r', hb⟩ := exists_encodeChar h
      rw [hb, piecesFrom_encodeChar] at h
      obtain ⟨ds, hds, hr⟩ := charsOf_cons h
      cases hds
      rw [hb, encodeChars_cons, ih hr]

/-- `decode` inverts `encode`, and accepts nothing else. -/
theorem decode_eq_ok_iff (bytes : List UInt8) (s : String) :
    decode bytes = .ok s ↔ bytes = encode s := by
  constructor
  · intro h
    rw [decode, pieces] at h
    cases hcs : charsOf (piecesFrom 0 none bytes) with
    | error m =>
      rw [hcs] at h
      cases h
    | ok cs =>
      rw [hcs] at h
      cases h
      rw [encode_eq, String.toList_ofList]
      exact eq_encodeChars_of_charsOf hcs
  · rintro rfl
    rw [decode, pieces, encode_eq, charsOf_piecesFrom_encodeChars]
    simp [Except.map]

/-! ## Cutting a text -/

/-- The bytes are a text. -/
def IsText (bytes : List UInt8) : Prop := ∃ cs, bytes = encodeChars cs

theorem isText_encode (s : String) : IsText (encode s) := ⟨s.toList, rfl⟩

theorem isText_iff_decode (bytes : List UInt8) : IsText bytes ↔ ∃ s, decode bytes = .ok s := by
  constructor
  · rintro ⟨cs, rfl⟩
    exact ⟨.ofList cs, (decode_eq_ok_iff ..).2 (by rw [encode_eq, String.toList_ofList])⟩
  · rintro ⟨s, hs⟩
    exact ⟨s.toList, (decode_eq_ok_iff ..).1 hs⟩

theorem IsText.append {a b : List UInt8} (ha : IsText a) (hb : IsText b) : IsText (a ++ b) := by
  obtain ⟨cs, rfl⟩ := ha
  obtain ⟨ds, rfl⟩ := hb
  exact ⟨cs ++ ds, (encodeChars_append cs ds).symm⟩

/-- The byte continues a character that was begun before it. -/
def IsContinuation (b : UInt8) : Prop := 0x80 ≤ b.toNat ∧ b.toNat < 0xC0

/-- A character begins with a byte that continues none, and goes on with bytes that do. -/
theorem encodeChar_shape (c : Char) : ∃ lead rest, String.utf8EncodeChar c = lead :: rest ∧
    ¬ IsContinuation lead ∧ ∀ b ∈ rest, IsContinuation b := by
  have hcont : ∀ n, IsContinuation (UInt8.ofNat (n % 64 + 128)) := by
    intro n
    unfold IsContinuation
    rw [toNat_ofNat_of_lt (by omega)]
    omega
  have hlead : ∀ n, n < 128 ∨ 192 ≤ n ∧ n < 256 → ¬ IsContinuation (UInt8.ofNat n) := by
    intro n hn
    unfold IsContinuation
    rw [toNat_ofNat_of_lt (by omega)]
    omega
  have hnil : ∀ b ∈ ([] : List UInt8), IsContinuation b := by simp
  simp only [String.utf8EncodeChar]
  generalize c.val.toNat = n
  split_ifs with h1 h2 h3
  · exact ⟨_, _, rfl, hlead _ (by omega), hnil⟩
  · exact ⟨_, _, rfl, hlead _ (by omega), List.forall_mem_cons.2 ⟨hcont _, hnil⟩⟩
  · exact ⟨_, _, rfl, hlead _ (by omega),
      List.forall_mem_cons.2 ⟨hcont _, List.forall_mem_cons.2 ⟨hcont _, hnil⟩⟩⟩
  · exact ⟨_, _, rfl, hlead _ (by omega),
      List.forall_mem_cons.2 ⟨hcont _, List.forall_mem_cons.2 ⟨hcont _,
        List.forall_mem_cons.2 ⟨hcont _, hnil⟩⟩⟩⟩

/-- A text can be cut before a byte that continues no character. -/
theorem cut_before {cs : List Char} {a : List UInt8} {b : UInt8} {r : List UInt8}
    (hb : ¬ IsContinuation b) (h : encodeChars cs = a ++ b :: r) :
    IsText a ∧ IsText (b :: r) := by
  induction cs generalizing a with
  | nil => simp at h
  | cons c cs ih =>
    cases a with
    | nil => exact ⟨⟨[], rfl⟩, ⟨c :: cs, h.symm⟩⟩
    | cons x a =>
      obtain ⟨lead, rest, hc, -, hrest⟩ := encodeChar_shape c
      rw [encodeChars_cons, hc, List.cons_append, List.cons_append, List.cons.injEq] at h
      obtain ⟨rfl, h⟩ := h
      rcases List.append_eq_append_iff.1 h with ⟨a', rfl, h'⟩ | ⟨c', rfl, h'⟩
      · obtain ⟨⟨ds, hds⟩, hr⟩ := ih h'
        refine ⟨⟨c :: ds, ?_⟩, hr⟩
        rw [encodeChars_cons, hc, hds]
        rfl
      · cases c' with
        | nil =>
          rw [List.nil_append] at h'
          refine ⟨⟨[c], ?_⟩, ⟨cs, h'⟩⟩
          rw [encodeChars_cons, hc]
          simp
        | cons y c' =>
          rw [List.cons_append, List.cons.injEq] at h'
          exact absurd (hrest b (by simp [h'.1])) hb

/-- What follows a text in a text is a text. -/
theorem isText_of_append {cs : List Char} {b : List UInt8} (h : IsText (encodeChars cs ++ b)) :
    IsText b := by
  obtain ⟨ds, hds⟩ := h
  induction cs generalizing ds with
  | nil => exact ⟨ds, hds⟩
  | cons c cs ih =>
    have hp := congrArg (piecesFrom 0 none) hds
    rw [encodeChars_cons, List.append_assoc, piecesFrom_encodeChar] at hp
    cases ds with
    | nil => simp [piecesFrom] at hp
    | cons d ds =>
      rw [encodeChars_cons, piecesFrom_encodeChar, List.cons.injEq, Piece.char.injEq] at hp
      obtain ⟨rfl, -⟩ := hp
      rw [encodeChars_cons, encodeChars_cons, List.append_assoc] at hds
      exact ih ds (List.append_cancel_left hds)

/-- What stands around a stretch that is a text is a text. -/
theorem isText_around {a s b : List UInt8} (h : IsText (a ++ s ++ b)) (hs : IsText s)
    (hne : s ≠ []) : IsText a ∧ IsText b := by
  obtain ⟨cs, rfl⟩ := hs
  cases cs with
  | nil => exact absurd rfl hne
  | cons c cs =>
    obtain ⟨lead, rest, hc, hlead, -⟩ := encodeChar_shape c
    obtain ⟨ds, hds⟩ := h
    have hcut : encodeChars ds = a ++ lead :: (rest ++ encodeChars cs ++ b) := by
      rw [← hds, encodeChars_cons, hc]
      simp
    obtain ⟨ha, hrest⟩ := cut_before hlead hcut
    have hall : IsText (encodeChars (c :: cs) ++ b) := by
      rw [encodeChars_cons, hc]
      simpa using hrest
    exact ⟨ha, isText_of_append hall⟩

/-! ## Widths -/

theorem width_append (a b : List Char) : width (a ++ b) = width a + width b := by
  simp [width]

theorem width_singleton (c : Char) : width [c] = c.utf8Size := by simp [width]

theorem width_cons (c : Char) (cs : List Char) : width (c :: cs) = c.utf8Size + width cs := by
  simp [width]

theorem length_encodeChars (cs : List Char) : (encodeChars cs).length = width cs := rfl

theorem encodeChars_ne_nil {cs : List Char} (h : cs ≠ []) : encodeChars cs ≠ [] := by
  obtain ⟨c, cs, rfl⟩ := List.exists_cons_of_ne_nil h
  have := c.utf8Size_pos
  refine List.ne_nil_of_length_pos ?_
  rw [length_encodeChars, width_cons]
  omega

theorem encode_injective {s t : String} (h : encode s = encode t) : s = t :=
  Except.ok.inj (((decode_eq_ok_iff _ s).2 rfl).symm.trans ((decode_eq_ok_iff _ t).2 h))

theorem take_encodeChars (a b : List Char) :
    (encodeChars (a ++ b)).take (width a) = encodeChars a := by
  rw [encodeChars_append, ← length_encodeChars, List.take_left]

/-- The bytes of a stretch of the characters. -/
theorem drop_take_encodeChars (a v b : List Char) :
    ((encodeChars (a ++ (v ++ b))).take (width a + width v)).drop (width a) = encodeChars v := by
  rw [← List.append_assoc, ← width_append, take_encodeChars, encodeChars_append,
    ← length_encodeChars, List.drop_left]

/-- Of two beginnings of one list the one that takes fewer bytes begins the other. -/
theorem prefix_of_width_le {a b a' b' : List Char} (h : a ++ b = a' ++ b')
    (hle : width a ≤ width a') : a <+: a' := by
  rcases List.append_eq_append_iff.1 h with ⟨x, rfl, -⟩ | ⟨x, rfl, -⟩
  · exact List.prefix_append a x
  · cases x with
    | nil => simp
    | cons c x =>
      have hpos := c.utf8Size_pos
      rw [width_append, width_cons] at hle
      omega

theorem utf8Size_ascii {c : Char} (h : c.toNat < 128) : c.utf8Size = 1 := by
  rw [Char.utf8Size_eq_one_iff, UInt32.le_iff_toNat_le]
  exact Nat.le_of_lt_succ h

/-- ASCII takes one byte for each character. -/
theorem width_ascii {cs : List Char} (h : ∀ c ∈ cs, c.toNat < 128) : width cs = cs.length := by
  induction cs with
  | nil => rfl
  | cons c cs ih =>
    rw [width_cons, utf8Size_ascii (h c List.mem_cons_self),
      ih fun x hx => h x (List.mem_cons_of_mem _ hx), List.length_cons, Nat.add_comm]

end ModuleGraph.Utf8
