import ModuleGraph.Proofs.Url.Join
import ModuleGraph.Proofs.Url.Percent
/-!
# Escaped paths

A path is written byte by byte, and so are its escapes undone: what is written for one byte is read as
that byte, whatever follows. Nothing that is written has a meaning of its own in a URL, so the path of
a URL that an escaped path was put into is that escaped path, and nothing of it is lost.

Results:
* `unescapeBytes_flatMap_escapeByte`: the bytes are found again, any bytes;
* `unescape_escapePath`: and so is the path;
* `split_file`: the parts of the URL of a file.
-/

namespace ModuleGraph

theorem Hex.digitValue?_upperDigit {n : Nat} (h : n < 16) : digitValue? (upperDigit n) = some n := by
  revert n
  decide

namespace Utf8

/-- What is read of a text is the text. -/
theorem shownFrom_encodeChars (pos : Nat) (cs : List Char) :
    shownFrom pos none (encodeChars cs) = cs := by
  induction cs generalizing pos with
  | nil => rfl
  | cons c cs ih =>
    have hrest := ih (pos + (String.utf8EncodeChar c).length)
    unfold shownFrom at hrest ⊢
    rw [encodeChars_cons, piecesFrom_encodeChar, List.map_cons, hrest]
    rfl

theorem toList_decodeLossy_encode (s : String) : (decodeLossy (encode s)).toList = s.toList := by
  rw [toList_decodeLossy, encode_eq, shownFrom_encodeChars]

end Utf8

namespace Url

/-! ## Bytes -/

theorem isPlain_upperDigit {n : Nat} (h : n < 16) : isPlain (Hex.upperDigit n) = true := by
  revert n
  decide

theorem ne_percent_of_isPlain {c : Char} (h : isPlain c = true) : c ≠ '%' := by
  rintro rfl
  revert h
  decide

/-- A byte is written as the character that it is, or as an escape. -/
theorem escapeByte_cases (b : UInt8) :
    (∃ c, escapeByte b = [c] ∧ isPlain c = true ∧ UInt8.ofNat c.toNat = b) ∨
      escapeByte b = ['%', Hex.upperDigit (b.toNat / 16), Hex.upperDigit (b.toNat % 16)] := by
  unfold escapeByte
  dsimp only
  split_ifs with h
  · left
    rw [Bool.and_eq_true, decide_eq_true_eq] at h
    have hcode : (Char.ofNat b.toNat).toNat = b.toNat :=
      Utf8.val_ofNat (.inl (by omega))
    exact ⟨_, rfl, h.2, by rw [hcode]; exact UInt8.ofNat_toNat⟩
  · exact .inr rfl

/-- What is written for a byte is read as that byte. -/
theorem unescapeBytes_escapeByte (b : UInt8) (r : List Char) :
    unescapeBytes (escapeByte b ++ r) = b :: unescapeBytes r := by
  rcases escapeByte_cases b with ⟨c, hc, hplain, hb⟩ | hc
  · rw [hc, List.singleton_append, unescapeBytes_of_ne (ne_percent_of_isPlain hplain), hb]
  · have hlt : b.toNat < 256 := UInt8.toNat_lt b
    rw [hc, List.cons_append, List.cons_append, List.cons_append, List.nil_append, unescapeBytes,
      Hex.digitValue?_upperDigit (by omega), Hex.digitValue?_upperDigit (by omega)]
    dsimp only
    rw [Nat.div_add_mod, UInt8.ofNat_toNat]

/-- The bytes are found again. -/
theorem unescapeBytes_flatMap_escapeByte (bytes : List UInt8) :
    unescapeBytes (bytes.flatMap escapeByte) = bytes := by
  induction bytes with
  | nil => rfl
  | cons b bytes ih => rw [List.flatMap_cons, unescapeBytes_escapeByte, ih]

/-! ## Characters -/

/-- What is written for bytes are the characters that stand for themselves, and the sign of an
escape. -/
theorem mem_flatMap_escapeByte {bytes : List UInt8} {c : Char}
    (h : c ∈ bytes.flatMap escapeByte) : c = '%' ∨ isPlain c = true := by
  obtain ⟨b, -, hc⟩ := List.mem_flatMap.1 h
  have hlt : b.toNat < 256 := UInt8.toNat_lt b
  rcases escapeByte_cases b with ⟨d, hd, hplain, -⟩ | hd
  · rw [hd, List.mem_singleton] at hc
    exact .inr (hc ▸ hplain)
  · rw [hd] at hc
    simp only [List.mem_cons, List.not_mem_nil, or_false] at hc
    rcases hc with rfl | rfl | rfl
    · exact .inl rfl
    · exact .inr (isPlain_upperDigit (by omega))
    · exact .inr (isPlain_upperDigit (by omega))

/-- No character of an escaped path has a meaning of its own in a URL. -/
theorem spec_of_mem_escapePath {path : String} {c : Char} (h : c ∈ (escapePath path).toList) :
    c.toNat < 0x80 ∧ c ≠ '?' ∧ c ≠ '#' ∧ isLineControl c = false := by
  rw [escapePath, String.toList_ofList] at h
  rcases mem_flatMap_escapeByte h with rfl | hplain
  · decide
  · have hrange : (0x2D ≤ c.toNat ∧ c.toNat < 0x3F) ∨ 0x3F < c.toNat ∧ c.toNat < 0x80 := by
      simp only [isPlain, Bool.or_eq_true, decide_eq_true_eq] at hplain
      rcases hplain with ((((h | rfl) | rfl) | rfl) | rfl) | rfl
      · have hascii := toNat_of_isAlphanum h
        omega
      all_goals decide
    refine ⟨by omega, ?_, ?_, ?_⟩
    · rintro rfl
      revert hrange
      decide
    · rintro rfl
      revert hrange
      decide
    · simp only [isLineControl, Bool.or_eq_false_iff, decide_eq_false_iff_not]
      refine ⟨⟨?_, ?_⟩, ?_⟩ <;> rintro rfl <;> revert hrange <;> decide

/-- A path is found again when its escapes are undone. -/
theorem unescape_escapePath (path : String) : unescape (escapePath path).toList = path.toList := by
  rw [unescape, unescapeFrom_ascii [] fun c hc => (spec_of_mem_escapePath hc).1, List.reverse_nil,
    List.nil_append, unescapeRun, escapePath, String.toList_ofList,
    unescapeBytes_flatMap_escapeByte, Utf8.toList_decodeLossy_encode]

/-! ## URLs of files -/

/-- Paths one behind the other are written so. -/
theorem toList_escapePath_append (a b : String) :
    (escapePath (a ++ b)).toList = (escapePath a).toList ++ (escapePath b).toList := by
  simp only [escapePath, String.toList_ofList, Utf8.encode_eq, String.toList_append,
    Utf8.encodeChars_append, List.flatMap_append]

theorem head?_escapePath {path : String} (h : path.toList.head? = some '/') :
    (escapePath path).toList.head? = some '/' := by
  obtain ⟨rest, hrest⟩ := List.head?_eq_some_iff.1 h
  have hslash : path = "/" ++ .ofList rest := by
    simp [← String.toList_inj, hrest]
  rw [hslash, toList_escapePath_append]
  rfl

/-- The only part of the URL of a file, apart from the scheme, is the escaped path. -/
theorem split_file {path : String} (h : path.toList.head? = some '/') :
    split ("file://" ++ escapePath path) =
      .ok ⟨"file".toList, [], (escapePath path).toList, [], []⟩ := by
  have hwritten : "file://" ++ escapePath path =
      .ofList (written "file".toList [] (escapePath path).toList) := by
    simp [← String.toList_inj, written]
  rw [hwritten]
  refine split_written (.inl rfl) (by decide) (fun c hc => absurd hc List.not_mem_nil)
    (head?_escapePath h) ⟨fun hc => ?_, fun hc => ?_⟩ fun c hc => ?_
  · exact (spec_of_mem_escapePath hc).2.1 rfl
  · exact (spec_of_mem_escapePath hc).2.2.1 rfl
  · exact (spec_of_mem_escapePath (hc.resolve_left List.not_mem_nil)).2.2.2

end Url

end ModuleGraph
