import ModuleGraph.Digest
/-!
# Digests as names

The digest of a text is 64 hexadecimal digits, so it can stand in the name of a file.

Results:
* `Digest.mem_ofText`, `Digest.length_ofText`: the characters and the length of a digest.
-/

namespace ModuleGraph

namespace Digest

theorem length_bigEndian (width n : Nat) : (bigEndian width n).length = width := by
  induction width generalizing n with
  | zero => rfl
  | succ width ih => rw [bigEndian, List.length_append, ih, List.length_singleton]

theorem length_sha256 (message : List UInt8) : (sha256 message).length = 32 := by
  simp [sha256, State.words, length_bigEndian]

theorem mem_ofText {s : String} {c : Char} (h : c ∈ (ofText s).toList) :
    c ≠ '/' ∧ c ≠ '\x00' ∧ c.toNat < 128 := by
  rw [ofText, Hex.ofBytes, String.toList_ofList, List.mem_flatMap] at h
  obtain ⟨b, -, hc⟩ := h
  obtain ⟨m, hm, rfl⟩ := Hex.mem_digits hc
  have hall : ∀ m < 16, Hex.lowerDigit m ≠ '/' ∧ Hex.lowerDigit m ≠ '\x00' ∧
      (Hex.lowerDigit m).toNat < 128 := by decide
  exact hall m hm

theorem length_ofText (s : String) : (ofText s).toList.length = 64 := by
  rw [ofText, Hex.ofBytes, String.toList_ofList, List.length_flatMap]
  simp only [Hex.length_digits, List.map_const', length_sha256]
  rfl

end Digest

end ModuleGraph
