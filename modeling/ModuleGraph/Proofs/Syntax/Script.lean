import ModuleGraph.Proofs.Syntax.Peg
import ModuleGraph.Syntax.Script
/-!
# Specifiers of parsed scripts

Whatever a script is, well-formed or not, the specifiers that are found in its syntax tree stand in
the script between quotes, and no two of them share a byte.

Results:
* `quoted_of_mem_specifierSpans`: a specifier stands between quotes;
* `pairwise_specifierSpans_parse`: **main theorem**: the specifiers of a script share no byte.
-/

namespace ModuleGraph.Syntax

theorem reads_of_readScript {how : Reading} {cs : List Char} {children : List Tree} {next : Cursor}
    (h : readScript how cs = some (children, next)) : Reads ⟨cs, 0⟩ children next :=
  Peg.reads_of_run Grammar.isHonest_rules rfl h

/-- The nodes of a tree stand in the characters, one after the other. -/
structure Tree.StandsIn (t : Tree) (cs : List Char) : Prop where
  laid : Tree.Laid t.start t.stop t.children
  genuine : Tree.Every (Genuine 0 cs) t.children

theorem standsIn_rootOver {dialect : Dialect} {cs : List Char} {children : List Tree}
    {next : Cursor} (h : Reads ⟨cs, 0⟩ children next) :
    (rootOver dialect cs children).StandsIn cs := by
  obtain ⟨used, hused, hpos⟩ := h.used
  have hle : next.pos ≤ Utf8.width cs := by
    simp only at hused hpos
    rw [hused, Utf8.width_append, hpos]
    omega
  refine ⟨?_, h.genuine⟩
  cases children with
  | nil => exact .nil (Nat.le_refl _)
  | cons t r =>
    cases h.laid with
    | cons _ hchildren hr =>
      exact .cons (Nat.le_refl _) hchildren (hr.mono (Nat.le_refl _) hle)

theorem standsIn_parse (dialect : Dialect) (text : String) :
    (parse dialect text).StandsIn text.toList := by
  unfold parse
  simp only
  split
  · next h => exact standsIn_rootOver (reads_of_readScript h)
  · split
    · next h => exact standsIn_rootOver (reads_of_readScript h)
    · refine ⟨.cons (Nat.le_refl _) (.nil (Nat.zero_le _)) (.nil (Nat.le_refl _)),
        .cons ⟨⟨fun _ => rfl, fun h => ?_⟩, fun h => ?_⟩ .nil .nil⟩
      · cases h
      · simp [Tree.kind] at h

/-- The root of a script ends with the text, and it is no string. -/
theorem root_parse (dialect : Dialect) (text : String) :
    (parse dialect text).stop = Utf8.width text.toList ∧ (parse dialect text).kind ≠ "string" := by
  have hroot (children : List Tree) :
      (rootOver dialect text.toList children).stop = Utf8.width text.toList ∧
        (rootOver dialect text.toList children).kind ≠ "string" := by
    refine ⟨rfl, ?_⟩
    simp only [rootOver, Tree.kind]
    split <;> decide
  unfold parse
  simp only
  split
  · exact hroot _
  · split
    · exact hroot _
    · exact ⟨rfl, by simp [Tree.kind]⟩

/-- A specifier of a script stands between quotes. -/
theorem quoted_of_mem_specifierSpans {dialect : Dialect} {text : String} {span : Nat × Nat}
    (h : span ∈ (parse dialect text).specifierSpans) : Quoted 0 text.toList span := by
  obtain ⟨c, hc, hspan⟩ :=
    Tree.exists_string_of_mem_specifierSpans (standsIn_parse dialect text).genuine h
  exact hc.quoted (Tree.contentSpan?_eq_some_iff.1 hspan).1 span hspan

/-- **main theorem**: the specifiers of a script share no byte. -/
theorem pairwise_specifierSpans_parse (dialect : Dialect) (text : String) :
    (parse dialect text).specifierSpans.Pairwise Tree.Apart := by
  have h := standsIn_parse dialect text
  have hformed := h.genuine.imp fun _ => Genuine.formed
  exact Tree.pairwise_specifierSpans h.laid (Tree.hasArguments_of_formed hformed) hformed.untangled

end ModuleGraph.Syntax
