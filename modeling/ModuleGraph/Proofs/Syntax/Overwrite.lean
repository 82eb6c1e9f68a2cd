import Mathlib.Data.List.Perm.Subperm
import ModuleGraph.Proofs.Editor.Calls
import ModuleGraph.Proofs.Syntax.Script
/-!
# Overwriting the specifiers of a tree

The ranges of the specifiers are found once, and the editor is asked to overwrite them in whatever
order their modules arrive, without those that could not be loaded. None of these requests may be
refused.

Only the shape of the tree counts: nodes in their places, no string below a string, and calls whose
arguments are a node of that kind. What else may stand below a string does not matter. In
particular a node that holds a specifier has a string below it, and so cannot stand in a string.

Results:
* `standsOver_parse`: the trees of scripts have this shape;
* `accepted_of_subperm`: ranges that share no byte are overwritten in any order, whichever of them;
* `overwrites_specifiers`: **main theorem**: the ranges of the specifiers are not empty, lie inside
  the text, share no byte, and any of them are overwritten in any order.
-/

namespace ModuleGraph

namespace Edit

/-- The bytes that the edit replaces. -/
def span (d : Edit) : Nat × Nat := (d.start, d.stop)

/-- The call that asks for the edit. -/
def call (d : Edit) : Editor.Call := ⟨d.start, d.stop, d.replacement⟩

@[simp]
theorem edit_call (d : Edit) : d.call.edit = d := rfl

end Edit

namespace Syntax.Tree

/-- The tree stands over a text: its nodes are in their places inside the text, no string stands
below a string, and the arguments of a call are a node of that kind. -/
structure StandsOver (root : Tree) (bytes : List UInt8) : Prop where
  inside : root.stop ≤ bytes.length
  laid : Laid root.start root.stop root.children
  untangled : Every IsUntangled [root]

/-- The tree of a script stands over the bytes of the script, whatever the script is. -/
theorem standsOver_parse (dialect : Dialect) (text : String) :
    (parse dialect text).StandsOver (Utf8.encode text) := by
  obtain ⟨hstop, hkind⟩ := root_parse dialect text
  have h := standsIn_parse dialect text
  have hformed := h.genuine.imp fun _ => Genuine.formed
  refine ⟨?_, h.laid, every_cons_iff.2 ⟨⟨fun hstring => absurd hstring hkind,
    hasArguments_of_formed hformed⟩, hformed.untangled, .nil⟩⟩
  rw [hstop, Utf8.encode_eq, Utf8.length_encodeChars]

/-- The specifiers of a tree can be overwritten in a text. -/
structure Overwritable (root : Tree) (bytes : List UInt8) : Prop where
  /-- Every range holds a byte. -/
  nonempty : ∀ span ∈ specifierSpans root, span.1 < span.2
  /-- Every range lies inside the text. -/
  inside : ∀ span ∈ specifierSpans root, span.2 ≤ bytes.length
  /-- No byte is in two of the ranges, and no range is found twice. -/
  apart : (specifierSpans root).Pairwise Apart
  /-- Any of the ranges are overwritten with anything in any order: each call is accepted, and in
  the end the editor holds these edits and no others. -/
  accepted : ∀ ds : List Edit, (ds.map Edit.span).Subperm (specifierSpans root) →
    (∀ a ∈ (Editor.ofBytes bytes).answers (ds.map Edit.call), a = .ok ()) ∧
      (Editor.ofBytes bytes).afterAll (ds.map Edit.call) = ⟨bytes, ds⟩

theorem Apart.symm {a b : Nat × Nat} (h : Apart a b) : Apart b a := Or.symm h

/-- Ranges that lie inside the text and share no byte are overwritten in any order, whichever of
them. -/
theorem accepted_of_subperm {bytes : List UInt8} {spans : List (Nat × Nat)}
    (hfits : ∀ span ∈ spans, span.1 < span.2 ∧ span.2 ≤ bytes.length)
    (hapart : spans.Pairwise Apart) {ds : List Edit} (h : (ds.map Edit.span).Subperm spans) :
    (∀ a ∈ (Editor.ofBytes bytes).answers (ds.map Edit.call), a = .ok ()) ∧
      (Editor.ofBytes bytes).afterAll (ds.map Edit.call) = ⟨bytes, ds⟩ := by
  have hinside : ∀ c ∈ ds.map Edit.call, c.IsInside bytes.length := by
    intro c hc
    obtain ⟨d, hd, rfl⟩ := List.mem_map.1 hc
    obtain ⟨hlt, hle⟩ := hfits d.span (h.subset (List.mem_map_of_mem hd))
    simp only [Edit.span] at hlt hle
    simp only [Editor.Call.IsInside, Edit.call]
    omega
  have hcalls : (ds.map Edit.call).Pairwise Editor.Call.Apart := by
    obtain ⟨chosen, hperm, hsub⟩ := h
    have hspans : (ds.map Edit.span).Pairwise Apart :=
      (hperm.pairwise_iff Apart.symm).1 (hapart.sublist hsub)
    rw [List.pairwise_map] at hspans ⊢
    refine hspans.imp fun {d d'} hd => ?_
    simp only [Apart, Edit.span] at hd
    simp only [Editor.Call.Apart, Edit.call]
    omega
  obtain ⟨hall, hrun⟩ := Editor.run_of_pairwise (e := Editor.ofBytes bytes) hinside hcalls
    fun _ hd => absurd hd List.not_mem_nil
  refine ⟨hall, ?_⟩
  rw [hrun, List.map_map]
  simp [Editor.ofBytes, Function.comp_def]

/-- **Specifiers never clash.** In a tree that stands over a text, the ranges of the specifiers are
not empty, lie inside the text and share no byte. Any of them can be overwritten in any order, with
whatever replacements: the editor accepts every call and records every edit. -/
theorem overwrites_specifiers {root : Tree} {bytes : List UInt8} (h : root.StandsOver bytes) :
    root.Overwritable bytes := by
  obtain ⟨hroot, hchildren, -⟩ := every_cons_iff.1 h.untangled
  have hnonempty : ∀ span ∈ specifierSpans root, span.1 < span.2 :=
    fun _ hs => lt_of_mem_specifierSpans hs
  have hinside : ∀ span ∈ specifierSpans root, span.2 ≤ bytes.length := fun span hs =>
    (bounds_of_mem_specifierSpans h.laid hs).2.trans h.inside
  have hapart := pairwise_specifierSpans h.laid hroot.arguments hchildren
  exact ⟨hnonempty, hinside, hapart, fun ds hds =>
    accepted_of_subperm (fun span hs => ⟨hnonempty span hs, hinside span hs⟩) hapart hds⟩

/-- The text `export * from "./a";import("./b",import("./c"))`. -/
def nestedImports : String := "export * from \"./a\";import(\"./b\",import(\"./c\"))"

/-- Its tree, in which one call stands among the arguments of the other. -/
def nestedTree : Tree :=
  let quoted (start : Nat) (field : Option String) : Tree :=
    .node "string" start (start + 5) field true
      [.node "string_fragment" (start + 1) (start + 4) none true []]
  let called (start stop : Nat) (arguments : List Tree) : Tree :=
    .node "call_expression" start stop none true
      [.node "import" start (start + 6) (some "function") true [],
        .node "arguments" (start + 6) stop (some "arguments") true arguments]
  .node "program" 0 47 none true
    [.node "export_statement" 0 20 none true [quoted 14 (some "source")],
      .node "expression_statement" 20 47 none true
        [called 20 47 [quoted 27 none, called 33 46 [quoted 40 none]]]]

/-- Three literals, one of them reached from inside the arguments of another call. -/
theorem overwrites_specifiers_nested :
    nestedTree.StandsOver (Utf8.encode nestedImports) ∧
      specifierSpans nestedTree = [(15, 18), (28, 31), (41, 44)] ∧
      nestedTree.Overwritable (Utf8.encode nestedImports) := by
  have hstands : nestedTree.StandsOver (Utf8.encode nestedImports) := by
    refine ⟨by decide, ?_, ?_⟩
    · simp [nestedTree, start, stop, children]
    · simp [nestedTree, isUntangled_iff, HasArguments, childBy?, kind, field, children]
  refine ⟨hstands, ?_, overwrites_specifiers hstands⟩
  rw [specifierSpans_eq]
  decide

end Syntax.Tree

end ModuleGraph
