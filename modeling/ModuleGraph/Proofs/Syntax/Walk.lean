import ModuleGraph.Proofs.Syntax.Tree
/-!
# Walks with a stack

The specifiers of a tree are found in a loop over a stack. Each turn takes the top off the stack,
notes the specifier that it holds, and pushes its children in reverse, so that the first of them is
on top in the next turn.

Nodes are told apart by their places, since one tree may stand in several places of another. The
places of a tree have an order of their own, that of their entries from the first on: the place of a
node comes before those of the nodes below it, and these come before the places further to the right.

Results:
* `specifierSpan?_eq_some_iff`: which range a node holds;
* `mem_nodes_iff`, `pairwise_nodes`: the nodes of a tree in the order of their places;
* `Walk.Sound.step`: what one turn of the loop keeps;
* `Walk.Sound.of_ends`, `Walk.exists_ends`: how many turns the loop has, and what it has done then;
* `Walk.spans_of_ends`: the loop finds what the search for specifiers finds;
* `walks_in_order`: **main theorem**: the loop visits every node once, in the order of their places,
  and finds what the recursion over the tree finds.
-/

namespace ModuleGraph.Syntax.Tree

/-! ## Specifiers of a node -/

/-- The first entry of a list that has a property. -/
def IsFirst (P : Tree → Prop) (ts : List Tree) (c : Tree) : Prop :=
  ∃ before after, ts = before ++ c :: after ∧ P c ∧ ∀ d ∈ before, ¬ P d

/-- The node that may be the literal of a specifier: the source of a statement, or the first argument
of a call of `import`. -/
inductive HasLiteral (t : Tree) : Tree → Prop
  | source {c : Tree} : t.kind = "import_statement" ∨ t.kind = "export_statement" →
      IsFirst (fun d => d.field = some "source") t.children c → HasLiteral t c
  | argument {callee arguments c : Tree} : t.kind = "call_expression" →
      IsFirst (fun d => d.field = some "function") t.children callee → callee.kind = "import" →
      IsFirst (fun d => d.field = some "arguments") t.children arguments →
      IsFirst (fun d => d.isNamed = true) arguments.children c → HasLiteral t c

/-- The range is that between the quotes of the node's literal, which holds something. -/
def Emits (t : Tree) (span : Nat × Nat) : Prop :=
  ∃ c, HasLiteral t c ∧ c.kind = "string" ∧ c.start + 2 < c.stop ∧
    span = (c.start + 1, c.stop - 1)

theorem find?_eq_some_iff_isFirst {p : Tree → Bool} {ts : List Tree} {c : Tree} :
    ts.find? p = some c ↔ IsFirst (fun d => p d = true) ts c := by
  rw [List.find?_eq_some_iff_append, IsFirst]
  constructor
  · rintro ⟨hc, before, after, hts, hbefore⟩
    exact ⟨before, after, hts, hc, fun d hd => by simpa using hbefore d hd⟩
  · rintro ⟨before, after, hts, hc, hbefore⟩
    exact ⟨hc, before, after, hts, fun d hd => by simpa using hbefore d hd⟩

theorem childBy?_eq_some_iff {t c : Tree} {name : String} :
    t.childBy? name = some c ↔ IsFirst (fun d => d.field = some name) t.children c := by
  rw [childBy?, find?_eq_some_iff_isFirst]
  simp only [decide_eq_true_eq]

theorem firstNamed?_eq_some_iff {t c : Tree} :
    t.firstNamed? = some c ↔ IsFirst (fun d => d.isNamed = true) t.children c :=
  find?_eq_some_iff_isFirst

theorem specifierNode?_eq_some_iff {t c : Tree} : t.specifierNode? = some c ↔ HasLiteral t c := by
  constructor
  · intro h
    unfold specifierNode? at h
    split at h
    · next hkind => exact .source hkind (childBy?_eq_some_iff.1 h)
    · split at h
      · next hkind =>
        obtain ⟨callee, hcallee, h⟩ := Option.bind_eq_some_iff.1 h
        split at h
        · cases h
        · next himport =>
          obtain ⟨arguments, harguments, h⟩ := Option.bind_eq_some_iff.1 h
          exact .argument hkind (childBy?_eq_some_iff.1 hcallee) (Decidable.not_not.1 himport)
            (childBy?_eq_some_iff.1 harguments) (firstNamed?_eq_some_iff.1 h)
      · cases h
  · rintro (⟨hkind, hc⟩ | ⟨hkind, hcallee, himport, harguments, hc⟩)
    · rw [specifierNode?, if_pos hkind]
      exact childBy?_eq_some_iff.2 hc
    · have hstatement : ¬(t.kind = "import_statement" ∨ t.kind = "export_statement") := by
        rw [hkind]
        decide
      rw [specifierNode?, if_neg hstatement, if_pos hkind]
      refine Option.bind_eq_some_iff.2 ⟨_, childBy?_eq_some_iff.2 hcallee, ?_⟩
      rw [if_neg (Decidable.not_not.2 himport)]
      exact Option.bind_eq_some_iff.2 ⟨_, childBy?_eq_some_iff.2 harguments,
        firstNamed?_eq_some_iff.2 hc⟩

/-- The range that a node holds. -/
theorem specifierSpan?_eq_some_iff {t : Tree} {span : Nat × Nat} :
    t.specifierSpan? = some span ↔ Emits t span := by
  rw [specifierSpan?, Option.filter_eq_some_iff, Option.bind_eq_some_iff]
  constructor
  · rintro ⟨⟨c, hc, hspan⟩, hlt⟩
    obtain ⟨hkind, -, rfl⟩ := contentSpan?_eq_some_iff.1 hspan
    rw [decide_eq_true_eq] at hlt
    exact ⟨c, specifierNode?_eq_some_iff.1 hc, hkind, by omega, rfl⟩
  · rintro ⟨c, hc, hkind, hlt, rfl⟩
    refine ⟨⟨c, specifierNode?_eq_some_iff.2 hc, ?_⟩, by simp only [decide_eq_true_eq]; omega⟩
    exact contentSpan?_eq_some_iff.2 ⟨hkind, by omega, rfl⟩

/-! ## Nodes and their places -/

/-- A node with its place: which child leads to it on each level below the root. -/
abbrev Placed := List Nat × Tree

/-- The node in a place. -/
def at? : Tree → List Nat → Option Tree
  | t, [] => some t
  | t, n :: place => t.children[n]?.bind fun c => at? c place

/-- A node of a tree, seen from a tree in which the former stands in `place`. -/
def Placed.below (place : List Nat) (p : Placed) : Placed := (place ++ p.1, p.2)

mutual

/-- The nodes of a tree with their places: a node before those below it, the children from left to
right. -/
def nodes : Tree → List Placed
  | node k s e f n cs => ([], node k s e f n cs) :: nodesFrom 0 cs

/-- The nodes of the trees of a list, the first of which is the child with this number. -/
def nodesFrom : Nat → List Tree → List Placed
  | _, [] => []
  | n, t :: r => (nodes t).map (Placed.below [n]) ++ nodesFrom (n + 1) r

end

theorem nodes_eq (t : Tree) : nodes t = ([], t) :: nodesFrom 0 t.children := by
  cases t
  rfl

theorem mem_nodesFrom_iff {n : Nat} {ts : List Tree} {p : Placed} : p ∈ nodesFrom n ts ↔
    ∃ m c, ts[m]? = some c ∧ ∃ q ∈ nodes c, p = Placed.below [n + m] q := by
  induction ts generalizing n with
  | nil => simp [nodesFrom]
  | cons t ts ih =>
    rw [nodesFrom, List.mem_append, List.mem_map, ih]
    constructor
    · rintro (⟨q, hq, rfl⟩ | ⟨m, c, hm, q, hq, rfl⟩)
      · exact ⟨0, t, rfl, q, hq, rfl⟩
      · exact ⟨m + 1, c, hm, q, hq, by rw [Nat.add_right_comm, Nat.add_assoc]⟩
    · rintro ⟨m, c, hm, q, hq, rfl⟩
      cases m with
      | zero =>
        cases hm
        exact .inl ⟨q, hq, rfl⟩
      | succ m => exact .inr ⟨m, c, hm, q, hq, by rw [Nat.add_right_comm, Nat.add_assoc]⟩

/-- The nodes of a tree are what stands in its places. -/
theorem mem_nodes_iff {root t : Tree} {place : List Nat} :
    (place, t) ∈ nodes root ↔ root.at? place = some t := by
  induction place generalizing root with
  | nil =>
    rw [nodes_eq, List.mem_cons, mem_nodesFrom_iff, at?]
    constructor
    · rintro (h | ⟨m, c, -, q, -, h⟩)
      · cases h
        rfl
      · cases h
    · intro h
      cases h
      exact .inl rfl
  | cons n place ih =>
    rw [nodes_eq, List.mem_cons, mem_nodesFrom_iff, at?, Option.bind_eq_some_iff]
    constructor
    · rintro (h | ⟨m, c, hm, q, hq, h⟩)
      · cases h
      · cases h
        rw [Nat.zero_add]
        exact ⟨c, hm, ih.1 hq⟩
    · rintro ⟨c, hm, h⟩
      exact .inr ⟨n, c, hm, (place, t), ih.2 h, by rw [Nat.zero_add]; rfl⟩

/-- The places of the nodes of a child begin with its number. -/
theorem exists_place_of_mem {n : Nat} {ts : List Tree} {p : Placed} (h : p ∈ nodesFrom n ts) :
    ∃ m place, p.1 = m :: place ∧ n ≤ m := by
  obtain ⟨m, c, -, q, -, rfl⟩ := mem_nodesFrom_iff.1 h
  exact ⟨n + m, q.1, rfl, Nat.le_add_right n m⟩

mutual

/-- The nodes of a tree stand in the order of their places. -/
theorem pairwise_nodes : (t : Tree) → (nodes t).Pairwise fun p q => p.1 < q.1
  | node k s e f n cs => by
    rw [nodes, List.pairwise_cons]
    refine ⟨fun p hp => ?_, pairwise_nodesFrom 0 cs⟩
    obtain ⟨m, place, hplace, -⟩ := exists_place_of_mem hp
    rw [hplace]
    exact List.nil_lt_cons m place

theorem pairwise_nodesFrom : (n : Nat) → (ts : List Tree) →
    (nodesFrom n ts).Pairwise fun p q => p.1 < q.1
  | _, [] => by simp [nodesFrom]
  | n, t :: r => by
    rw [nodesFrom, List.pairwise_append, List.pairwise_map]
    refine ⟨(pairwise_nodes t).imp fun h => ?_, pairwise_nodesFrom (n + 1) r, ?_⟩
    · exact List.cons_lt_cons_iff.2 (.inr ⟨rfl, h⟩)
    · intro p hp q hq
      obtain ⟨p, -, rfl⟩ := List.mem_map.1 hp
      obtain ⟨m, place, hplace, hm⟩ := exists_place_of_mem hq
      rw [hplace]
      exact List.cons_lt_cons_iff.2 (.inl (by omega))

end

mutual

theorem length_nodes : (t : Tree) → (nodes t).length = size t
  | node k s e f n cs => by rw [nodes, size, List.length_cons, length_nodesFrom 0 cs]

theorem length_nodesFrom : (n : Nat) → (ts : List Tree) → (nodesFrom n ts).length = sizeList ts
  | _, [] => rfl
  | n, t :: r => by
    rw [nodesFrom, sizeList, List.length_append, List.length_map, length_nodes t,
      length_nodesFrom (n + 1) r]

end

/-- The ranges that nodes hold, one node after the other. -/
def found (ps : List Placed) : List (Nat × Nat) := ps.flatMap fun p => p.2.specifierSpan?.toList

theorem found_append (ps qs : List Placed) : found (ps ++ qs) = found ps ++ found qs :=
  List.flatMap_append

theorem found_below (place : List Nat) (ps : List Placed) :
    found (ps.map (Placed.below place)) = found ps := by
  rw [found, List.flatMap_map]
  rfl

mutual

/-- The recursion over a tree goes through its nodes in their order. -/
theorem found_nodes : (t : Tree) → found (nodes t) = preorder t
  | node k s e f n cs => by
    rw [nodes, preorder, ← found_nodesFrom 0 cs]
    rfl

theorem found_nodesFrom : (n : Nat) → (ts : List Tree) → found (nodesFrom n ts) = preorderList ts
  | _, [] => rfl
  | n, t :: r => by
    rw [nodesFrom, preorderList, found_append, found_below, found_nodes t, found_nodesFrom (n + 1) r]

end

/-! ## The loop -/

/-- The children of a node in their places. -/
def Placed.children (p : Placed) : List Placed :=
  p.2.children.mapIdx fun n c => (p.1 ++ [n], c)

/-- The nodes at and below a node, in their places. -/
def Placed.nodes (p : Placed) : List Placed := p.2.nodes.map (Placed.below p.1)

theorem map_below_nodesFrom (place : List Nat) (n : Nat) (ts : List Tree) :
    (nodesFrom n ts).map (Placed.below place) =
      (ts.mapIdx fun m c => ((place ++ [n + m], c) : Placed)).flatMap Placed.nodes := by
  induction ts generalizing n with
  | nil => rfl
  | cons t ts ih =>
    rw [nodesFrom, List.map_append, ih, List.mapIdx_cons, List.flatMap_cons, List.map_map]
    congr 1
    · refine List.map_congr_left fun q _ => ?_
      simp [Placed.below]
    · simp only [Nat.add_assoc, Nat.add_comm 1]

theorem nodes_root (t : Tree) : Placed.nodes ([], t) = t.nodes :=
  List.map_id t.nodes

/-- A node comes first, then its children with all that is below them. -/
theorem Placed.nodes_eq (p : Placed) : p.nodes = p :: p.children.flatMap Placed.nodes := by
  have hchildren := map_below_nodesFrom p.1 0 p.2.children
  simp only [Nat.zero_add] at hchildren
  rw [Placed.nodes, Tree.nodes_eq, List.map_cons, hchildren, Placed.children, Placed.below,
    List.append_nil]

/-- A walk under way. The top of the stack is its last entry. -/
structure Walk where
  stack : List Placed
  visited : List Placed
  spans : List (Nat × Nat)

namespace Walk

/-- The walk over a tree when it begins. -/
def start (root : Tree) : Walk := ⟨[([], root)], [], []⟩

/-- One turn of the loop, if there is something on the stack. -/
def step (w : Walk) : Option Walk :=
  w.stack.getLast?.map fun p =>
    { stack := w.stack.dropLast ++ p.children.reverse
      visited := w.visited ++ [p]
      spans := w.spans ++ p.2.specifierSpan?.toList }

/-- The loop ends after this number of turns. -/
inductive Ends : Walk → Nat → Walk → Prop
  | stop {w : Walk} : w.step = none → Ends w 0 w
  | turn {w w' v : Walk} {n : Nat} : w.step = some w' → Ends w' n v → Ends w (n + 1) v

/-- What is left to be visited, in the order in which it will be. -/
def ahead (w : Walk) : List Placed := w.stack.reverse.flatMap Placed.nodes

/-- The nodes that were visited and those that are ahead are the nodes of the tree in their order,
and what was found is what the visited nodes hold. -/
structure Sound (root : Tree) (w : Walk) : Prop where
  order : w.visited ++ w.ahead = root.nodes
  spans : w.spans = found w.visited

theorem step_eq_none_iff {w : Walk} : w.step = none ↔ w.stack = [] := by
  rw [step, Option.map_eq_none_iff, List.getLast?_eq_none_iff]

theorem ahead_of_stack {w : Walk} (h : w.stack = []) : w.ahead = [] := by
  rw [ahead, h]
  rfl

/-- A turn visits the first of the nodes that are ahead. -/
theorem step_spec {w w' : Walk} (h : w.step = some w') : ∃ p, w.ahead = p :: w'.ahead ∧
    w'.visited = w.visited ++ [p] ∧ w'.spans = w.spans ++ p.2.specifierSpan?.toList := by
  obtain ⟨p, hp, rfl⟩ := Option.map_eq_some_iff.1 h
  obtain ⟨below, hstack⟩ := List.getLast?_eq_some_iff.1 hp
  refine ⟨p, ?_, rfl, rfl⟩
  simp only [ahead, hstack, List.dropLast_concat, List.reverse_append, List.reverse_reverse,
    List.flatMap_append, List.reverse_singleton, List.singleton_append, List.flatMap_cons]
  rw [p.nodes_eq, List.cons_append]

theorem sound_start (root : Tree) : Sound root (start root) where
  order := by simp [start, ahead, nodes_root]
  spans := rfl

variable {root : Tree} {w w' v : Walk}

/-- One turn keeps what holds of a walk. -/
theorem Sound.step (h : Sound root w) (hs : w.step = some w') : Sound root w' := by
  obtain ⟨p, hahead, hvisited, hspans⟩ := step_spec hs
  constructor
  · rw [← h.order, hahead, hvisited, List.append_assoc, List.singleton_append]
  · rw [hspans, hvisited, found_append, ← h.spans, found, List.flatMap_singleton]

/-- The loop goes through all that is ahead, and keeps what holds of a walk. -/
theorem Sound.of_ends {n : Nat} (h : Sound root w) (he : Ends w n v) :
    Sound root v ∧ v.stack = [] ∧ n = w.ahead.length := by
  induction he with
  | stop hs =>
    have hstack := step_eq_none_iff.1 hs
    exact ⟨h, hstack, by rw [ahead_of_stack hstack, List.length_nil]⟩
  | turn hs _ ih =>
    obtain ⟨p, hahead, -, -⟩ := step_spec hs
    obtain ⟨hsound, hstack, hn⟩ := ih (h.step hs)
    exact ⟨hsound, hstack, by rw [hahead, List.length_cons, hn]⟩

/-- The loop ends, since each turn leaves less ahead. -/
theorem exists_ends (w : Walk) : ∃ n v, Ends w n v := by
  induction hn : w.ahead.length using Nat.strongRecOn generalizing w with
  | ind n ih =>
    cases hs : w.step with
    | none => exact ⟨0, w, .stop hs⟩
    | some w' =>
      obtain ⟨p, hahead, -, -⟩ := step_spec hs
      have hless : w'.ahead.length < n := by
        rw [← hn, hahead, List.length_cons]
        exact Nat.lt_succ_self _
      obtain ⟨m, v, hends⟩ := ih w'.ahead.length hless w' rfl
      exact ⟨m + 1, v, .turn hs hends⟩

/-- The trees on the stack, the top one first. -/
def trees (w : Walk) : List Tree := w.stack.reverse.map Prod.snd

theorem map_snd_children (p : Placed) : p.children.map Prod.snd = p.2.children := by
  rw [Placed.children]
  refine List.ext_getElem? fun n => ?_
  rw [List.getElem?_map, List.getElem?_mapIdx, Option.map_map]
  exact congrFun Option.map_id _

/-- A turn does to the trees on the stack what one step of the search for specifiers does. -/
theorem walk_of_step (h : w.step = some w') :
    w.spans ++ walk w.trees = w'.spans ++ walk w'.trees := by
  obtain ⟨p, hp, rfl⟩ := Option.map_eq_some_iff.1 h
  obtain ⟨below, hstack⟩ := List.getLast?_eq_some_iff.1 hp
  simp only [trees, hstack, List.dropLast_concat, List.reverse_append, List.reverse_reverse,
    List.reverse_singleton, List.singleton_append, List.map_cons, List.map_append, walk,
    map_snd_children, List.append_assoc]

/-- The loop finds what the search for specifiers finds. -/
theorem spans_of_ends {n : Nat} (he : Ends w n v) : v.spans = w.spans ++ walk w.trees := by
  induction he with
  | stop hs =>
    rw [trees, step_eq_none_iff.1 hs, List.reverse_nil, List.map_nil, walk, List.append_nil]
  | turn hs _ ih => rw [ih, walk_of_step hs]

end Walk

/-- What a walk over a tree has done when it ends. -/
structure Traversal (root : Tree) (w : Walk) : Prop where
  /-- What was visited is what stands in the places of the tree. -/
  complete (place : List Nat) (t : Tree) : (place, t) ∈ w.visited ↔ root.at? place = some t
  /-- Every node comes before those below it and those further to the right. In particular no node
  is visited twice. -/
  ordered : w.visited.Pairwise fun p q => p.1 < q.1
  /-- Every visited node adds the range that it holds, if it holds one. -/
  spans : w.spans = found w.visited
  /-- This is what the recursion over the tree finds. -/
  recursive : w.spans = preorder root

/-- **The loop is a pre-order traversal.** From any tree the loop ends, after one turn for each node
of the tree. It has visited every node once, a node before those below it and the children from left
to right; it has found the ranges that the nodes hold in this order, as the recursion over the tree
does; and a node holds a range exactly if it is a statement or a call whose literal has a content,
and then it is the range of this content. -/
theorem walks_in_order (root : Tree) :
    (∃ w, Walk.Ends (.start root) root.size w ∧ Traversal root w ∧
      specifierSpans root = w.spans) ∧
    ∀ t span, t.specifierSpan? = some span ↔ Emits t span := by
  refine ⟨?_, fun t span => specifierSpan?_eq_some_iff⟩
  obtain ⟨n, w, hends⟩ := Walk.exists_ends (.start root)
  obtain ⟨hsound, hstack, hn⟩ := (Walk.sound_start root).of_ends hends
  have hvisited : w.visited = root.nodes := by
    rw [← hsound.order, Walk.ahead_of_stack hstack, List.append_nil]
  have hlength : n = root.size := by
    rw [hn, ← length_nodes, ← (Walk.sound_start root).order]
    rfl
  have hspans : w.spans = preorder root := by rw [hsound.spans, hvisited, found_nodes]
  refine ⟨w, hlength ▸ hends, ⟨fun place t => ?_, ?_, hsound.spans, hspans⟩, ?_⟩
  · rw [hvisited, mem_nodes_iff]
  · rw [hvisited]
    exact pairwise_nodes root
  · exact (Walk.spans_of_ends hends).symm

end ModuleGraph.Syntax.Tree
