import Mathlib.Data.List.Perm.Basic
import RepoDocs.Proofs.Tree.Path
import RepoDocs.Tree.Order

/-! The nodes of file trees, each before the nodes below it.  Where every node stands below the node at
its parent's path and siblings are in order, this puts the paths in the order of their segments, and
sorting changes nothing. -/

namespace RepoDocs.FileNode

def children (n : FileNode) : List FileNode := n.children?.getD []

mutual

/-- The nodes of a tree, each before the nodes below it. -/
def preorder : FileNode → List FileNode
  | ⟨name, path, kind, some children, size?⟩ =>
    ⟨name, path, kind, some children, size?⟩ :: nodes children
  | ⟨name, path, kind, none, size?⟩ => [⟨name, path, kind, none, size?⟩]

/-- The nodes of some trees, one tree behind the other. -/
def nodes : List FileNode → List FileNode
  | [] => []
  | n :: rest => preorder n ++ nodes rest

end

def paths (forest : List FileNode) : List String := (nodes forest).map (·.path)

variable {n m c : FileNode} {forest others : List FileNode}

theorem preorder_eq (n : FileNode) : preorder n = n :: nodes n.children := by
  obtain ⟨name, path, kind, children?, size?⟩ := n
  cases children? <;> simp [preorder, children, nodes]

theorem nodes_eq_flatMap (forest : List FileNode) : nodes forest = forest.flatMap preorder := by
  induction forest with
  | nil => rfl
  | cons n rest ih => rw [nodes, ih, List.flatMap_cons]

theorem nodes_append (forest others : List FileNode) :
    nodes (forest ++ others) = nodes forest ++ nodes others := by
  simp [nodes_eq_flatMap]

theorem mem_nodes : m ∈ nodes forest ↔ ∃ n ∈ forest, m ∈ preorder n := by
  rw [nodes_eq_flatMap, List.mem_flatMap]

theorem mem_preorder : m ∈ preorder n ↔ m = n ∨ ∃ c ∈ n.children, m ∈ preorder c := by
  rw [preorder_eq, List.mem_cons, mem_nodes]

theorem self_mem_preorder (n : FileNode) : n ∈ preorder n := mem_preorder.2 (.inl rfl)

theorem mem_nodes_of_mem (h : n ∈ forest) : n ∈ nodes forest :=
  mem_nodes.2 ⟨n, h, self_mem_preorder n⟩

theorem nodes_perm (h : forest.Perm others) : (nodes forest).Perm (nodes others) := by
  rw [nodes_eq_flatMap, nodes_eq_flatMap]
  exact h.flatMap_right preorder

theorem nodes_sublist (h : forest.Sublist others) : (nodes forest).Sublist (nodes others) := by
  induction h with
  | slnil => exact .refl _
  | cons n _ ih => exact ih.trans (List.sublist_append_right _ _)
  | cons_cons n _ ih => exact ih.append_left (preorder n)

/-- A property of a node may be proved from the same property of the nodes right below it. -/
theorem induction {P : FileNode → Prop} (step : ∀ n, (∀ c ∈ n.children, P c) → P n) (n : FileNode) :
    P n := by
  refine step n fun c hc => ?_
  have smaller : sizeOf c < sizeOf n := by
    obtain ⟨name, path, kind, children?, size?⟩ := n
    cases children? with
    | none => cases hc
    | some cs =>
      have inside := List.sizeOf_lt_of_mem hc
      simp only [children, Option.getD_some] at inside
      simp
      omega
  exact induction step c
termination_by sizeOf n

theorem mem_preorder_of_child (hm : m ∈ preorder n) (hc : c ∈ m.children) : c ∈ preorder n := by
  induction n using induction with
  | step n ih =>
    rcases mem_preorder.1 hm with rfl | ⟨d, hd, hm⟩
    · exact mem_preorder.2 (.inr ⟨c, hc, self_mem_preorder c⟩)
    · exact mem_preorder.2 (.inr ⟨d, hd, ih d hd hm⟩)

theorem mem_nodes_of_child (hm : m ∈ nodes forest) (hc : c ∈ m.children) : c ∈ nodes forest := by
  obtain ⟨n, hn, hm⟩ := mem_nodes.1 hm
  exact mem_nodes.2 ⟨n, hn, mem_preorder_of_child hm hc⟩

theorem mem_or_child_of_mem_nodes (h : m ∈ nodes forest) :
    m ∈ forest ∨ ∃ n ∈ nodes forest, m ∈ n.children := by
  obtain ⟨n, hn, hm⟩ := mem_nodes.1 h
  have inside : m = n ∨ ∃ d ∈ preorder n, m ∈ d.children := by
    clear hn
    induction n using induction with
    | step n ih =>
      rcases mem_preorder.1 hm with rfl | ⟨c, hc, hm⟩
      · exact .inl rfl
      · rcases ih c hc hm with rfl | ⟨d, hd, hmd⟩
        · exact .inr ⟨n, self_mem_preorder n, hc⟩
        · exact .inr ⟨d, mem_preorder.2 (.inr ⟨c, hc, hd⟩), hmd⟩
  rcases inside with rfl | ⟨d, hd, hmd⟩
  · exact .inl hn
  · exact .inr ⟨d, mem_nodes.2 ⟨n, hn, hd⟩, hmd⟩

/-! ### Order -/

/-- Each node comes before its right siblings in the order of paths. -/
def Rising (siblings : List FileNode) : Prop :=
  siblings.Pairwise fun a b => a.path < b.path

/-- No node comes after one of its right siblings in the order of paths. -/
def InOrder (siblings : List FileNode) : Prop :=
  siblings.Pairwise fun a b => a.path ≤ b.path

instance (siblings : List FileNode) : Decidable (InOrder siblings) :=
  inferInstanceAs (Decidable (siblings.Pairwise fun a b => a.path ≤ b.path))

theorem Rising.inOrder (h : Rising forest) : InOrder forest := h.imp le_of_lt

/-- Below every node stand nodes with its path as their parent, in the order of their paths. -/
structure InPlace (forest : List FileNode) : Prop where
  below : ∀ n ∈ nodes forest, ∀ c ∈ n.children, IsParent n.path c.path
  rising : ∀ n ∈ nodes forest, Rising n.children

theorem InPlace.of_children (h : InPlace forest) (hn : n ∈ forest) : InPlace n.children := by
  have inside : ∀ m ∈ nodes n.children, m ∈ nodes forest := by
    intro m hm
    refine mem_nodes.2 ⟨n, hn, ?_⟩
    rw [preorder_eq]
    exact List.mem_cons_of_mem n hm
  exact ⟨fun m hm => h.below m (inside m hm), fun m hm => h.rising m (inside m hm)⟩

/-- The segments of a path are the first segments of each path below it. -/
theorem InPlace.segments_below (h : InPlace forest) (hn : n ∈ forest) (hm : m ∈ preorder n) :
    segments n.path <+: segments m.path := by
  induction n using induction generalizing forest with
  | step n ih =>
    rcases mem_preorder.1 hm with rfl | ⟨c, hc, hm⟩
    · exact List.prefix_rfl
    · obtain ⟨leaf, hleaf⟩ := (h.below n (mem_nodes_of_mem hn) c hc).segments_eq
      have above : segments n.path <+: segments c.path := ⟨[leaf], hleaf.symm⟩
      exact above.trans (ih c hc (h.of_children hn) hc hm)

theorem InPlace.extends_path (h : InPlace forest) (hn : n ∈ forest) (hm : m ∈ preorder n) :
    ∃ rest, m.path = n.path ++ rest := by
  induction n using induction generalizing forest with
  | step n ih =>
    rcases mem_preorder.1 hm with rfl | ⟨c, hc, hm⟩
    · exact ⟨"", (String.append_empty).symm⟩
    · obtain ⟨leaf, hleaf⟩ := (h.below n (mem_nodes_of_mem hn) c hc).exists_leaf
      obtain ⟨rest, hrest⟩ := ih c hc (h.of_children hn) hc hm
      exact ⟨"/" ++ leaf ++ rest, by simp only [hrest, hleaf, String.append_assoc]⟩

/-- What stands before a slash in a path is the path of a node above it, or stands before a slash in the
path of the root. -/
theorem InPlace.cut {front behind : String} (h : InPlace forest) (hn : n ∈ forest)
    (hm : m ∈ preorder n) (hcut : m.path = front ++ "/" ++ behind) :
    (∃ d ∈ preorder n, d.path = front ∧ d.children ≠ []) ∨
      ∃ between, n.path = front ++ "/" ++ between := by
  induction n using induction generalizing forest with
  | step n ih =>
    rcases mem_preorder.1 hm with rfl | ⟨c, hc, hm⟩
    · exact .inr ⟨behind, hcut⟩
    · rcases ih c hc (h.of_children hn) hc hm with ⟨d, hd, hpath, some⟩ | ⟨between, hpath⟩
      · exact .inl ⟨d, mem_preorder.2 (.inr ⟨c, hc, hd⟩), hpath, some⟩
      · rcases (h.below n (mem_nodes_of_mem hn) c hc).cut hpath with rfl | inside
        · exact .inl ⟨n, self_mem_preorder n, rfl, List.ne_nil_of_mem hc⟩
        · exact .inr inside

/-- Trees in order, with diverging paths, have all their nodes in order when each of them has. -/
theorem pairwise_nodes (h : InPlace forest) (apart : forest.Pairwise fun a b => Diverge a.path b.path)
    (each : ∀ n ∈ forest, (preorder n).Pairwise fun a b => SegmentsPrecede a.path b.path) :
    (nodes forest).Pairwise fun a b => SegmentsPrecede a.path b.path := by
  rw [nodes_eq_flatMap, List.pairwise_flatMap]
  refine ⟨each, apart.imp_of_mem fun {a b} ha hb hab m hm m' hm' => ?_⟩
  exact hab.precede (h.segments_below ha hm) (h.segments_below hb hm')

theorem InPlace.pairwise_children (h : InPlace forest) (hn : n ∈ nodes forest) :
    n.children.Pairwise fun a b => Diverge a.path b.path :=
  (h.rising n hn).imp_of_mem fun ha hb hab => (h.below n hn _ ha).diverge (h.below n hn _ hb) hab

theorem InPlace.pairwise_preorder (h : InPlace forest) (hn : n ∈ forest) :
    (preorder n).Pairwise fun a b => SegmentsPrecede a.path b.path := by
  induction n using induction generalizing forest with
  | step n ih =>
    have inner := h.of_children hn
    rw [preorder_eq, List.pairwise_cons]
    constructor
    · intro m hm
      obtain ⟨c, hc, hm⟩ := mem_nodes.1 hm
      obtain ⟨leaf, hleaf⟩ := (h.below n (mem_nodes_of_mem hn) c hc).segments_eq
      exact segmentsPrecede_below (hleaf ▸ inner.segments_below hc hm)
    · exact pairwise_nodes inner (h.pairwise_children (mem_nodes_of_mem hn)) fun c hc =>
        ih c hc inner hc

/-- The nodes of trees that are well placed are in the order of the segments of their paths. -/
theorem InPlace.pairwise_nodes (h : InPlace forest)
    (apart : forest.Pairwise fun a b => Diverge a.path b.path) :
    (nodes forest).Pairwise fun a b => SegmentsPrecede a.path b.path :=
  FileNode.pairwise_nodes h apart fun _ hn => h.pairwise_preorder hn

/-! ### Sorting -/

theorem sortedEach_eq_map (forest : List FileNode) : sortedEach forest = forest.map sorted := by
  induction forest with
  | nil => rfl
  | cons n rest ih => rw [sortedEach, ih, List.map_cons]

theorem mergeSort_of_inOrder (h : InOrder forest) : forest.mergeSort precedes = forest :=
  List.mergeSort_of_pairwise (h.imp fun {a b} hab => by simpa [precedes] using hab)

theorem sorted_eq_self (h : ∀ m ∈ preorder n, InOrder m.children) : sorted n = n := by
  induction n using induction with
  | step n ih =>
    obtain ⟨name, path, kind, children?, size?⟩ := n
    cases children? with
    | none => rfl
    | some cs =>
      have each : cs.map sorted = cs := by
        refine (List.map_congr_left fun c hc => ih c hc fun m hm => ?_).trans (List.map_id cs)
        exact h m (mem_preorder.2 (.inr ⟨c, hc, hm⟩))
      rw [sorted, sortedEach_eq_map, each, mergeSort_of_inOrder]
      exact h _ (self_mem_preorder _)

/-- Trees whose siblings are in order at every level stay as they are when they are sorted. -/
theorem sortForest_of_inOrder (roots : InOrder forest) (h : ∀ m ∈ nodes forest, InOrder m.children) :
    sortForest forest = forest := by
  have each : forest.map sorted = forest := by
    refine (List.map_congr_left fun n hn => sorted_eq_self fun m hm => ?_).trans (List.map_id forest)
    exact h m (mem_nodes.2 ⟨n, hn, hm⟩)
  rw [sortForest, sortedEach_eq_map, each, mergeSort_of_inOrder roots]

theorem sortForest_eq_self (roots : Rising forest) (h : ∀ m ∈ nodes forest, Rising m.children) :
    sortForest forest = forest :=
  sortForest_of_inOrder roots.inOrder fun m hm => (h m hm).inOrder

end RepoDocs.FileNode
