import Mathlib.Data.List.Nodup
import RepoDocs.Proofs.Tree.Preorder

/-! Sorting as a canonical form.  It moves nothing but siblings, and where no two siblings have one path,
trees that differ in the order of siblings alone are sorted to the same trees. -/

namespace RepoDocs.FileNode

mutual

/-- The second node is the first one with siblings below it in another order, at any levels. -/
inductive Reordered : FileNode → FileNode → Prop
  | bare {name path : String} {kind : FileKind} {size? : Option Nat} :
      Reordered ⟨name, path, kind, none, size?⟩ ⟨name, path, kind, none, size?⟩
  | inner {name path : String} {kind : FileKind} {size? : Option Nat} {cs ds : List FileNode}
      (children : ReorderedEach cs ds) :
      Reordered ⟨name, path, kind, some cs, size?⟩ ⟨name, path, kind, some ds, size?⟩

/-- Each of the first nodes has its place among the second ones, where it may be reordered. -/
inductive ReorderedEach : List FileNode → List FileNode → Prop
  | nil : ReorderedEach [] []
  | cons {n m : FileNode} {rest others behind : List FileNode} (node : Reordered n m)
      (place : others.Perm (m :: behind)) (later : ReorderedEach rest behind) :
      ReorderedEach (n :: rest) others

end

/-- No two siblings have one path. -/
structure Distinct (forest : List FileNode) : Prop where
  roots : (forest.map (·.path)).Nodup
  below : ∀ n ∈ nodes forest, (n.children.map (·.path)).Nodup

variable {n m : FileNode} {forest others : List FileNode}

/-! ### Reordering -/

theorem ReorderedEach.iff_forall₂ : ReorderedEach forest others ↔
    ∃ matched, forest.Forall₂ Reordered matched ∧ others.Perm matched := by
  constructor
  · intro h
    induction forest generalizing others with
    | nil =>
      cases h
      exact ⟨[], .nil, .refl _⟩
    | cons n rest ih =>
      obtain _ | ⟨node, place, later⟩ := h
      obtain ⟨matched, each, perm⟩ := ih later
      exact ⟨_, .cons node each, place.trans (perm.cons _)⟩
  · rintro ⟨matched, each, perm⟩
    induction each generalizing others with
    | nil =>
      obtain rfl := List.perm_nil.1 perm
      exact .nil
    | cons node _ ih => exact .cons node perm (ih (.refl _))

theorem Reordered.path (h : Reordered n m) : m.path = n.path := by
  cases h <;> rfl

/-! ### Sorting moves siblings -/

theorem sortForest_eq (forest : List FileNode) :
    sortForest forest = (forest.map sorted).mergeSort precedes := by
  rw [sortForest, sortedEach_eq_map]

theorem sortForest_perm (forest : List FileNode) : (sortForest forest).Perm (forest.map sorted) := by
  rw [sortForest_eq]
  exact List.mergeSort_perm ..

theorem sorted_of_some {name path : String} {kind : FileKind} {size? : Option Nat}
    (cs : List FileNode) :
    sorted ⟨name, path, kind, some cs, size?⟩ = ⟨name, path, kind, some (sortForest cs), size?⟩ := by
  rw [sorted, sortForest]

@[simp] theorem path_sorted (n : FileNode) : n.sorted.path = n.path := by
  obtain ⟨name, path, kind, children?, size?⟩ := n
  cases children? <;> rfl

theorem children_sorted (n : FileNode) : n.sorted.children = sortForest n.children := by
  obtain ⟨name, path, kind, children?, size?⟩ := n
  cases children? with
  | none => simp [children, sorted, sortForest, sortedEach]
  | some cs =>
    rw [sorted_of_some]
    rfl

theorem reordered_sorted (n : FileNode) : Reordered n n.sorted := by
  induction n using induction with
  | step n ih =>
    obtain ⟨name, path, kind, children?, size?⟩ := n
    cases children? with
    | none => exact .bare
    | some cs =>
      rw [sorted_of_some]
      refine .inner (ReorderedEach.iff_forall₂.2 ⟨cs.map sorted, ?_, sortForest_perm cs⟩)
      exact List.forall₂_map_right_iff.2 (List.forall₂_same.2 ih)

theorem reordered_sortForest (forest : List FileNode) : ReorderedEach forest (sortForest forest) := by
  refine ReorderedEach.iff_forall₂.2 ⟨forest.map sorted, ?_, sortForest_perm forest⟩
  exact List.forall₂_map_right_iff.2 (List.forall₂_same.2 fun n _ => reordered_sorted n)

/-! ### Sorted trees are in order -/

theorem precedes_trans (a b c : FileNode) (hab : precedes a b = true) (hbc : precedes b c = true) :
    precedes a c = true := by
  simp only [precedes, decide_eq_true_eq] at hab hbc ⊢
  exact le_trans hab hbc

theorem precedes_total (a b : FileNode) : (precedes a b || precedes b a) = true := by
  simp only [precedes, Bool.or_eq_true, decide_eq_true_eq]
  exact le_total _ _

theorem inOrder_sortForest (forest : List FileNode) : InOrder (sortForest forest) := by
  rw [sortForest_eq]
  refine (List.pairwise_mergeSort precedes_trans precedes_total _).imp fun {a b} h => ?_
  simpa [precedes] using h

theorem inOrder_below_sorted (h : m ∈ preorder n.sorted) : InOrder m.children := by
  induction n using induction generalizing m with
  | step n ih =>
    rcases mem_preorder.1 h with rfl | ⟨c, hc, hm⟩
    · rw [children_sorted]
      exact inOrder_sortForest _
    · rw [children_sorted] at hc
      obtain ⟨d, hd, rfl⟩ := List.mem_map.1 ((sortForest_perm n.children).subset hc)
      exact ih d hd hm

theorem inOrder_below_sortForest (h : m ∈ nodes (sortForest forest)) : InOrder m.children := by
  obtain ⟨c, hc, hm⟩ := mem_nodes.1 h
  obtain ⟨d, -, rfl⟩ := List.mem_map.1 ((sortForest_perm forest).subset hc)
  exact inOrder_below_sorted hm

theorem sortForest_sortForest (forest : List FileNode) :
    sortForest (sortForest forest) = sortForest forest :=
  sortForest_of_inOrder (inOrder_sortForest forest) fun _ hm => inOrder_below_sortForest hm

/-! ### Trees with one sorted form -/

theorem Distinct.of_children (h : Distinct forest) (hn : n ∈ forest) : Distinct n.children where
  roots := h.below n (mem_nodes_of_mem hn)
  below m hm := by
    obtain ⟨c, hc, hm⟩ := mem_nodes.1 hm
    exact h.below m (mem_nodes.2 ⟨n, hn, mem_preorder.2 (.inr ⟨c, hc, hm⟩)⟩)

/-- Siblings with distinct paths have one order. -/
theorem eq_of_perm_of_inOrder (distinct : (forest.map (·.path)).Nodup) (perm : forest.Perm others)
    (hforest : InOrder forest) (hothers : InOrder others) : forest = others := by
  refine perm.eq_of_pairwise (fun a b ha hb hab hba => ?_) hforest hothers
  exact List.inj_on_of_nodup_map distinct ha (perm.symm.subset hb) (le_antisymm hab hba)

/-- Where the trees match node by node and matching ones are sorted alike, so are all of them. -/
theorem sortForest_eq_of_each (distinct : (forest.map (·.path)).Nodup)
    (h : ReorderedEach forest others) (each : ∀ n ∈ forest, ∀ m, Reordered n m → n.sorted = m.sorted) :
    sortForest forest = sortForest others := by
  obtain ⟨matched, pairs, perm⟩ := ReorderedEach.iff_forall₂.1 h
  have same : forest.map sorted = matched.map sorted := by
    clear h perm distinct
    induction pairs with
    | nil => rfl
    | cons pair _ ih =>
      obtain ⟨first, later⟩ := List.forall_mem_cons.1 each
      rw [List.map_cons, List.map_cons, first _ pair, ih later]
  have paths : ((sortForest forest).map (·.path)).Nodup := by
    rw [((sortForest_perm forest).map (·.path)).nodup_iff, List.map_map]
    simpa [Function.comp_def] using distinct
  refine eq_of_perm_of_inOrder paths ?_ (inOrder_sortForest _) (inOrder_sortForest _)
  calc (sortForest forest).Perm (forest.map sorted) := sortForest_perm forest
    _ = matched.map sorted := same
    _ |>.Perm (others.map sorted) := (perm.map sorted).symm
    _ |>.Perm (sortForest others) := (sortForest_perm others).symm

theorem Reordered.sorted_eq (h : Reordered n m) (distinct : Distinct [n]) : n.sorted = m.sorted := by
  induction n using induction generalizing m with
  | step n ih =>
    have inner := distinct.of_children (List.mem_singleton_self n)
    cases h with
    | bare => rfl
    | inner children =>
      rw [sorted_of_some, sorted_of_some]
      congr 2
      refine sortForest_eq_of_each inner.roots children fun c hc d pair => ih c hc pair ?_
      exact ⟨by simp,
        fun m hm => inner.below m (nodes_sublist (List.singleton_sublist.2 hc) |>.subset hm)⟩

/-- Trees that differ in the order of siblings with distinct paths are sorted to the same trees. -/
theorem sortForest_eq_of_reordered (h : ReorderedEach forest others) (distinct : Distinct forest) :
    sortForest forest = sortForest others :=
  sortForest_eq_of_each distinct.roots h fun n hn m pair => pair.sorted_eq
    ⟨by simp, fun m hm => distinct.below m (nodes_sublist (List.singleton_sublist.2 hn) |>.subset hm)⟩

end RepoDocs.FileNode
