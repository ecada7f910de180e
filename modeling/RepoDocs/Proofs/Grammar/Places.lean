import Mathlib.Data.List.Basic
import Mathlib.Data.List.Forall2
import Mathlib.Data.List.Induction
import RepoDocs.Grammar.Node

/-! Places in syntax trees, and what is gathered from them in the order of the text.  The place of a
node is the list of the steps that lead to it from the root, each counted among the named nodes.  In the
order of lists, a node stands before what is below it and before what is right of it. -/

namespace RepoDocs.Grammar

section Gathers

variable {α β ι : Type} [LT ι] {R S : ι → β → Prop} {xs ys : List β}

/-- The list has one entry for each place where `R` finds something, in the order of the places. -/
def Gathers (R : ι → β → Prop) (found : List β) : Prop :=
  ∃ places : List ι, places.Pairwise (· < ·) ∧ (∀ a, a ∈ places ↔ ∃ y, R a y) ∧
    List.Forall₂ R places found

namespace Gathers

theorem nil (h : ∀ a y, ¬ R a y) : Gathers R [] :=
  ⟨[], .nil, fun a => by simp [h a], .nil⟩

theorem one {a : ι} {y : β} (h : R a y) (only : ∀ b z, R b z → b = a) : Gathers R [y] := by
  refine ⟨[a], List.pairwise_singleton _ _, fun b => ?_, .cons h .nil⟩
  rw [List.mem_singleton]
  exact ⟨fun hb => ⟨y, hb ▸ h⟩, fun ⟨z, hz⟩ => only b z hz⟩

theorem exists_of_mem (h : Gathers R xs) {y : β} (hy : y ∈ xs) : ∃ a, R a y := by
  obtain ⟨places, -, -, matched⟩ := h
  induction matched with
  | nil => cases hy
  | cons found _ ih =>
    rcases List.mem_cons.1 hy with rfl | hy
    · exact ⟨_, found⟩
    · exact ih hy

theorem exists_mem (h : Gathers R xs) {a : ι} {y : β} (hy : R a y) : ∃ z ∈ xs, R a z := by
  obtain ⟨places, -, members, matched⟩ := h
  have mem := (members a).2 ⟨y, hy⟩
  clear members
  induction matched with
  | nil => cases mem
  | @cons b z _ _ found _ ih =>
    rcases List.mem_cons.1 mem with rfl | mem
    · exact ⟨z, List.mem_cons_self, found⟩
    · obtain ⟨z', hz', found'⟩ := ih mem
      exact ⟨z', List.mem_cons_of_mem _ hz', found'⟩

theorem congr (h : Gathers R xs) (same : ∀ a y, R a y ↔ S a y) : Gathers S xs := by
  have equal : R = S := funext fun a => funext fun y => propext (same a y)
  exact equal ▸ h

theorem append (hx : Gathers R xs) (hy : Gathers S ys)
    (apart : ∀ a x b y, R a x → S b y → a < b) :
    Gathers (fun a y => R a y ∨ S a y) (xs ++ ys) := by
  obtain ⟨as, ordered, members, matched⟩ := hx
  obtain ⟨bs, ordered', members', matched'⟩ := hy
  refine ⟨as ++ bs, List.pairwise_append.2 ⟨ordered, ordered', fun a ha b hb => ?_⟩, fun a => ?_,
    List.rel_append (matched.imp fun _ _ => .inl) (matched'.imp fun _ _ => .inr)⟩
  · obtain ⟨x, hx⟩ := (members a).1 ha
    obtain ⟨y, hy⟩ := (members' b).1 hb
    exact apart a x b y hx hy
  · rw [List.mem_append, members, members', exists_or]

/-- What is gathered is determined when each place gives one thing at most. -/
theorem unique [Std.Asymm (· < · : ι → ι → Prop)] (h : Gathers R xs) (h' : Gathers R ys)
    (one : Relator.RightUnique R) : xs = ys := by
  obtain ⟨as, ordered, members, matched⟩ := h
  obtain ⟨bs, ordered', members', matched'⟩ := h'
  have distinct {l : List ι} (hl : l.Pairwise (· < ·)) : l.Nodup := by
    refine List.nodup_iff_pairwise_ne.2 (hl.imp ?_)
    rintro a _ hab rfl
    exact Std.Asymm.asymm _ _ hab hab
  have perm := (List.perm_ext_iff_of_nodup (distinct ordered) (distinct ordered')).2
    fun a => (members a).trans (members' a).symm
  have equal : as = bs :=
    perm.eq_of_pairwise (fun a b _ _ hab hba => absurd hba (Std.Asymm.asymm _ _ hab)) ordered ordered'
  exact one.forall₂ matched (equal ▸ matched')

end Gathers

theorem getElem?_concat_eq_some {xs : List α} {x y : α} {i : Nat} :
    (xs ++ [x])[i]? = some y ↔ xs[i]? = some y ∨ i = xs.length ∧ x = y := by
  rcases Nat.lt_trichotomy i xs.length with h | rfl | h
  · rw [List.getElem?_append_left h]
    simp [Nat.ne_of_lt h]
  · simp
  · rw [List.getElem?_eq_none (by simp; omega), List.getElem?_eq_none (Nat.le_of_lt h)]
    simp [Nat.ne_of_gt h]

/-- What a function gives of the elements of a list, by their positions. -/
theorem gathers_filterMap (f : α → Option β) (xs : List α) :
    Gathers (fun (i : Nat) y => ∃ x, xs[i]? = some x ∧ f x = some y) (xs.filterMap f) := by
  induction xs using List.reverseRecOn with
  | nil => exact .nil fun i y => by simp
  | append_singleton xs x ih =>
    have last : Gathers (fun (i : Nat) y => i = xs.length ∧ f x = some y) ([x].filterMap f) := by
      cases hx : f x with
      | none => simpa [hx] using Gathers.nil fun i y => by simp
      | some y => simpa [hx] using Gathers.one ⟨rfl, rfl⟩ fun b z h => h.1
    rw [List.filterMap_append]
    refine (ih.append last fun i y j z hi hj => ?_).congr fun i y => ?_
    · obtain ⟨x', hx', -⟩ := hi
      exact hj.1 ▸ (List.getElem?_eq_some_iff.1 hx').1
    · simp only [getElem?_concat_eq_some, or_and_right, exists_or]
      refine or_congr_right ⟨fun h => ⟨x, ⟨h.1, rfl⟩, h.2⟩, ?_⟩
      rintro ⟨x', ⟨hi, rfl⟩, h⟩
      exact ⟨hi, h⟩

/-- A list is gathered from the elements of another by what a function gives of them just when it is what
the function gives of them. -/
theorem gathers_iff_filterMap {Q : Nat → β → Prop} {xs : List α} {f : α → Option β}
    (same : ∀ i y, Q i y ↔ ∃ x, xs[i]? = some x ∧ f x = some y) :
    Gathers Q ys ↔ xs.filterMap f = ys := by
  have gathered := (gathers_filterMap f xs).congr fun i y => (same i y).symm
  refine ⟨fun h => gathered.unique h ?_, fun h => h ▸ gathered⟩
  intro i y z hy hz
  obtain ⟨x, hx, hy⟩ := (same i y).1 hy
  obtain ⟨x', hx', hz⟩ := (same i z).1 hz
  obtain rfl := Option.some.inj (hx.symm.trans hx')
  exact Option.some.inj (hy.symm.trans hz)

theorem Gathers.map {κ : Type} [LT κ] (h : Gathers R ys) (g : ι → κ)
    (rising : ∀ a b, a < b → g a < g b) : Gathers (fun a y => ∃ b, a = g b ∧ R b y) ys := by
  obtain ⟨places, ordered, members, matched⟩ := h
  refine ⟨places.map g, List.pairwise_map.2 (ordered.imp (rising _ _)), fun a => ?_, ?_⟩
  · rw [List.mem_map]
    constructor
    · rintro ⟨b, hb, rfl⟩
      obtain ⟨y, hy⟩ := (members b).1 hb
      exact ⟨y, b, rfl, hy⟩
    · rintro ⟨y, b, rfl, hy⟩
      exact ⟨b, (members b).2 ⟨y, hy⟩, rfl⟩
  · exact List.forall₂_map_left_iff.2 (matched.imp fun b y hy => ⟨b, rfl, hy⟩)

/-- What a function gathers in each element of a list, by the position of the element and the place in
it. -/
theorem gathers_flatMap {T : α → List Nat → β → Prop} {f : α → List β} (xs : List α)
    (each : ∀ x ∈ xs, Gathers (T x) (f x)) :
    Gathers (fun a y => ∃ i x b, a = i :: b ∧ xs[i]? = some x ∧ T x b y) (xs.flatMap f) := by
  induction xs using List.reverseRecOn with
  | nil => exact .nil fun a y => by simp
  | append_singleton xs x ih =>
    have front := ih fun z hz => each z (List.mem_append_left _ hz)
    have last := (each x (by simp)).map (xs.length :: ·) fun a b hab =>
      List.cons_lt_cons_iff.2 (.inr ⟨rfl, hab⟩)
    rw [List.flatMap_append, List.flatMap_singleton]
    refine (front.append last fun a y b z ha hb => ?_).congr fun a y => ?_
    · obtain ⟨i, x', a, rfl, hx', -⟩ := ha
      obtain ⟨b, rfl, -⟩ := hb
      exact List.cons_lt_cons_iff.2 (.inl (List.getElem?_eq_some_iff.1 hx').1)
    · constructor
      · rintro (⟨i, x', b, ha, hx', hb⟩ | ⟨b, ha, hb⟩)
        · exact ⟨i, x', b, ha, getElem?_concat_eq_some.2 (.inl hx'), hb⟩
        · exact ⟨xs.length, x, b, ha, getElem?_concat_eq_some.2 (.inr ⟨rfl, rfl⟩), hb⟩
      · rintro ⟨i, x', b, ha, hx', hb⟩
        rcases getElem?_concat_eq_some.1 hx' with hx' | ⟨rfl, rfl⟩
        · exact .inl ⟨i, x', b, ha, hx', hb⟩
        · exact .inr ⟨b, ha, hb⟩

end Gathers

/-! ### Nodes and their places -/

namespace Node

variable {root n m : Node} {a : List Nat} {i : Nat}

def at? : List Nat → Node → Option Node
  | [], n => some n
  | i :: rest, n => n.namedChildren[i]?.bind (at? rest)

/-- The node `m` stands above the place `a`. -/
def Above (root : Node) (a : List Nat) (m : Node) : Prop :=
  ∃ front, front <+: a ∧ front ≠ a ∧ root.at? front = some m

@[simp] theorem at?_nil (n : Node) : n.at? [] = some n := rfl

theorem at?_cons_eq_some :
    n.at? (i :: a) = some m ↔ ∃ c, n.namedChildren[i]? = some c ∧ c.at? a = some m := by
  rw [at?, Option.bind_eq_some_iff]

theorem not_above_nil : ¬ Above n [] m := by
  rintro ⟨front, within, proper, -⟩
  exact proper (List.prefix_nil.1 within)

theorem above_cons :
    Above n (i :: a) m ↔ m = n ∨ ∃ c, n.namedChildren[i]? = some c ∧ Above c a m := by
  constructor
  · rintro ⟨front, within, proper, found⟩
    cases front with
    | nil => exact .inl (Option.some.inj found).symm
    | cons j front =>
      obtain ⟨rfl, inner⟩ := List.cons_prefix_cons.1 within
      obtain ⟨c, hc, found⟩ := at?_cons_eq_some.1 found
      exact .inr ⟨c, hc, front, inner, fun e => proper (e ▸ rfl), found⟩
  · rintro (rfl | ⟨c, hc, front, within, proper, found⟩)
    · exact ⟨[], List.nil_prefix, by simp, rfl⟩
    · refine ⟨i :: front, List.cons_prefix_cons.2 ⟨rfl, within⟩, fun e => ?_,
        at?_cons_eq_some.2 ⟨c, hc, found⟩⟩
      exact proper (List.cons.inj e).2

theorem at?_append_eq_some {b : List Nat} :
    n.at? (a ++ b) = some m ↔ ∃ p, n.at? a = some p ∧ p.at? b = some m := by
  induction a generalizing n with
  | nil => simp
  | cons j a ih =>
    simp only [List.cons_append, at?_cons_eq_some, ih]
    constructor
    · rintro ⟨c, hc, p, hp, found⟩
      exact ⟨p, ⟨c, hc, hp⟩, found⟩
    · rintro ⟨p, ⟨c, hc, hp⟩, found⟩
      exact ⟨c, hc, p, hp, found⟩

theorem at?_concat_eq_some :
    n.at? (a ++ [i]) = some m ↔ ∃ p, n.at? a = some p ∧ p.namedChildren[i]? = some m := by
  simp [at?_append_eq_some, at?_cons_eq_some]

theorem above_concat : Above n (a ++ [i]) m ↔ Above n a m ∨ n.at? a = some m := by
  constructor
  · rintro ⟨front, within, proper, found⟩
    rcases List.prefix_concat_iff.1 within with rfl | within
    · exact absurd rfl proper
    · by_cases same : front = a
      · exact .inr (same ▸ found)
      · exact .inl ⟨front, within, same, found⟩
  · rintro (⟨front, within, proper, found⟩ | found)
    · refine ⟨front, within.trans (List.prefix_append a [i]), ?_, found⟩
      rintro rfl
      exact absurd within.length_le (by simp)
    · exact ⟨a, List.prefix_append a [i], by simp, found⟩

/-- A property of a node may be proved from the same property of its named children. -/
theorem induction {P : Node → Prop} (step : ∀ n, (∀ c ∈ n.namedChildren, P c) → P n) (n : Node) :
    P n := by
  refine step n fun c hc => ?_
  have smaller : sizeOf c < sizeOf n := by
    obtain ⟨kind, label, startRow, endRow, text, children⟩ := n
    have inside : sizeOf c < sizeOf children := List.sizeOf_lt_of_mem (List.mem_filter.1 hc).1
    simp only [mk.sizeOf_spec]
    omega
  exact induction step c
termination_by sizeOf n

mutual

/-- Whether `p` holds of the node and of all named nodes below it. -/
def everywhere (p : Node → Bool) : Node → Bool
  | ⟨kind, label, startRow, endRow, text, children⟩ =>
    p ⟨kind, label, startRow, endRow, text, children⟩ && everywhereBelow p children

/-- Whether `p` holds of the named nodes of a forest and of all named nodes below them. -/
def everywhereBelow (p : Node → Bool) : List Node → Bool
  | [] => true
  | n :: rest => (!n.kind.isNamed || everywhere p n) && everywhereBelow p rest

end

variable {p : Node → Bool}

theorem everywhereBelow_iff {ns : List Node} :
    everywhereBelow p ns = true ↔ ∀ c ∈ ns.filter (·.kind.isNamed), c.everywhere p = true := by
  induction ns with
  | nil => simp [everywhereBelow]
  | cons n ns ih => by_cases named : n.kind.isNamed = true <;> simp [everywhereBelow, ih, named]

theorem everywhere_eq (n : Node) :
    n.everywhere p = (p n && everywhereBelow p n.children) := by
  cases n
  rw [everywhere]

theorem everywhere_iff : n.everywhere p = true ↔ ∀ a m, n.at? a = some m → p m = true := by
  induction n using Node.induction with | step n ih =>
  rw [everywhere_eq, Bool.and_eq_true, everywhereBelow_iff]
  constructor
  · rintro ⟨own, below⟩ (_ | ⟨i, a⟩) m found
    · exact Option.some.inj found ▸ own
    · obtain ⟨c, child, found⟩ := at?_cons_eq_some.1 found
      have mem := List.mem_of_getElem? child
      exact (ih c mem).1 (below c mem) a m found
  · intro holds
    refine ⟨holds [] n rfl, fun c mem => (ih c mem).2 fun a m found => ?_⟩
    obtain ⟨i, child⟩ := List.mem_iff_getElem?.1 mem
    exact holds (i :: a) m (at?_cons_eq_some.2 ⟨c, child, found⟩)

end Node

end RepoDocs.Grammar
