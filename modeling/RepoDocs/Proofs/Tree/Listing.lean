import Mathlib
import RepoDocs.Proofs.Tree.Preorder
import RepoDocs.Tree.Listing

/-! The trees of a flat listing.  An entry becomes a node when every prefix of its path that ends before a
slash is the path of a listed directory, and the node stands below the last of these.  Going through the
entries from the last to the first, each tree that is put together holds entries that were passed, and
waits for the directory that it belongs to. -/

namespace RepoDocs.TreeEntry

open FileNode

/-- The entry that counts for a path: of those with the path, the one listed first. -/
def first? (entries : List TreeEntry) (path : String) : Option TreeEntry :=
  entries.find? (·.path == path)

/-- The path is listed, and each prefix of it that ends before a slash is listed as a directory. -/
structure Reached (entries : List TreeEntry) (path : String) : Prop where
  listed : ∃ e, first? entries path = some e
  inside : ∀ front behind, path = front ++ "/" ++ behind →
    ∃ d, first? entries front = some d ∧ d.kind = .directory

/-- The node is that of the entry. -/
structure Stands (e : TreeEntry) (n : FileNode) : Prop where
  path : n.path = e.path
  name : (segments n.path).getLast? = some n.name
  kind : n.kind = e.kind
  file : e.kind = .file → n.children? = none ∧ n.size? = e.size?
  directory : e.kind = .directory → n.children?.isSome ∧ n.size? = none

/-- The nodes of the forest are those of the paths that the listing reaches, each one below its parent,
with siblings in the order of their bytes and all nodes in the order of their segments. -/
structure Forms (entries : List TreeEntry) (forest : List FileNode) : Prop where
  nodup : (paths forest).Nodup
  mem_paths : ∀ path, path ∈ paths forest ↔ Reached entries path
  stands : ∀ n ∈ nodes forest, ∃ e, first? entries n.path = some e ∧ Stands e n
  roots : ∀ n ∈ nodes forest, n ∈ forest ↔ '/' ∉ n.path.toList
  children : ∀ n ∈ nodes forest, ∀ c ∈ nodes forest, c ∈ n.children ↔ IsParent n.path c.path
  rising : forest.Pairwise fun a b => Text.bytes a.path < Text.bytes b.path
  rising_children : ∀ n ∈ nodes forest,
    n.children.Pairwise fun a b => Text.bytes a.path < Text.bytes b.path
  preorder : (nodes forest).Pairwise fun a b => SegmentsPrecede a.path b.path

variable {entries es : List TreeEntry} {e : TreeEntry} {path : String}

theorem path_of_first? (h : first? entries path = some e) : e.path = path := by
  simpa using List.find?_some h

theorem first?_of_mem (nodup : (entries.map (·.path)).Nodup) (h : e ∈ entries) :
    first? entries e.path = some e := by
  obtain ⟨d, hd⟩ : ∃ d, first? entries e.path = some d :=
    Option.isSome_iff_exists.1 (List.find?_isSome.2 ⟨e, h, by simp⟩)
  rw [hd, List.inj_on_of_nodup_map nodup (List.mem_of_find?_eq_some hd) h (path_of_first? hd)]

/-! ### The entries in order -/

theorem precedes_trans (a b c : TreeEntry) (hab : a.precedes b = true) (hbc : b.precedes c = true) :
    a.precedes c = true := by
  simp only [precedes, decide_eq_true_eq] at hab hbc ⊢
  exact le_trans hab hbc

theorem precedes_total (a b : TreeEntry) : (a.precedes b || b.precedes a) = true := by
  simp only [precedes, Bool.or_eq_true, decide_eq_true_eq]
  exact le_total _ _

theorem pairwise_mergeSort (entries : List TreeEntry) :
    (entries.mergeSort precedes).Pairwise fun a b => a.path ≤ b.path := by
  refine (List.pairwise_mergeSort precedes_trans precedes_total entries).imp fun {a b} h => ?_
  simpa [precedes] using h

/-- Sorting keeps the entries of one path in the order in which they are listed. -/
theorem first?_mergeSort (entries : List TreeEntry) (path : String) :
    first? (entries.mergeSort precedes) path = first? entries path := by
  have perm := (List.mergeSort_perm entries precedes).filter (·.path == path)
  have same : (entries.filter (·.path == path)).Pairwise fun a b => a.precedes b = true := by
    refine List.pairwise_of_forall_mem_list fun a ha b hb => ?_
    have ha := beq_iff_eq.1 (List.mem_filter.1 ha).2
    have hb := beq_iff_eq.1 (List.mem_filter.1 hb).2
    simp [precedes, ha, hb]
  have kept := (List.sublist_mergeSort precedes_trans precedes_total same List.filter_sublist).filter
    (·.path == path)
  rw [List.filter_filter] at kept
  simp only [Bool.and_self] at kept
  have equal := kept.eq_of_length perm.length_eq.symm
  rw [first?, first?, ← List.head?_filter, ← List.head?_filter, equal]

theorem firstOfEach_cons (e : TreeEntry) (es : List TreeEntry) :
    firstOfEach (e :: es) = e :: (firstOfEach es).dropWhile (·.path == e.path) := rfl

theorem firstOfEach_sublist (entries : List TreeEntry) : (firstOfEach entries).Sublist entries := by
  induction entries with
  | nil => exact .refl _
  | cons e es ih => exact ((List.dropWhile_sublist _).trans ih).cons_cons e

theorem first?_firstOfEach (entries : List TreeEntry) (path : String) :
    first? (firstOfEach entries) path = first? entries path := by
  induction entries with
  | nil => rfl
  | cons e es ih =>
    unfold first? at ih ⊢
    rw [firstOfEach_cons, List.find?_cons, List.find?_cons]
    cases he : e.path == path with
    | true => rfl
    | false =>
      -- Whatever is dropped has the path of `e`, which is another one.
      have dropped : ((firstOfEach es).takeWhile (·.path == e.path)).find? (·.path == path) = none := by
        refine List.find?_eq_none.2 fun d hd => ?_
        have same : d.path = e.path := by simpa using List.mem_takeWhile_imp hd
        rw [same, he]
        exact Bool.false_ne_true
      have whole := List.takeWhile_append_dropWhile (p := (·.path == e.path)) (l := firstOfEach es)
      rw [← whole, List.find?_append, dropped, Option.none_or] at ih
      exact ih

theorem pairwise_firstOfEach (h : entries.Pairwise fun a b => a.path ≤ b.path) :
    (firstOfEach entries).Pairwise fun a b => a.path < b.path := by
  induction entries with
  | nil => exact .nil
  | cons e es ih =>
    obtain ⟨least, sorted⟩ := List.pairwise_cons.1 h
    have rising := ih sorted
    have above : ∀ d ∈ firstOfEach es, e.path ≤ d.path :=
      fun d hd => least d ((firstOfEach_sublist es).subset hd)
    rw [firstOfEach_cons, List.pairwise_cons]
    refine ⟨?_, rising.sublist (List.dropWhile_sublist _)⟩
    cases first : firstOfEach es with
    | nil => simp
    | cons d rest =>
      rw [first] at rising above
      have later := (List.pairwise_cons.1 rising).1
      intro x hx
      by_cases hd : d.path = e.path
      · rw [List.dropWhile_cons_of_pos (by simpa using hd)] at hx
        rw [← hd]
        exact later x ((List.dropWhile_sublist _).subset hx)
      · rw [List.dropWhile_cons_of_neg (by simpa using hd)] at hx
        have before : e.path < d.path := lt_of_le_of_ne (above d List.mem_cons_self) (Ne.symm hd)
        rcases List.mem_cons.1 hx with rfl | hx
        · exact before
        · exact before.trans (later x hx)

theorem pairwise_arranged (entries : List TreeEntry) :
    (arranged entries).Pairwise fun a b => a.path < b.path :=
  pairwise_firstOfEach (pairwise_mergeSort entries)

theorem nodup_arranged (entries : List TreeEntry) : ((arranged entries).map (·.path)).Nodup :=
  List.pairwise_map.2 ((pairwise_arranged entries).imp ne_of_lt)

theorem mem_arranged : e ∈ arranged entries ↔ first? entries e.path = some e := by
  have same : first? (arranged entries) e.path = first? entries e.path := by
    rw [arranged, first?_firstOfEach, first?_mergeSort]
  rw [← same]
  constructor
  · intro h
    exact first?_of_mem (nodup_arranged entries) h
  · exact List.mem_of_find?_eq_some

/-! ### Putting trees together -/

theorem stands_file (h : e.kind = .file) : Stands e (.file e.path e.size?) where
  path := rfl
  name := getLast?_segments e.path
  kind := h.symm
  file _ := ⟨rfl, rfl⟩
  directory hd := by rw [h] at hd; cases hd

theorem stands_directory (h : e.kind = .directory) (children : List FileNode) :
    Stands e (.directory e.path children) where
  path := rfl
  name := getLast?_segments e.path
  kind := h.symm
  file hf := by rw [h] at hf; cases hf
  directory _ := ⟨rfl, rfl⟩

/-- What becomes of the trees `behind` when an entry is put before them: those below its node `top`, and
the `others`. -/
structure Parts (e : TreeEntry) (behind : List Placed) (top : FileNode) (others : List Placed) : Prop where
  stands : Stands e top
  below : ∀ c ∈ top.children, ∃ p ∈ behind, p.node = c ∧ p.parent? = some e.path
  inOrder : top.children.Sublist (behind.map (·.node))
  sublist : others.Sublist behind
  waiting : e.kind = .directory → ∀ p ∈ others, p.parent? ≠ some e.path
  all : (top.children ++ others.map (·.node)).Perm (behind.map (·.node))

theorem exists_parts (e : TreeEntry) (behind : List Placed) :
    ∃ top others, gather e behind = ⟨parentPath? e.path, top⟩ :: others ∧ Parts e behind top others := by
  cases h : e.kind with
  | file =>
    refine ⟨.file e.path e.size?, behind, by simp only [gather, h], ?_⟩
    exact {
      stands := stands_file h
      below := fun c hc => by cases hc
      inOrder := List.nil_sublist _
      sublist := .refl _
      waiting := fun hd => by rw [h] at hd; cases hd
      all := .refl _ }
  | directory =>
    refine ⟨.directory e.path ((behind.filter (·.parent? == some e.path)).map (·.node)),
      behind.filter (fun p => !(p.parent? == some e.path)), ?_, ?_⟩
    · simp only [gather, h, List.partition_eq_filter_filter]
      rfl
    · exact {
        stands := stands_directory h _
        below := fun c hc => by
          obtain ⟨p, hp, rfl⟩ := List.mem_map.1 hc
          obtain ⟨mem, parent⟩ := List.mem_filter.1 hp
          exact ⟨p, mem, rfl, beq_iff_eq.1 parent⟩
        inOrder := List.filter_sublist.map _
        sublist := List.filter_sublist
        waiting := fun _ p hp => by simpa using (List.mem_filter.1 hp).2
        all := by
          show (List.map _ _ ++ List.map _ _).Perm _
          rw [← List.map_append]
          exact (List.filter_append_perm _ behind).map _ }

/-- The trees that some entries were put together to, in order of their paths: every entry has its node,
and no tree belongs to a directory among the entries. -/
structure Gathered (entries : List TreeEntry) (placed : List Placed) : Prop where
  paths : (paths (placed.map (·.node))).Perm (entries.map (·.path))
  tops : (placed.map (·.node.path)).Sublist (entries.map (·.path))
  parents : ∀ p ∈ placed, p.parent? = parentPath? p.node.path
  stands : ∀ n ∈ nodes (placed.map (·.node)), ∃ e ∈ entries, Stands e n
  inPlace : InPlace (placed.map (·.node))
  waiting : ∀ p ∈ placed, ∀ d ∈ entries, d.kind = .directory → p.parent? ≠ some d.path

theorem Gathered.rising {placed : List Placed} (h : Gathered es placed)
    (rising : es.Pairwise fun a b => a.path < b.path) : Rising (placed.map (·.node)) := by
  have paths : (es.map (·.path)).Pairwise (· < ·) := List.pairwise_map.2 rising
  exact List.pairwise_map.2 (List.pairwise_map.1 (paths.sublist h.tops))

theorem Gathered.gather {behind : List Placed} (h : Gathered es behind)
    (least : ∀ d ∈ es, e.path < d.path) (rising : es.Pairwise fun a b => a.path < b.path) :
    Gathered (e :: es) (TreeEntry.gather e behind) := by
  obtain ⟨top, others, heq, parts⟩ := exists_parts e behind
  have hpath := parts.stands.path
  have whole : (nodes (List.map (·.node) (TreeEntry.gather e behind))).Perm
      (top :: nodes (behind.map (·.node))) := by
    rw [heq, List.map_cons, nodes, preorder_eq, List.cons_append, ← nodes_append]
    exact (nodes_perm parts.all).cons top
  have cases_node : ∀ n ∈ nodes (List.map (·.node) (TreeEntry.gather e behind)),
      n = top ∨ n ∈ nodes (behind.map (·.node)) :=
    fun n hn => List.mem_cons.1 (whole.mem_iff.1 hn)
  constructor
  case paths =>
    refine (whole.map _).trans ?_
    rw [List.map_cons, List.map_cons, hpath]
    exact h.paths.cons e.path
  case tops =>
    rw [heq, List.map_cons, List.map_cons, hpath]
    exact ((parts.sublist.map _).trans h.tops).cons_cons e.path
  case parents =>
    rw [heq]
    intro p hp
    rcases List.mem_cons.1 hp with rfl | hp
    · rw [hpath]
    · exact h.parents p (parts.sublist.subset hp)
  case stands =>
    intro n hn
    rcases cases_node n hn with rfl | hn
    · exact ⟨e, List.mem_cons_self, parts.stands⟩
    · obtain ⟨d, hd, stands⟩ := h.stands n hn
      exact ⟨d, List.mem_cons_of_mem e hd, stands⟩
  case inPlace =>
    constructor
    · intro n hn c hc
      rcases cases_node n hn with rfl | hn
      · obtain ⟨p, hp, rfl, parent⟩ := parts.below c hc
        rw [hpath]
        exact parentPath?_eq_some.1 ((h.parents p hp).symm.trans parent)
      · exact h.inPlace.below n hn c hc
    · intro n hn
      rcases cases_node n hn with rfl | hn
      · exact (h.rising rising).sublist parts.inOrder
      · exact h.inPlace.rising n hn
  case waiting =>
    rw [heq]
    intro p hp d hd isDirectory parent
    rcases List.mem_cons.1 hp with rfl | inside
    · -- A parent comes before its children, and `e` before all other entries.
      have before := (parentPath?_eq_some.1 parent).lt
      rcases List.mem_cons.1 hd with rfl | hd
      · exact lt_irrefl _ before
      · exact lt_asymm before (least d hd)
    · rcases List.mem_cons.1 hd with rfl | hd
      · exact parts.waiting isDirectory p inside parent
      · exact h.waiting p (parts.sublist.subset inside) d hd isDirectory parent

theorem gathered_foldr (rising : es.Pairwise fun a b => a.path < b.path) :
    Gathered es (es.foldr TreeEntry.gather []) := by
  induction es with
  | nil =>
    exact {
      paths := .refl _
      tops := .refl _
      parents := fun p hp => by cases hp
      stands := fun n hn => by cases hn
      inPlace := ⟨fun n hn => by (cases hn), fun n hn => by cases hn⟩
      waiting := fun p hp => by cases hp }
  | cons e es ih =>
    obtain ⟨least, rest⟩ := List.pairwise_cons.1 rising
    exact (ih rest).gather least rest

/-! ### The forest -/

/-- The trees that the entries are put together to, those that wait for a directory included. -/
def gathered (entries : List TreeEntry) : List Placed := (arranged entries).foldr gather []

theorem gathered_spec (entries : List TreeEntry) : Gathered (arranged entries) (gathered entries) :=
  gathered_foldr (pairwise_arranged entries)

theorem mem_forest {n : FileNode} : n ∈ forest entries ↔
    n ∈ (gathered entries).map (·.node) ∧ '/' ∉ n.path.toList := by
  have hforest : forest entries = ((gathered entries).filter (·.parent?.isNone)).map (·.node) := rfl
  rw [hforest, List.mem_map, List.mem_map]
  have rootless : ∀ p ∈ gathered entries, p.parent?.isNone = true ↔ '/' ∉ p.node.path.toList := by
    intro p hp
    rw [(gathered_spec entries).parents p hp, Option.isNone_iff_eq_none, parentPath?_eq_none]
  constructor
  · rintro ⟨p, hp, rfl⟩
    obtain ⟨mem, none⟩ := List.mem_filter.1 hp
    exact ⟨⟨p, mem, rfl⟩, (rootless p mem).1 none⟩
  · rintro ⟨⟨p, mem, rfl⟩, slash⟩
    exact ⟨p, List.mem_filter.2 ⟨mem, (rootless p mem).2 slash⟩, rfl⟩

theorem forest_sublist (entries : List TreeEntry) :
    (forest entries).Sublist ((gathered entries).map (·.node)) :=
  List.filter_sublist.map _

theorem mem_nodes_gathered {n : FileNode} (h : n ∈ nodes (forest entries)) :
    n ∈ nodes ((gathered entries).map (·.node)) :=
  (nodes_sublist (forest_sublist entries)).subset h

theorem stands_of_mem {n : FileNode} (h : n ∈ nodes ((gathered entries).map (·.node))) :
    ∃ e, first? entries n.path = some e ∧ Stands e n := by
  obtain ⟨e, he, stands⟩ := (gathered_spec entries).stands n h
  exact ⟨e, by rw [stands.path]; exact mem_arranged.1 he, stands⟩

theorem inPlace_forest (entries : List TreeEntry) : InPlace (forest entries) where
  below n hn := (gathered_spec entries).inPlace.below n (mem_nodes_gathered hn)
  rising n hn := (gathered_spec entries).inPlace.rising n (mem_nodes_gathered hn)

/-- A node of the forest is reached: what stands above it in its tree are directories. -/
theorem reached_of_mem {n : FileNode} (h : n ∈ nodes (forest entries)) : Reached entries n.path := by
  obtain ⟨e, he, stands⟩ := stands_of_mem (mem_nodes_gathered h)
  refine ⟨⟨e, he⟩, fun front behind hcut => ?_⟩
  obtain ⟨root, hroot, hn⟩ := mem_nodes.1 h
  rcases (inPlace_forest entries).cut hroot hn hcut with ⟨d, hd, rfl, some⟩ | ⟨between, hpath⟩
  · obtain ⟨e, he, stands⟩ := stands_of_mem (mem_nodes_gathered (mem_nodes.2 ⟨root, hroot, hd⟩))
    refine ⟨e, he, ?_⟩
    cases hkind : e.kind with
    | directory => rfl
    | file => simp [children, (stands.file hkind).1] at some
  · have slash := (mem_forest.1 hroot).2
    rw [hpath] at slash
    simp at slash

/-- The tree of an entry that is reached waits for no directory, as that would be an entry, too. -/
theorem mem_of_reached (h : Reached entries path) : path ∈ paths (forest entries) := by
  obtain ⟨e, he⟩ := h.listed
  have spec := gathered_spec entries
  have hpath := path_of_first? he
  have mem : path ∈ paths ((gathered entries).map (·.node)) := by
    rw [spec.paths.mem_iff, ← hpath]
    exact List.mem_map_of_mem (mem_arranged.2 (hpath ▸ he))
  obtain ⟨m, hm, rfl⟩ := List.mem_map.1 mem
  obtain ⟨root, hroot, hm⟩ := mem_nodes.1 hm
  obtain ⟨p, hp, rfl⟩ := List.mem_map.1 hroot
  by_cases slash : '/' ∈ p.node.path.toList
  · obtain ⟨parent, hparent⟩ := exists_parent slash
    obtain ⟨leaf, hleaf⟩ := hparent.exists_leaf
    obtain ⟨rest, hrest⟩ := spec.inPlace.extends_path hroot hm
    obtain ⟨d, hd, isDirectory⟩ := h.inside parent (leaf ++ rest) (by
      simp only [hrest, hleaf, String.append_assoc])
    have waits := spec.waiting p hp d (mem_arranged.2 (path_of_first? hd ▸ hd)) isDirectory
    rw [spec.parents p hp, path_of_first? hd] at waits
    exact absurd (parentPath?_eq_some.2 hparent) waits
  · exact List.mem_map.2 ⟨m, mem_nodes.2 ⟨_, mem_forest.2 ⟨hroot, slash⟩, hm⟩, rfl⟩

theorem nodup_paths (entries : List TreeEntry) : (paths (forest entries)).Nodup := by
  have all := (gathered_spec entries).paths.nodup_iff.2 (nodup_arranged entries)
  exact all.sublist ((nodes_sublist (forest_sublist entries)).map _)

theorem forms_forest (entries : List TreeEntry) : Forms entries (forest entries) := by
  have inPlace := inPlace_forest entries
  have nodup := nodup_paths entries
  have rising : Rising (forest entries) :=
    ((gathered_spec entries).rising (pairwise_arranged entries)).sublist (forest_sublist entries)
  have child_or_root : ∀ c ∈ nodes (forest entries), '/' ∈ c.path.toList →
      ∃ d ∈ nodes (forest entries), c ∈ d.children := by
    intro c hc slash
    rcases mem_or_child_of_mem_nodes hc with root | child
    · exact absurd slash (mem_forest.1 root).2
    · exact child
  constructor
  case nodup => exact nodup
  case mem_paths =>
    refine fun path => ⟨fun h => ?_, mem_of_reached⟩
    obtain ⟨n, hn, rfl⟩ := List.mem_map.1 h
    exact reached_of_mem hn
  case stands => exact fun n hn => stands_of_mem (mem_nodes_gathered hn)
  case roots =>
    refine fun n hn => ⟨fun root => (mem_forest.1 root).2, fun slash => ?_⟩
    rcases mem_or_child_of_mem_nodes hn with root | ⟨d, hd, child⟩
    · exact root
    · exact absurd (inPlace.below d hd n child).slash_mem slash
  case children =>
    refine fun n hn c hc => ⟨inPlace.below n hn c, fun parent => ?_⟩
    obtain ⟨d, hd, child⟩ := child_or_root c hc parent.slash_mem
    have path := (inPlace.below d hd c child).unique parent
    rw [← List.inj_on_of_nodup_map nodup hd hn path]
    exact child
  case rising => exact rising.imp Text.bytes_lt_iff.2
  case rising_children => exact fun n hn => (inPlace.rising n hn).imp Text.bytes_lt_iff.2
  case preorder =>
    refine inPlace.pairwise_nodes (rising.imp_of_mem fun ha hb hab => ?_)
    exact diverge_of_not_mem (mem_forest.1 ha).2 (mem_forest.1 hb).2 hab

/-! ### No other forest -/

variable {forest' other : List FileNode} {n m : FileNode}

theorem Stands.eq (hn : Stands e n) (hm : Stands e m) (h : n.children = m.children) : n = m := by
  have kind := hn.kind.trans hm.kind.symm
  have path := hn.path.trans hm.path.symm
  have name := hn.name.symm.trans (path ▸ hm.name)
  have size : n.size? = m.size? := by
    cases hkind : e.kind with
    | file => rw [(hn.file hkind).2, (hm.file hkind).2]
    | directory => rw [(hn.directory hkind).2, (hm.directory hkind).2]
  have children? : n.children? = m.children? := by
    cases hkind : e.kind with
    | file => rw [(hn.file hkind).1, (hm.file hkind).1]
    | directory =>
      obtain ⟨cs, hcs⟩ := Option.isSome_iff_exists.1 (hn.directory hkind).1
      obtain ⟨ds, hds⟩ := Option.isSome_iff_exists.1 (hm.directory hkind).1
      rw [FileNode.children, FileNode.children, hcs, hds] at h
      rw [hcs, hds, show cs = ds from h]
  obtain ⟨name, path, kind, children?, size?⟩ := n
  obtain ⟨name', path', kind', children?', size?'⟩ := m
  simp_all

theorem eq_of_paths {ns ms : List FileNode}
    (hn : ns.Pairwise fun a b => Text.bytes a.path < Text.bytes b.path)
    (hm : ms.Pairwise fun a b => Text.bytes a.path < Text.bytes b.path)
    (paths : ∀ path, path ∈ ns.map (·.path) ↔ path ∈ ms.map (·.path))
    (same : ∀ a ∈ ns, ∀ b ∈ ms, a.path = b.path → a = b) : ns = ms := by
  have members : ∀ a, a ∈ ns ↔ a ∈ ms := by
    intro a
    constructor
    · intro ha
      obtain ⟨b, hb, path⟩ := List.mem_map.1 ((paths a.path).1 (List.mem_map_of_mem ha))
      exact same a ha b hb path.symm ▸ hb
    · intro ha
      obtain ⟨b, hb, path⟩ := List.mem_map.1 ((paths a.path).2 (List.mem_map_of_mem ha))
      exact same b hb a ha path ▸ hb
  have distinct : ∀ {l : List FileNode},
      (l.Pairwise fun a b => Text.bytes a.path < Text.bytes b.path) → l.Nodup := by
    intro l h
    rw [List.Nodup]
    refine h.imp fun {a b} hab equal => ?_
    rw [equal] at hab
    exact List.lt_irrefl _ hab
  have perm := (List.perm_ext_iff_of_nodup (distinct hn) (distinct hm)).2 members
  exact perm.eq_of_pairwise (fun a b _ _ hab hba => absurd hba (List.lt_asymm hab)) hn hm

theorem Forms.child_paths (h : Forms entries forest') (hn : n ∈ nodes forest') (path : String) :
    path ∈ n.children.map (·.path) ↔ Reached entries path ∧ IsParent n.path path := by
  rw [← h.mem_paths]
  constructor
  · intro listed
    obtain ⟨c, hc, rfl⟩ := List.mem_map.1 listed
    have mem := mem_nodes_of_child hn hc
    exact ⟨List.mem_map_of_mem mem, (h.children n hn c mem).1 hc⟩
  · rintro ⟨mem, parent⟩
    obtain ⟨c, hc, rfl⟩ := List.mem_map.1 mem
    exact List.mem_map_of_mem ((h.children n hn c hc).2 parent)

theorem Forms.root_paths (h : Forms entries forest') (path : String) :
    path ∈ forest'.map (·.path) ↔ Reached entries path ∧ '/' ∉ path.toList := by
  rw [← h.mem_paths]
  constructor
  · intro listed
    obtain ⟨n, hn, rfl⟩ := List.mem_map.1 listed
    have mem := mem_nodes_of_mem hn
    exact ⟨List.mem_map_of_mem mem, (h.roots n mem).1 hn⟩
  · rintro ⟨mem, slash⟩
    obtain ⟨n, hn, rfl⟩ := List.mem_map.1 mem
    exact List.mem_map_of_mem ((h.roots n hn).2 slash)

theorem Forms.node_eq (h : Forms entries forest') (h' : Forms entries other) (hn : n ∈ nodes forest')
    (hm : m ∈ nodes other) (path : n.path = m.path) : n = m := by
  induction n using FileNode.induction generalizing m with
  | step n ih =>
    obtain ⟨e, he, stands⟩ := h.stands n hn
    obtain ⟨e', he', stands'⟩ := h'.stands m hm
    obtain rfl : e = e' := Option.some.inj (he.symm.trans (path ▸ he'))
    have children : n.children = m.children := by
      refine eq_of_paths (h.rising_children n hn) (h'.rising_children m hm) (fun q => ?_) fun a ha b hb => ?_
      · rw [h.child_paths hn, h'.child_paths hm, path]
      · exact ih a ha (mem_nodes_of_child hn ha) (mem_nodes_of_child hm hb)
    exact stands.eq stands' children

theorem Forms.eq (h : Forms entries forest') (h' : Forms entries other) : forest' = other := by
  refine eq_of_paths h.rising h'.rising (fun path => ?_) fun a ha b hb => ?_
  · rw [h.root_paths, h'.root_paths]
  · exact h.node_eq h' (mem_nodes_of_mem ha) (mem_nodes_of_mem hb)

/-! ### Listings with the same entries -/

theorem first?_perm {entries' : List TreeEntry} (h : entries'.Perm entries)
    (nodup : (entries.map (·.path)).Nodup) (path : String) :
    first? entries' path = first? entries path := by
  have nodup' := (h.map (·.path)).nodup_iff.2 nodup
  refine Option.ext fun e => ⟨fun he => ?_, fun he => ?_⟩
  · have mem := h.subset (List.mem_of_find?_eq_some he)
    rw [← path_of_first? he]
    exact first?_of_mem nodup mem
  · have mem := h.symm.subset (List.mem_of_find?_eq_some he)
    rw [← path_of_first? he]
    exact first?_of_mem nodup' mem

/-- What a listing describes depends on nothing but the entries that count for each path. -/
theorem Forms.congr {entries' : List TreeEntry} (h : Forms entries forest')
    (same : ∀ path, first? entries' path = first? entries path) : Forms entries' forest' := by
  have reached : ∀ path, Reached entries path ↔ Reached entries' path := by
    intro path
    constructor
    · rintro ⟨listed, inside⟩
      exact ⟨by simpa only [same] using listed, by simpa only [same] using inside⟩
    · rintro ⟨listed, inside⟩
      exact ⟨by simpa only [same] using listed, by simpa only [same] using inside⟩
  exact { h with
    mem_paths := fun path => (h.mem_paths path).trans (reached path)
    stands := by simpa only [same] using h.stands }

/-- The trees of a listing are the only ones with the nodes that it reaches, each in its place; they are
sorted, and where no path is listed twice, the order of the listing does not matter. -/
theorem forest_determined (entries : List TreeEntry) :
    (∀ trees, Forms entries trees ↔ trees = forest entries) ∧
      sortForest (forest entries) = forest entries ∧
      ∀ entries', (entries.map (·.path)).Nodup → entries'.Perm entries →
        forest entries' = forest entries := by
  have forms := forms_forest entries
  refine ⟨fun trees => ⟨fun h => h.eq forms, fun h => h ▸ forms⟩, ?_, fun entries' nodup perm => ?_⟩
  · refine sortForest_eq_self (forms.rising.imp Text.bytes_lt_iff.1) fun n hn => ?_
    exact (forms.rising_children n hn).imp Text.bytes_lt_iff.1
  · exact (forms_forest entries').eq (forms.congr (first?_perm perm nodup))

/-- A directory listed behind its file, another one whose path comes between theirs by its bytes, and a
file without a directory. -/
def mixedListing : List TreeEntry :=
  [⟨"a/x", .file, some 3⟩, ⟨"a-b", .directory, none⟩, ⟨"ghost/y", .file, none⟩,
    ⟨"a", .directory, none⟩]

theorem forest_determined_mixedListing :
    (mixedListing.map (·.path)).Nodup ∧ mixedListing.reverse.Perm mixedListing ∧
      paths (forest mixedListing.reverse) = ["a", "a/x", "a-b"] := by
  have nodup : (mixedListing.map (·.path)).Nodup := by decide
  have perm : mixedListing.reverse.Perm mixedListing := List.reverse_perm mixedListing
  refine ⟨nodup, perm, ?_⟩
  rw [(forest_determined mixedListing).2.2 _ nodup perm]
  cbv

end RepoDocs.TreeEntry
