import Mathlib.Data.List.Lex
import Mathlib.Data.List.TakeWhile
import RepoDocs.Proofs.Text.ByteOrder
import RepoDocs.Proofs.Text.Lines
import RepoDocs.Tree.Basic

/-! Paths and their segments.  A path ends with the segment behind its last slash, and what stands before
that slash is the path of the directory that holds it. -/

namespace RepoDocs

open Text

/-- What stands before the last slash of `path` is `parent`. -/
def IsParent (parent path : String) : Prop :=
  ∃ leaf : String, path = parent ++ "/" ++ leaf ∧ '/' ∉ leaf.toList

/-- The parts of a path between its slashes. -/
def segments (path : String) : List String :=
  (splitAtEach (· == '/') path.toList).map String.ofList

/-- The order of paths segment by segment, in which the segments are in the order of their bytes. -/
def SegmentsPrecede (a b : String) : Prop :=
  List.Lex (fun s t => bytes s < bytes t) (segments a) (segments b)

/-! ### The last slash -/

namespace Text

variable {sep : Char} {s before behind : String}

theorem exists_last_of_mem {l : List Char} (h : sep ∈ l) :
    ∃ a b, l = a ++ sep :: b ∧ sep ∉ b := by
  obtain ⟨b, a, hl, hb⟩ := List.eq_append_cons_of_mem (List.mem_reverse.2 h)
  refine ⟨a.reverse, b.reverse, ?_, by simpa using hb⟩
  rw [← List.reverse_reverse l, hl]
  simp

theorem splitLast?_of_append {a b : List Char} (h : s.toList = a ++ sep :: b) (hb : sep ∉ b) :
    splitLast? sep s = some (String.ofList a, String.ofList b) := by
  have kept : ∀ c ∈ b.reverse, (c != sep) = true := by
    rintro c hc
    rw [bne_iff_ne]
    rintro rfl
    exact hb (List.mem_reverse.1 hc)
  have reversed : s.toList.reverse = b.reverse ++ sep :: a.reverse := by simp [h]
  rw [splitLast?, reversed, List.dropWhile_append_of_pos kept, List.takeWhile_append_of_pos kept]
  simp

theorem splitLast?_eq_none : splitLast? sep s = none ↔ sep ∉ s.toList := by
  constructor
  · intro h mem
    obtain ⟨a, b, hs, hb⟩ := exists_last_of_mem mem
    rw [splitLast?_of_append hs hb] at h
    cases h
  · intro h
    have nothing : s.toList.reverse.dropWhile (· != sep) = [] := by
      refine List.dropWhile_eq_nil_iff.2 fun c hc => bne_iff_ne.2 ?_
      rintro rfl
      exact h (List.mem_reverse.1 hc)
    rw [splitLast?, nothing]

theorem splitLast?_eq_some : splitLast? sep s = some (before, behind) ↔
    s.toList = before.toList ++ sep :: behind.toList ∧ sep ∉ behind.toList := by
  constructor
  · intro h
    have mem : sep ∈ s.toList := by
      by_contra absent
      rw [splitLast?_eq_none.2 absent] at h
      cases h
    obtain ⟨a, b, hs, hb⟩ := exists_last_of_mem mem
    rw [splitLast?_of_append hs hb] at h
    cases h
    rw [String.toList_ofList, String.toList_ofList]
    exact ⟨hs, hb⟩
  · rintro ⟨hs, hb⟩
    rw [splitLast?_of_append hs hb, String.ofList_toList, String.ofList_toList]

end Text

/-! ### Parents -/

variable {parent path leaf : String}

theorem toList_slash (parent leaf : String) :
    (parent ++ "/" ++ leaf).toList = parent.toList ++ '/' :: leaf.toList := by simp

theorem parentPath?_eq_some : parentPath? path = some parent ↔ IsParent parent path := by
  rw [parentPath?, Option.map_eq_some_iff]
  constructor
  · rintro ⟨⟨before, leaf⟩, h, rfl⟩
    obtain ⟨hpath, hleaf⟩ := splitLast?_eq_some.1 h
    exact ⟨leaf, String.toList_inj.1 (by rw [hpath, toList_slash]), hleaf⟩
  · rintro ⟨leaf, rfl, hleaf⟩
    exact ⟨(parent, leaf), splitLast?_eq_some.2 ⟨toList_slash parent leaf, hleaf⟩, rfl⟩

theorem parentPath?_eq_none : parentPath? path = none ↔ '/' ∉ path.toList := by
  rw [parentPath?, Option.map_eq_none_iff, splitLast?_eq_none]

theorem IsParent.exists_leaf (h : IsParent parent path) : ∃ leaf, path = parent ++ "/" ++ leaf := by
  obtain ⟨leaf, hleaf, -⟩ := h
  exact ⟨leaf, hleaf⟩

theorem IsParent.slash_mem (h : IsParent parent path) : '/' ∈ path.toList := by
  obtain ⟨leaf, rfl, -⟩ := h
  simp

theorem exists_parent (h : '/' ∈ path.toList) : ∃ parent, IsParent parent path := by
  cases parent : parentPath? path with
  | none => exact absurd h (parentPath?_eq_none.1 parent)
  | some p => exact ⟨p, parentPath?_eq_some.1 parent⟩

theorem IsParent.unique {other : String} (h : IsParent parent path) (h' : IsParent other path) :
    parent = other :=
  Option.some.inj ((parentPath?_eq_some.2 h).symm.trans (parentPath?_eq_some.2 h'))

theorem IsParent.lt (h : IsParent parent path) : parent < path := by
  obtain ⟨leaf, rfl, -⟩ := h
  show parent.toList < (parent ++ "/" ++ leaf).toList
  rw [toList_slash]
  have behind : parent.toList ++ [] < parent.toList ++ '/' :: leaf.toList :=
    List.append_left_lt (List.nil_lt_cons '/' leaf.toList)
  simpa using behind

/-- A slash in a path is its last one, or stands in the path of its parent. -/
theorem IsParent.cut {front behind : String} (h : IsParent parent path)
    (hcut : path = front ++ "/" ++ behind) :
    front = parent ∨ ∃ between, parent = front ++ "/" ++ between := by
  obtain ⟨leaf, hpath, hleaf⟩ := h
  have whole : parent.toList ++ '/' :: leaf.toList = front.toList ++ '/' :: behind.toList := by
    rw [← toList_slash, ← toList_slash, ← hpath, hcut]
  rcases List.append_eq_append_iff.1 whole with ⟨rest, hfront, hrest⟩ | ⟨rest, hparent, hrest⟩
  · cases rest with
    | nil => exact .inl (String.toList_inj.1 (by simpa using hfront))
    | cons c rest =>
      -- The slash behind `front` would stand in the leaf.
      rw [List.cons_append, List.cons.injEq] at hrest
      refine absurd ?_ hleaf
      rw [hrest.2]
      simp
  · cases rest with
    | nil => exact .inl (String.toList_inj.1 (by simpa using hparent.symm))
    | cons c rest =>
      rw [List.cons_append, List.cons.injEq] at hrest
      refine .inr ⟨String.ofList rest, String.toList_inj.1 ?_⟩
      rw [toList_slash, String.toList_ofList, hparent, ← hrest.1]

/-! ### Segments -/

theorem segments_of_not_mem (h : '/' ∉ path.toList) : segments path = [path] := by
  rw [segments, splitAtEach_of_forall_not, List.map_singleton, String.ofList_toList]
  rintro c hc
  rw [beq_eq_false_iff_ne]
  rintro rfl
  exact h hc

theorem segments_slash (h : '/' ∉ leaf.toList) :
    segments (parent ++ "/" ++ leaf) = segments parent ++ [leaf] := by
  rw [← segments_of_not_mem h, segments, toList_slash, splitAtEach_append_cons (by rfl), List.map_append]
  rfl

theorem IsParent.segments_eq (h : IsParent parent path) :
    ∃ leaf, segments path = segments parent ++ [leaf] := by
  obtain ⟨leaf, rfl, hleaf⟩ := h
  exact ⟨leaf, segments_slash hleaf⟩

theorem getLast?_segments (path : String) : (segments path).getLast? = some (leafName path) := by
  cases h : splitLast? '/' path with
  | none =>
    rw [segments_of_not_mem (splitLast?_eq_none.1 h), leafName, h]
    rfl
  | some parts =>
    obtain ⟨parent, leaf⟩ := parts
    obtain ⟨hpath, hleaf⟩ := splitLast?_eq_some.1 h
    have whole : path = parent ++ "/" ++ leaf := String.toList_inj.1 (by rw [hpath, toList_slash])
    rw [leafName, h, whole, segments_slash hleaf, List.getLast?_concat]

/-! ### Order -/

/-- The paths differ in their last segments only, of which the first is the lesser one. -/
def Diverge (a b : String) : Prop :=
  ∃ front x y, segments a = front ++ [x] ∧ segments b = front ++ [y] ∧ x < y

variable {a b : String}

theorem diverge_of_not_mem (ha : '/' ∉ a.toList) (hb : '/' ∉ b.toList) (h : a < b) : Diverge a b :=
  ⟨[], a, b, segments_of_not_mem ha, segments_of_not_mem hb, h⟩

theorem lt_of_append_lt {front s t : List Char} (h : front ++ s < front ++ t) : s < t := by
  induction front with
  | nil => exact h
  | cons c front ih =>
    rcases List.cons_lt_cons_iff.1 h with less | ⟨-, less⟩
    · exact absurd less (lt_irrefl c)
    · exact ih less

theorem IsParent.diverge (ha : IsParent parent a) (hb : IsParent parent b) (h : a < b) :
    Diverge a b := by
  obtain ⟨x, rfl, hx⟩ := ha
  obtain ⟨y, rfl, hy⟩ := hb
  refine ⟨segments parent, x, y, segments_slash hx, segments_slash hy, ?_⟩
  have lists : (parent ++ "/" ++ x).toList < (parent ++ "/" ++ y).toList := h
  rw [toList_slash, toList_slash, List.append_cons, List.append_cons _ _ y.toList] at lists
  exact lt_of_append_lt lists

theorem Diverge.precede {c d : String} (h : Diverge a b) (hc : segments a <+: segments c)
    (hd : segments b <+: segments d) : SegmentsPrecede c d := by
  obtain ⟨front, x, y, ha, hb, hlt⟩ := h
  obtain ⟨s, hs⟩ := hc
  obtain ⟨t, ht⟩ := hd
  rw [SegmentsPrecede, ← hs, ← ht, ha, hb, List.append_assoc, List.append_assoc]
  refine List.Lex.append_left _ ?_ front
  exact List.Lex.rel (bytes_lt_iff.2 hlt)

theorem segmentsPrecede_below (h : segments a ++ [leaf] <+: segments b) : SegmentsPrecede a b := by
  obtain ⟨rest, hrest⟩ := h
  rw [SegmentsPrecede, ← hrest, List.append_assoc]
  simpa using List.Lex.append_left _ (List.Lex.nil (a := leaf) (l := rest)) (segments a)

end RepoDocs
