import Mathlib.Data.List.TakeWhile
import RepoDocs.Outline.Python

/-! The blocks of a Python file.  Where a block ends depends on the indentation of its header alone:
each line of it that is not blank is indented deeper, and the line behind it is not.  So two blocks
have no line in common, or one of them lies inside the other. -/

namespace RepoDocs

/-- The first and the last of some lines in a row, counted from 1. -/
structure Span where
  first : Nat
  last : Nat

def FunctionOutline.span (f : FunctionOutline) : Span := ⟨f.startLine, f.endLine⟩

def ClassOutline.span (c : ClassOutline) : Span := ⟨c.startLine, c.endLine⟩

/-- The lines that the functions and the classes of a file take up. -/
def FileOutline.spans (f : FileOutline) : List Span :=
  f.functions.map (·.span) ++ f.classes.map (·.span)

namespace Outline.Python

open RepoDocs.Text

/-- The line with a number, counted from 1. -/
def lineAt (lines : List Line) (number : Nat) : Line := lines.getD (number - 1) []

/-- A line with nothing but blanks. -/
def Blank (line : Line) : Prop := ∀ c ∈ line, isBlank c = true

end Outline.Python

namespace Span

open Outline.Python

/-- The lines are a header and its block: what is not blank there is indented deeper than the header,
and the next line, if there is one, is neither blank nor indented deeper. -/
structure IsBlock (lines : List Line) (s : Span) : Prop where
  first_pos : 1 ≤ s.first
  first_le_last : s.first ≤ s.last
  last_le_length : s.last ≤ lines.length
  deeper : ∀ k, s.first < k → k ≤ s.last → ¬Blank (lineAt lines k) →
    indentation (lineAt lines s.first) < indentation (lineAt lines k)
  ended : s.last < lines.length → ¬Blank (lineAt lines (s.last + 1)) ∧
    indentation (lineAt lines (s.last + 1)) ≤ indentation (lineAt lines s.first)

/-- No line belongs to both. -/
def Disjoint (s t : Span) : Prop := s.last < t.first ∨ t.last < s.first

/-- All lines of `t` belong to `s`, and the first line of `t` is indented deeper than that of `s`. -/
structure Holds (lines : List Line) (s t : Span) : Prop where
  first : s.first ≤ t.first
  last : t.last ≤ s.last
  deeper : indentation (lineAt lines s.first) < indentation (lineAt lines t.first)

/-- The one is apart from the other, or inside it. -/
def Nest (lines : List Line) (s t : Span) : Prop :=
  s.Disjoint t ∨ s.Holds lines t ∨ t.Holds lines s

theorem Nest.symm {lines : List Line} {s t : Span} (h : s.Nest lines t) : t.Nest lines s := by
  rcases h with apart | holds | held
  · exact .inl apart.symm
  · exact .inr (.inr holds)
  · exact .inr (.inl held)

/-- A block whose header comes later begins behind the end of the first one, or ends before it does. -/
theorem IsBlock.nest {lines : List Line} {s t : Span} (hs : s.IsBlock lines) (ht : t.IsBlock lines)
    (later : s.first < t.first) (header : ¬Blank (lineAt lines t.first)) : s.Nest lines t := by
  by_cases inside : t.first ≤ s.last
  · have deeper := hs.deeper t.first later inside header
    refine .inr (.inl ⟨Nat.le_of_lt later, Nat.le_of_not_lt fun beyond => ?_, deeper⟩)
    -- The line that ends `s` would belong to `t`, whose lines are indented even deeper.
    obtain ⟨nonblank, shallow⟩ := hs.ended (Nat.lt_of_lt_of_le beyond ht.last_le_length)
    have inner := ht.deeper (s.last + 1) (by omega) beyond nonblank
    omega
  · exact .inl (.inl (Nat.lt_of_not_le inside))

end Span

namespace Outline.Python

open RepoDocs.Text

variable {lines : List Line} {line : Line} {index indent : Nat}

/-! ### Ends of blocks -/

theorem endsBlock_iff : endsBlock indent line = true ↔ ¬Blank line ∧ indentation line ≤ indent := by
  simp [endsBlock, Blank]

theorem blockLength_eq_findIdx (indent : Nat) (lines : List Line) :
    blockLength indent lines = lines.findIdx (endsBlock indent) := by
  rw [blockLength, List.takeWhile_eq_take_findIdx_not]
  simp [List.findIdx_le_length]

theorem blockEnd_of_getElem? (h : lines[index]? = some line) : blockEnd lines index =
    index + 1 + (lines.drop (index + 1)).findIdx (endsBlock (indentation line)) := by
  rw [blockEnd, h, ← blockLength_eq_findIdx]

theorem lineAt_succ (h : lines[index]? = some line) : lineAt lines (index + 1) = line := by
  simp [lineAt, h]

theorem lineAt_drop {n k : Nat} (h : k < (lines.drop n).length) :
    lineAt lines (n + k + 1) = (lines.drop n)[k] := by
  refine lineAt_succ ?_
  rw [← List.getElem?_drop]
  exact List.getElem?_eq_getElem h

/-- What a header and the end that is found for it take up is a block. -/
theorem isBlock_of_getElem? (h : lines[index]? = some line) :
    Span.IsBlock lines ⟨index + 1, blockEnd lines index⟩ := by
  have hindex : index < lines.length := (List.getElem?_eq_some_iff.1 h).1
  have hrest : (lines.drop (index + 1)).length = lines.length - (index + 1) := List.length_drop
  have hlength : (lines.drop (index + 1)).findIdx (endsBlock (indentation line)) ≤
      (lines.drop (index + 1)).length := List.findIdx_le_length
  have hlast := blockEnd_of_getElem? h
  constructor
  case first_pos => exact Nat.succ_pos index
  case first_le_last => dsimp only; omega
  case last_le_length => dsimp only; omega
  case deeper =>
    intro k first last nonblank
    dsimp only at first last ⊢
    obtain ⟨m, rfl⟩ : ∃ m, k = index + 1 + m + 1 := ⟨k - (index + 2), by omega⟩
    have before : m < (lines.drop (index + 1)).findIdx (endsBlock (indentation line)) := by omega
    have goesOn := List.not_of_lt_findIdx before
    rw [lineAt_drop (Nat.lt_of_lt_of_le before hlength)] at nonblank ⊢
    rw [lineAt_succ h]
    refine Nat.lt_of_not_le fun shallow => ?_
    rw [endsBlock_iff.2 ⟨nonblank, shallow⟩] at goesOn
    cases goesOn
  case ended =>
    intro more
    dsimp only at more ⊢
    have within : (lines.drop (index + 1)).findIdx (endsBlock (indentation line)) <
        (lines.drop (index + 1)).length := by omega
    rw [hlast, lineAt_drop within, lineAt_succ h]
    exact endsBlock_iff.1 List.findIdx_getElem

/-! ### Headers -/

theorem after?_eq_some {w : String} {s r : Line} (h : after? w s = some r) :
    ∃ t, s = w.toList ++ t := by
  unfold after? at h
  split at h
  · rename_i hprefix
    obtain ⟨t, ht⟩ := List.isPrefixOf_iff_prefix.1 hprefix
    exact ⟨t, ht.symm⟩
  · cases h

theorem after?_of_bind {w : String} {s : Line} {f : Line → Option α} {a : α}
    (h : (after? w s).bind f = some a) : ∃ t, s = w.toList ++ t := by
  obtain ⟨r, hr, -⟩ := Option.bind_eq_some_iff.1 h
  exact after?_eq_some hr

/-- The header of a function begins with `async` or `def`. -/
theorem head?_of_defHeader? {h : DefHeader} (hh : defHeader? line = some h) :
    line.head? = some 'a' ∨ line.head? = some 'd' := by
  unfold defHeader? at hh
  split at hh
  rename_i r hasync
  split at hasync
  · rename_i rest hrest
    obtain ⟨t, rfl⟩ := after?_of_bind hrest
    exact .inl rfl
  · cases hasync
    obtain ⟨s, hs, -⟩ := Option.bind_eq_some_iff.1 hh
    obtain ⟨t, rfl⟩ := after?_of_bind hs
    exact .inr rfl

theorem head?_of_className? {name : Line} (h : className? line = some name) :
    line.head? = some 'c' := by
  obtain ⟨s, hs, -⟩ := Option.bind_eq_some_iff.1 h
  obtain ⟨t, rfl⟩ := after?_of_bind hs
  rfl

theorem trim_eq_nil_of_blank (h : Blank line) : trim line = [] := by
  have nothing : trimStart line = [] := List.dropWhile_eq_nil_iff.2 h
  rw [trim, nothing]
  rfl

/-- There is a line at the index, which is a header, and it takes up some lines with its block. -/
def HeaderAt (lines : List Line) (index : Nat) (s : Span) : Prop :=
  s = ⟨index + 1, blockEnd lines index⟩ ∧ ∃ line, lines[index]? = some line ∧ ¬Blank line

theorem HeaderAt.isBlock {s : Span} (h : HeaderAt lines index s) : s.IsBlock lines := by
  obtain ⟨rfl, line, hline, -⟩ := h
  exact isBlock_of_getElem? hline

theorem HeaderAt.nest_of_lt {s t : Span} {index' : Nat} (hs : HeaderAt lines index s)
    (ht : HeaderAt lines index' t) (h : index < index') : s.Nest lines t := by
  have isBlock := hs.isBlock
  have isBlock' := ht.isBlock
  obtain ⟨rfl, -⟩ := hs
  obtain ⟨rfl, line, hline, nonblank⟩ := ht
  refine isBlock.nest isBlock' (Nat.succ_lt_succ h) ?_
  rw [lineAt_succ hline]
  exact nonblank

/-- Blocks with different headers are apart, or one is inside the other. -/
theorem HeaderAt.nest {s t : Span} {index' : Nat} (hs : HeaderAt lines index s)
    (ht : HeaderAt lines index' t) (h : index ≠ index') : s.Nest lines t := by
  rcases Nat.lt_or_gt_of_ne h with before | behind
  · exact hs.nest_of_lt ht before
  · exact (ht.nest_of_lt hs behind).symm

theorem defHeader?_of_functionAt {f : FunctionOutline} (h : functionAt lines index line = some f) :
    ∃ header, defHeader? (trim line) = some header := by
  obtain ⟨header, hheader, -⟩ := Option.map_eq_some_iff.1 h
  exact ⟨header, hheader⟩

theorem className?_of_classAt {c : ClassOutline} (h : classAt lines index line = some c) :
    ∃ name, className? (trim line) = some name := by
  obtain ⟨name, hname, -⟩ := Option.map_eq_some_iff.1 h
  exact ⟨name, hname⟩

theorem headerAt_of_functionAt {f : FunctionOutline} (hline : lines[index]? = some line)
    (h : functionAt lines index line = some f) : HeaderAt lines index f.span := by
  refine ⟨?_, line, hline, fun blank => ?_⟩
  · obtain ⟨header, -, rfl⟩ := Option.map_eq_some_iff.1 h
    rfl
  · obtain ⟨header, hheader⟩ := defHeader?_of_functionAt h
    rw [trim_eq_nil_of_blank blank] at hheader
    cases hheader

theorem headerAt_of_classAt {c : ClassOutline} (hline : lines[index]? = some line)
    (h : classAt lines index line = some c) : HeaderAt lines index c.span := by
  refine ⟨?_, line, hline, fun blank => ?_⟩
  · obtain ⟨name, -, rfl⟩ := Option.map_eq_some_iff.1 h
    rfl
  · obtain ⟨name, hname⟩ := className?_of_classAt h
    rw [trim_eq_nil_of_blank blank] at hname
    cases hname

/-- No line is the header of a function and of a class. -/
theorem not_functionAt_and_classAt {f : FunctionOutline} {c : ClassOutline}
    (hf : functionAt lines index line = some f) (hc : classAt lines index line = some c) : False := by
  obtain ⟨header, hheader⟩ := defHeader?_of_functionAt hf
  obtain ⟨name, hname⟩ := className?_of_classAt hc
  have first := head?_of_className? hname
  rcases head?_of_defHeader? hheader with head | head
  all_goals
    rw [head] at first
    exact absurd first (by decide)

/-! ### Scans -/

section Scan

variable {f : Nat → Line → Option α} {a : α}

theorem scan_eq_filterMap (f : Nat → Line → Option α) (start : Nat) (lines : List Line) :
    scan f start lines = (lines.zipIdx start).filterMap fun p => f p.2 p.1 := by
  induction lines generalizing start with
  | nil => rfl
  | cons line rest ih =>
    rw [scan, ih, List.zipIdx_cons]
    cases h : f start line <;> simp [h]

theorem mem_scan :
    a ∈ scan f 0 lines ↔ ∃ i line, lines[i]? = some line ∧ f i line = some a := by
  rw [scan_eq_filterMap, List.mem_filterMap]
  constructor
  · rintro ⟨⟨line, i⟩, hline, found⟩
    exact ⟨i, line, List.mem_zipIdx_iff_getElem?.1 hline, found⟩
  · rintro ⟨i, line, hline, found⟩
    exact ⟨(line, i), List.mem_zipIdx_iff_getElem?.2 hline, found⟩

/-- What is found stands in the order of the lines. -/
theorem pairwise_scan {R : α → α → Prop}
    (h : ∀ i j line line' a b, i < j → lines[i]? = some line → lines[j]? = some line' →
      f i line = some a → f j line' = some b → R a b) : (scan f 0 lines).Pairwise R := by
  have rising : lines.zipIdx.Pairwise fun p q => p.2 < q.2 := by
    refine List.pairwise_map.1 ?_
    rw [List.zipIdx_map_snd]
    exact List.pairwise_lt_range'
  rw [scan_eq_filterMap, List.pairwise_filterMap]
  refine rising.imp_of_mem fun {p q} hp hq hlt a ha b hb => ?_
  rw [List.mem_zipIdx_iff_getElem?] at hp hq
  exact h p.2 q.2 p.1 q.1 a b hlt hp hq ha hb

end Scan

/-! ### Spans -/

theorem isBlock_of_mem_spans {fileName source : String} {s : Span}
    (h : s ∈ (outline fileName source).spans) : s.IsBlock (Text.lines source.toList) := by
  rcases List.mem_append.1 h with h | h
  · obtain ⟨f, hf, rfl⟩ := List.mem_map.1 h
    obtain ⟨i, line, hline, found⟩ := mem_scan.1 hf
    exact (headerAt_of_functionAt hline found).isBlock
  · obtain ⟨c, hc, rfl⟩ := List.mem_map.1 h
    obtain ⟨i, line, hline, found⟩ := mem_scan.1 hc
    exact (headerAt_of_classAt hline found).isBlock

/-- The lines that each function and each class of a Python file takes up are a header and its block,
and those of two of them are apart, or the ones are inside the others and indented deeper. -/
theorem spans_nest (fileName source : String) :
    (∀ s ∈ (outline fileName source).spans, s.IsBlock (Text.lines source.toList)) ∧
      (outline fileName source).spans.Pairwise (Span.Nest (Text.lines source.toList)) := by
  refine ⟨fun _ => isBlock_of_mem_spans, ?_⟩
  refine List.pairwise_append.2 ⟨List.pairwise_map.2 ?_, List.pairwise_map.2 ?_, ?_⟩
  · refine pairwise_scan fun i j line line' a b hlt hline hline' ha hb => ?_
    exact (headerAt_of_functionAt hline ha).nest_of_lt (headerAt_of_functionAt hline' hb) hlt
  · refine pairwise_scan fun i j line line' a b hlt hline hline' ha hb => ?_
    exact (headerAt_of_classAt hline ha).nest_of_lt (headerAt_of_classAt hline' hb) hlt
  · intro s hs t ht
    obtain ⟨f, hf, rfl⟩ := List.mem_map.1 hs
    obtain ⟨c, hc, rfl⟩ := List.mem_map.1 ht
    obtain ⟨i, line, hline, ha⟩ := mem_scan.1 hf
    obtain ⟨j, line', hline', hb⟩ := mem_scan.1 hc
    refine (headerAt_of_functionAt hline ha).nest (headerAt_of_classAt hline' hb) ?_
    rintro rfl
    cases hline.symm.trans hline'
    exact not_functionAt_and_classAt ha hb

end Outline.Python

end RepoDocs
