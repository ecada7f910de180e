import Mathlib.Data.List.Basic
import RepoDocs.Proofs.Outline.Blocks
import RepoDocs.Proofs.Text.Lines

/-! Outlines of Python files that are put together.  The outline of the whole is read off the outlines of
the parts, of which the first ends with a line feed: what the second part declares moves down, and of what
the first part declares only the blocks that reach up to its end go on. -/

namespace RepoDocs

/-- The same function further down. -/
def FunctionOutline.shift (n : Nat) (f : FunctionOutline) : FunctionOutline :=
  { f with startLine := f.startLine + n, endLine := f.endLine + n }

/-- The same class further down. -/
def ClassOutline.shift (n : Nat) (c : ClassOutline) : ClassOutline :=
  { c with startLine := c.startLine + n, endLine := c.endLine + n }

namespace Outline.Python

open RepoDocs.Text

/-- The index of the first line that is not blank and not indented deeper than a header, or the number
of lines if there is none. -/
def firstOutside (header : Line) (lines : List Line) : Nat :=
  lines.findIdx fun line => !line.all isBlank && indentation line ≤ indentation header

/-- The last line of a block when other lines follow the file: a block that ends inside the file ends
where it did, and one that reaches up to the end goes on as far as the lines are inside it. -/
def lastBefore (following lines : List Line) (s : Span) : Nat :=
  if s.last = lines.length then
    lines.length + firstOutside (lineAt lines s.first) following
  else s.last

end Outline.Python

open Outline.Python in
/-- The function as a part of a file that goes on. -/
def FunctionOutline.before (following lines : List Line) (f : FunctionOutline) : FunctionOutline :=
  { f with endLine := lastBefore following lines f.span }

open Outline.Python in
/-- The class as a part of a file that goes on. -/
def ClassOutline.before (following lines : List Line) (c : ClassOutline) : ClassOutline :=
  { c with endLine := lastBefore following lines c.span }

namespace Outline.Python

open RepoDocs.Text

variable {lines following : List Line} {line : Line} {index : Nat}

/-! ### Ends of blocks -/

/-- A block of the first part. -/
theorem blockEnd_append_left (h : lines[index]? = some line) :
    blockEnd (lines ++ following) index =
      lastBefore following lines ⟨index + 1, blockEnd lines index⟩ := by
  have hindex : index + 1 ≤ lines.length := (List.getElem?_eq_some_iff.1 h).1
  have whole : (lines ++ following)[index]? = some line := by
    rw [List.getElem?_append_left hindex]
    exact h
  have hlength : (lines.drop (index + 1)).length = lines.length - (index + 1) := List.length_drop
  have hle : (lines.drop (index + 1)).findIdx (endsBlock (indentation line)) ≤
      (lines.drop (index + 1)).length := List.findIdx_le_length
  rw [lastBefore, lineAt_succ h, blockEnd_of_getElem? h, blockEnd_of_getElem? whole,
    List.drop_append_of_le_length hindex, List.findIdx_append]
  have outside : firstOutside line following = following.findIdx (endsBlock (indentation line)) := rfl
  dsimp only
  split <;> split <;> omega

/-- A block of the second part. -/
theorem blockEnd_append_right (h : following[index]? = some line) :
    blockEnd (lines ++ following) (index + lines.length) =
      blockEnd following index + lines.length := by
  have whole : (lines ++ following)[index + lines.length]? = some line := by
    rw [List.getElem?_append_right (Nat.le_add_left _ _), Nat.add_sub_cancel]
    exact h
  have rest : (lines ++ following).drop (index + lines.length + 1) = following.drop (index + 1) := by
    rw [List.drop_append]
    have behind : index + lines.length + 1 - lines.length = index + 1 := by omega
    rw [List.drop_eq_nil_of_le (by omega), behind, List.nil_append]
  rw [blockEnd_of_getElem? whole, blockEnd_of_getElem? h, rest]
  omega

/-! ### What the lines declare -/

theorem functionAt_append_left (h : lines[index]? = some line) :
    functionAt (lines ++ following) index line =
      (functionAt lines index line).map (·.before following lines) := by
  rw [functionAt, functionAt, blockEnd_append_left h, Option.map_map]
  rfl

theorem functionAt_append_right (h : following[index]? = some line) :
    functionAt (lines ++ following) (index + lines.length) line =
      (functionAt following index line).map (·.shift lines.length) := by
  rw [functionAt, functionAt, blockEnd_append_right h, Option.map_map]
  congr 1
  funext header
  simp only [Function.comp, FunctionOutline.shift]
  rw [Nat.add_right_comm]

theorem classAt_append_left (h : lines[index]? = some line) :
    classAt (lines ++ following) index line =
      (classAt lines index line).map (·.before following lines) := by
  rw [classAt, classAt, blockEnd_append_left h, Option.map_map]
  rfl

theorem classAt_append_right (h : following[index]? = some line) :
    classAt (lines ++ following) (index + lines.length) line =
      (classAt following index line).map (·.shift lines.length) := by
  rw [classAt, classAt, blockEnd_append_right h, Option.map_map]
  congr 1
  funext name
  simp only [Function.comp, ClassOutline.shift]
  rw [Nat.add_right_comm]

/-- What is found at the lines of both parts is what is found at those of each of them. -/
theorem scan_append {f g k : Nat → Line → Option α} {left right : α → α}
    (hleft : ∀ i line, lines[i]? = some line → f i line = (g i line).map left)
    (hright : ∀ i line, following[i]? = some line →
      f (i + lines.length) line = (k i line).map right) :
    scan f 0 (lines ++ following) =
      (scan g 0 lines).map left ++ (scan k 0 following).map right := by
  simp only [scan_eq_filterMap, List.map_filterMap, List.zipIdx_append, List.filterMap_append]
  congr 1
  · refine List.filterMap_congr fun p hp => ?_
    exact hleft p.2 p.1 (List.mem_zipIdx_iff_getElem?.1 hp)
  · rw [Nat.zero_add, List.zipIdx_eq_map_add, List.filterMap_map]
    refine List.filterMap_congr fun p hp => ?_
    have found := hright p.2 p.1 (List.mem_zipIdx_iff_getElem?.1 hp)
    rw [Nat.add_comm] at found
    exact found

/-! ### Outlines -/

/-- The outline of a Python file in two parts, of which the first is empty or ends with a line feed. -/
theorem outline_append (fileName : String) {a b : String}
    (h : a = "" ∨ a.toList.getLast? = some '\n') :
    let first : FileOutline := outline fileName a
    let second : FileOutline := outline fileName b
    let lines := Text.lines a.toList
    let following := Text.lines b.toList
    (∀ s ∈ first.spans, s.last ≤ lines.length) ∧
      outline fileName (a ++ b) =
        { fileName
          language := .python
          functions := first.functions.map (·.before following lines) ++
            second.functions.map (·.shift lines.length)
          classes := first.classes.map (·.before following lines) ++
            second.classes.map (·.shift lines.length)
          imports := first.imports ++ second.imports
          exports := first.functions.map (·.name) ++ second.functions.map (·.name) ++
            (first.classes.map (·.name) ++ second.classes.map (·.name)) } := by
  intro first second lines following
  refine ⟨fun s hs => (isBlock_of_mem_spans hs).last_le_length, ?_⟩
  have hlines : Text.lines (a ++ b).toList = lines ++ following := by
    rw [String.toList_append]
    refine Text.lines_append (h.imp_left ?_) _
    rintro rfl
    rfl
  have functions : scan (functionAt (lines ++ following)) 0 (lines ++ following) =
      first.functions.map (·.before following lines) ++
        second.functions.map (·.shift lines.length) :=
    scan_append (fun _ _ => functionAt_append_left) (fun _ _ => functionAt_append_right)
  have classes : scan (classAt (lines ++ following)) 0 (lines ++ following) =
      first.classes.map (·.before following lines) ++
        second.classes.map (·.shift lines.length) :=
    scan_append (fun _ _ => classAt_append_left) (fun _ _ => classAt_append_right)
  unfold outline
  simp only [hlines, functions, classes, List.filterMap_append, List.map_append, List.map_map]
  rfl

/-- A class and a method of it, of which only the headers are there. -/
def openBlocks : String := "class A:\n  def f(x):\n"

/-- The method ends before the next line that is indented like it, the class before one that is not
indented. -/
theorem outline_append_openBlocks :
    openBlocks.toList.getLast? = some '\n' ∧
      (outline "a.py" (openBlocks ++ "\n  x = 1\r\ny = 2\n")).spans.map
        (fun s => (s.first, s.last)) = [(2, 3), (1, 4)] := by
  have feed : openBlocks.toList.getLast? = some '\n' := by rfl
  refine ⟨feed, ?_⟩
  rw [(outline_append "a.py" (.inr feed)).2]
  rfl

end Outline.Python

end RepoDocs
