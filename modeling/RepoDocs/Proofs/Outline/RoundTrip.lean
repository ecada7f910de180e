import RepoDocs.Proofs.Outline.Headers

/-! A rendered Python file is read back.  Each line is read as what it was rendered from, and the block
of a header ends, by the indentation of the lines, where it ended in the forest. -/

namespace RepoDocs.Outline.Python

open RepoDocs.Text

/-! ### Lines -/

def Row.read (r : Row) : Line := dropReturn r.line

structure Row.WellFormed (r : Row) : Prop where
  blanks : IsMargin r.margin
  entry : r.entry.elim Leaf.WellFormed Heading.WellFormed

section Row

variable {r : Row} (h : r.WellFormed)

include h

theorem Row.WellFormed.trim_read : trim r.read = trim r.text := by
  rw [read, trim_dropReturn, line, trim_append_left h.blanks.blank]

theorem Row.WellFormed.inLine : '\n' ∉ r.line := by
  have inMargin : '\n' ∉ r.margin := fun feed => (h.blanks _ feed).2 rfl
  have inText : '\n' ∉ r.text := by
    obtain ⟨level, margin, leaf | heading⟩ := r
    · exact Leaf.WellFormed.inLine h.entry
    · exact Heading.WellFormed.inLine h.entry
  simp [line, inMargin, inText]

theorem Row.WellFormed.flush (nonblank : r.isBlank = false) : Flush r.text := by
  obtain ⟨level, margin, leaf | heading⟩ := r
  · have wellFormed : leaf.WellFormed := h.entry
    cases leaf with
    | blank => cases nonblank
    | «import» module? names inParentheses => exact (Leaf.tight_import wellFormed).first
    | other text => exact wellFormed.1
  · exact heading.tight_text.first

/-- A line that is not blank keeps its margin, and something that is not blank behind it. -/
theorem Row.WellFormed.read_eq (nonblank : r.isBlank = false) :
    ∃ c s, r.read = r.margin ++ c :: s ∧ Text.isBlank c = false := by
  obtain ⟨c, s, htext, hc⟩ := h.flush nonblank
  have kept : c ≠ '\r' := by
    rintro rfl
    cases hc
  obtain ⟨s', hs'⟩ := dropReturn_append_cons kept r.margin s
  exact ⟨c, s', by rw [read, line, htext, hs'], hc⟩

theorem Row.WellFormed.indentation_read (nonblank : r.isBlank = false) :
    indentation r.read = indentation r.margin := by
  obtain ⟨c, s, hread, hc⟩ := h.read_eq nonblank
  have whole : r.margin.takeWhile Text.isBlank = r.margin := List.takeWhile_eq_self_iff.2 h.blanks.blank
  rw [hread, indentation, takeWhile_stop h.blanks.blank hc, indentation, whole]

theorem Row.WellFormed.endsBlock_read (indent : Nat) :
    endsBlock indent r.read = (!r.isBlank && decide (indentation r.margin ≤ indent)) := by
  cases hblank : r.isBlank with
  | true =>
    obtain ⟨level, margin, leaf | heading⟩ := r
    · cases leaf with
      | blank =>
        have empty : (dropReturn (margin ++ [])).all Text.isBlank = true := by
          rw [List.append_nil, List.all_eq_true]
          rcases dropReturn_cases margin with same | ended
          · exact fun c hc => h.blanks.blank c (same ▸ hc)
          · exact fun c hc => h.blanks.blank c (ended ▸ List.mem_append_left _ hc)
        rw [endsBlock, read, line, text]
        exact congrArg (fun b => !b && _) empty
      | _ => cases hblank
    · cases hblank
  | false =>
    obtain ⟨c, s, hread, hc⟩ := h.read_eq hblank
    have visible : r.read.all Text.isBlank = false := by
      rw [hread, List.all_append, List.all_cons, hc, Bool.false_and, Bool.and_false]
    rw [endsBlock, visible, h.indentation_read hblank]

end Row

/-! ### Blocks -/

/-- The lines between two levels of a forest: each that is not blank is in `level` blocks at least, and
indented by `indent` at least. -/
def Within (level indent : Nat) (rows : List Row) : Prop :=
  ∀ r ∈ rows, r.isBlank = false → level ≤ r.level ∧ indent ≤ indentation r.margin

/-- The first of the lines that is not blank is in fewer blocks, and indented less. -/
def Closed (level indent : Nat) (rows : List Row) : Prop :=
  ∀ r, rows.find? (!·.isBlank) = some r → r.level < level ∧ indentation r.margin < indent

theorem nonblank_of_find? {r : Row} {rows : List Row} (h : rows.find? (!·.isBlank) = some r) :
    r.isBlank = false := by
  simpa using List.find?_some h

/-- What goes on over the lines of a block and stops behind them. -/
theorem takeWhile_block {p : Row → Bool} {body tail : List Row} (hbody : ∀ r ∈ body, p r = true)
    (blanks : ∀ r ∈ tail, r.isBlank = true → p r = true)
    (stops : ∀ r, tail.find? (!·.isBlank) = some r → p r = false) :
    (body ++ tail).takeWhile p = body ++ tail.takeWhile (·.isBlank) := by
  rw [List.takeWhile_append_of_pos hbody]
  congr 1
  induction tail with
  | nil => rfl
  | cons r rest ih =>
    cases hr : r.isBlank with
    | true =>
      have others := ih (fun q hq => blanks q (List.mem_cons_of_mem _ hq)) fun q hq =>
        stops q (by simpa [hr] using hq)
      rw [List.takeWhile_cons_of_pos (blanks r (by simp) hr), List.takeWhile_cons_of_pos hr, others]
    | false =>
      rw [List.takeWhile_cons_of_neg (by simp [stops r (by simp [hr])]),
        List.takeWhile_cons_of_neg (by simp [hr])]

/-- The block of a header ends where its levels and where the indentation of its lines ends it. -/
theorem blockRows_eq_blockLength {level indent : Nat} {body tail : List Row}
    (wellFormed : ∀ r ∈ body ++ tail, r.WellFormed) (inside : Within (level + 1) (indent + 1) body)
    (closed : Closed (level + 1) (indent + 1) tail) :
    blockRows level (body ++ tail) = blockLength indent ((body ++ tail).map Row.read) := by
  have byLevel : (body ++ tail).takeWhile (fun r => r.isBlank || decide (level < r.level)) =
      body ++ tail.takeWhile (·.isBlank) := by
    refine takeWhile_block (fun r hr => ?_) (fun r _ blank => by simp [blank]) fun r hr => ?_
    · cases hblank : r.isBlank with
      | true => rfl
      | false => exact decide_eq_true (inside r hr hblank).1
    · have shallow : r.level ≤ level := Nat.le_of_lt_succ (closed r hr).1
      simpa [nonblank_of_find? hr] using shallow
  have byIndent : (body ++ tail).takeWhile (fun r => !endsBlock indent r.read) =
      body ++ tail.takeWhile (·.isBlank) := by
    refine takeWhile_block (fun r hr => ?_) (fun r hr blank => ?_) fun r hr => ?_
    · rw [(wellFormed r (List.mem_append_left _ hr)).endsBlock_read]
      cases hblank : r.isBlank with
      | true => rfl
      | false => simpa using Nat.lt_of_succ_le (inside r hr hblank).2
    · rw [(wellFormed r (List.mem_append_right _ hr)).endsBlock_read, blank]
      rfl
    · have shallow : indentation r.margin ≤ indent := Nat.le_of_lt_succ (closed r hr).2
      rw [(wellFormed r (List.mem_append_right _ (List.mem_of_find?_eq_some hr))).endsBlock_read]
      simpa [nonblank_of_find? hr] using shallow
  rw [blockRows, byLevel, blockLength, List.takeWhile_map, List.length_map]
  exact congrArg List.length byIndent.symm

/-- At each header, the levels of the lines behind it and their indentation agree on the end of its
block. -/
def Agree : List Row → Prop
  | [] => True
  | r :: behind =>
    (r.entry.isRight → blockRows r.level behind =
      blockLength (indentation r.margin) (behind.map Row.read)) ∧ Agree behind

theorem Laid.rows_wellFormed {floor : Nat} {f : Forest} (h : Laid floor f) (level : Nat) :
    ∀ r ∈ f.rows level, r.WellFormed := by
  induction h generalizing level with
  | nil => simp [Forest.rows]
  | line blanks wellFormed _ _ ih =>
    rw [Forest.rows, List.forall_mem_cons]
    exact ⟨⟨blanks, wellFormed⟩, ih level⟩
  | declaration blanks wellFormed _ _ _ _ inside behind =>
    rw [Forest.rows, List.forall_mem_cons, List.forall_mem_append]
    exact ⟨⟨blanks, wellFormed⟩, inside (level + 1), behind level⟩

theorem Laid.within {floor : Nat} {f : Forest} (h : Laid floor f) (level : Nat) :
    Within level floor (f.rows level) := by
  induction h generalizing level with
  | nil => simp [Within, Forest.rows]
  | @line floor margin leaf _ _ _ deep _ ih =>
    rw [Within, Forest.rows, List.forall_mem_cons]
    refine ⟨fun nonblank => ⟨Nat.le_refl level, deep ?_⟩, ih level⟩
    rintro rfl
    cases nonblank
  | declaration _ _ deep _ _ _ inside behind =>
    rw [Within, Forest.rows, List.forall_mem_cons, List.forall_mem_append]
    refine ⟨fun _ => ⟨Nat.le_refl level, deep⟩, fun r hr nonblank => ?_, behind level⟩
    obtain ⟨levels, indents⟩ := inside (level + 1) r hr nonblank
    exact ⟨by omega, by omega⟩

theorem Forest.find?_rows {f : Forest} {level : Nat} {r : Row}
    (h : (f.rows level).find? (!·.isBlank) = some r) : r.level = level ∧ f.margin? = some r.margin := by
  induction f with
  | nil => cases h
  | line margin leaf rest ih =>
    cases leaf with
    | blank => exact ih h
    | _ =>
      cases h
      exact ⟨rfl, rfl⟩
  | declaration margin heading body rest =>
    cases h
    exact ⟨rfl, rfl⟩

/-- Behind a block stand the other lines of the block around it, and then those behind that one. -/
theorem Closed.behind {level floor indent : Nat} {rest : Forest} {outer : List Row}
    (closed : Closed level floor outer) (deep : floor ≤ indent)
    (next : ∀ m, rest.margin? = some m → indentation m ≤ indent) :
    Closed (level + 1) (indent + 1) (rest.rows level ++ outer) := by
  intro r hr
  rw [List.find?_append, Option.or_eq_some_iff] at hr
  rcases hr with hr | ⟨-, hr⟩
  · obtain ⟨rfl, margin⟩ := Forest.find?_rows hr
    exact ⟨Nat.lt_succ_self _, Nat.lt_succ_of_le (next _ margin)⟩
  · obtain ⟨fewer, less⟩ := closed r hr
    exact ⟨by omega, by omega⟩

/-- The lines of a forest agree where blocks end, whatever closes the block around them. -/
theorem Laid.agree {floor level : Nat} {f : Forest} (h : Laid floor f) {outer : List Row}
    (wellFormed : ∀ r ∈ outer, r.WellFormed) (closed : Closed level floor outer) (agree : Agree outer) :
    Agree (f.rows level ++ outer) := by
  -- In a block, the rest of the block around it stands in front of the lines that close that one.
  induction h generalizing level outer with
  | nil => exact agree
  | line _ _ _ _ ih => exact ⟨(nomatch ·), ih wellFormed closed agree⟩
  | @declaration floor margin heading body rest _ _ deep inside next behind ihInside ihBehind =>
    have tailWellFormed : ∀ r ∈ rest.rows level ++ outer, r.WellFormed :=
      List.forall_mem_append.2 ⟨behind.rows_wellFormed level, wellFormed⟩
    have tailClosed := closed.behind deep next
    have tailAgree := ihBehind wellFormed closed agree
    rw [Forest.rows, List.cons_append, List.append_assoc]
    refine ⟨fun _ => ?_, ihInside tailWellFormed tailClosed tailAgree⟩
    exact blockRows_eq_blockLength
      (List.forall_mem_append.2 ⟨inside.rows_wellFormed (level + 1), tailWellFormed⟩)
      (inside.within (level + 1)) tailClosed

/-! ### Files -/

theorem Leaf.WellFormed.defHeader?_eq_none {leaf : Leaf} (h : leaf.WellFormed) :
    defHeader? (trim leaf.text) = none := by
  cases leaf with
  | blank => rfl
  | other text => exact h.2.2.1
  | «import» module? names inParentheses =>
    rw [(Leaf.tight_import h).trim]
    cases module? <;> exact Python.defHeader?_eq_none rfl (by decide) (by decide)

theorem Leaf.WellFormed.className?_eq_none {leaf : Leaf} (h : leaf.WellFormed) :
    className? (trim leaf.text) = none := by
  cases leaf with
  | blank => rfl
  | other text => exact h.2.2.2.1
  | «import» module? names inParentheses =>
    rw [(Leaf.tight_import h).trim]
    cases module? <;> exact Python.className?_eq_none rfl (by decide)

theorem Heading.importParts?_eq_none (heading : Heading) :
    importParts? (trim heading.text) = none := by
  rw [heading.tight_text.trim]
  cases heading with
  | function isAsync => cases isAsync <;> exact Python.importParts?_eq_none rfl (by decide) (by decide)
  | «class» => exact Python.importParts?_eq_none rfl (by decide) (by decide)

section Row

variable {r : Row} (h : r.WellFormed)

include h

theorem Row.WellFormed.functionAt_read (lines : List Line) (index : Nat) :
    functionAt lines index r.read =
      r.entry.elim (fun _ => none) (Heading.function? (index + 1) (blockEnd lines index)) := by
  rw [functionAt, h.trim_read]
  obtain ⟨level, margin, leaf | heading⟩ := r
  · rw [text, Sum.elim_inl, Leaf.WellFormed.defHeader?_eq_none h.entry]
    rfl
  · have wellFormed : heading.WellFormed := h.entry
    rw [text, Sum.elim_inr, heading.tight_text.trim]
    cases heading with
    | function isAsync name ps result? =>
      rw [defHeader?_function wellFormed, Option.map_some, parametersOf_commaSeparated wellFormed.2.1]
      rfl
    | «class» name bases? =>
      rw [Python.defHeader?_eq_none rfl (by decide) (by decide)]
      rfl

theorem Row.WellFormed.classAt_read (lines : List Line) (index : Nat) :
    classAt lines index r.read =
      r.entry.elim (fun _ => none) (Heading.class? (index + 1) (blockEnd lines index)) := by
  rw [classAt, h.trim_read]
  obtain ⟨level, margin, leaf | heading⟩ := r
  · rw [text, Sum.elim_inl, Leaf.WellFormed.className?_eq_none h.entry]
    rfl
  · have wellFormed : heading.WellFormed := h.entry
    rw [text, Sum.elim_inr, heading.tight_text.trim]
    cases heading with
    | function isAsync name ps result? =>
      have other : className? (Heading.function isAsync name ps result?).text = none := by
        cases isAsync <;> exact Python.className?_eq_none rfl (by decide)
      rw [other]
      rfl
    | «class» name bases? =>
      rw [className?_class wellFormed.1]
      rfl

theorem Row.WellFormed.importOf_read : importOf r.read = r.import? := by
  rw [importOf, h.trim_read]
  obtain ⟨level, margin, leaf | heading⟩ := r
  · have wellFormed : leaf.WellFormed := h.entry
    cases leaf with
    | blank => rfl
    | other text' =>
      rw [text, Sum.elim_inl, Leaf.text, wellFormed.2.2.2.2]
      rfl
    | «import» module? names inParentheses =>
      have read := namesOf_listed wellFormed.2.1 wellFormed.2.2 inParentheses
      rw [text, Sum.elim_inl, (Leaf.tight_import wellFormed).trim, importParts?_import wellFormed,
        Option.map_some]
      dsimp only
      rw [read]
      rfl
  · rw [text, Sum.elim_inr, heading.importParts?_eq_none]
    rfl

end Row

theorem scan_eq_declared {g : Nat → Line → Option α} {f : Nat → Nat → Heading → Option α}
    {lines : List Line}
    (read : ∀ r : Row, r.WellFormed → ∀ index, g index r.read =
      r.entry.elim (fun _ => none) (f (index + 1) (blockEnd lines index)))
    {rows : List Row} (index : Nat) (wellFormed : ∀ r ∈ rows, r.WellFormed) (agree : Agree rows)
    (place : lines.drop index = rows.map Row.read) :
    scan g index (rows.map Row.read) = declared f index rows := by
  -- The rows are those from the index on, so the lines behind one of them are known at its header.
  induction rows generalizing index with
  | nil => rfl
  | cons r behind ih =>
    have isRow : r.WellFormed := wellFormed r (by simp)
    have placeBehind : lines.drop (index + 1) = behind.map Row.read := by
      rw [← List.tail_drop, place, List.map_cons, List.tail_cons]
    have wellFormedBehind : ∀ q ∈ behind, q.WellFormed :=
      fun q hq => wellFormed q (List.mem_cons_of_mem _ hq)
    have others := ih (index + 1) wellFormedBehind agree.2 placeBehind
    rw [List.map_cons, scan, others, read r isRow]
    obtain ⟨level, margin, leaf | heading⟩ := r
    · rfl
    · have line : lines[index]? = some (Row.read ⟨level, margin, .inr heading⟩) := by
        rw [← List.head?_drop, place]
        rfl
      have block := agree.1 rfl
      rw [blockEnd, line, declared, block, ← isRow.indentation_read rfl, ← placeBehind]
      rfl

/-- A rendered file is read back: its outline lists the functions, classes and imports of the forest in
their order, each with its name and parts, the line of its header and the last line of its block. -/
theorem outline_text (fileName : String) {f : Forest} (h : Laid 0 f) :
    outline fileName f.text = f.outline fileName := by
  have wellFormed := h.rows_wellFormed 0
  have agree : Agree (f.rows 0) := by
    have closed : Closed 0 0 [] := by simp [Closed]
    simpa using h.agree (by simp) closed trivial
  have read : Text.lines f.text.toList = (f.rows 0).map Row.read := by
    rw [Forest.text, String.toList_ofList, lines_of_feeds, List.map_map]
    · rfl
    · intro line hline
      obtain ⟨r, hr, rfl⟩ := List.mem_map.1 hline
      exact (wellFormed r hr).inLine
  have functions := scan_eq_declared (fun _ hr => hr.functionAt_read _) 0 wellFormed agree rfl
  have classes := scan_eq_declared (fun _ hr => hr.classAt_read _) 0 wellFormed agree rfl
  have imports : ((f.rows 0).map Row.read).filterMap importOf = (f.rows 0).filterMap Row.import? := by
    rw [List.filterMap_map]
    exact List.filterMap_congr fun r hr => (wellFormed r hr).importOf_read
  rw [outline, read, functions, classes, imports]
  rfl

/-- A file with two imports and a class with two methods, of which one has a default. -/
def shop : Forest :=
  .line [] (.import (some "decimal".toList) ["Decimal".toList, "getcontext".toList] true) <|
  .line [] .blank <|
  .declaration [] (.class "Shop".toList (some "Base, key=1".toList))
    (.declaration "    ".toList
      (.function false "__init__".toList
        [⟨"self".toList, none⟩, ⟨"name: str".toList, some ([' '], " 'x'".toList)⟩] none)
      (.line "        ".toList (.other "self.name = name".toList) .nil) <|
    .line "  ".toList .blank <|
    .declaration "    ".toList (.function true "sell".toList [] (some "Decimal".toList))
      (.line "      ".toList (.other "return 1".toList) .nil) .nil) <|
  .line [] .blank <|
  .line [] (.import none ["os".toList] false) .nil

theorem laid_shop : Laid 0 shop := by
  have header : (Heading.function false "__init__".toList
      [⟨"self".toList, none⟩, ⟨"name: str".toList, some ([' '], " 'x'".toList)⟩] none).WellFormed := by
    refine ⟨by decide, ?_, by simp⟩
    rw [List.forall_mem_cons, List.forall_mem_singleton]
    constructor
    · exact ⟨tight_of_all (by decide) (by decide), by simp, by simp⟩
    · refine ⟨⟨⟨_, _, rfl, by decide⟩, "name: st".toList, 'r', rfl, by decide⟩, by simp, ?_⟩
      rintro gap value ⟨⟩
      exact ⟨by decide, by simp⟩
  refine .line (by decide) ?_ (fun _ => Nat.zero_le _) ?_
  · refine ⟨?_, by decide, by decide⟩
    rintro module ⟨⟩
    have isName : IsName "decimal".toList := by decide
    exact ⟨isName.1, fun c hc => isBlank_of_isWord (isName.2 c hc)⟩
  refine .line (by decide) trivial (fun _ => Nat.zero_le _) ?_
  refine .declaration (by decide) ?_ (Nat.zero_le _) ?_ ?_ ?_
  · refine ⟨by decide, ?_⟩
    rintro bases ⟨⟩
    decide
  · refine .declaration (by decide) header (by decide) ?_ ?_ ?_
    · refine .line (by decide) ?_ (fun _ => by decide) .nil
      exact ⟨⟨_, _, rfl, by decide⟩, by decide, by decide, by decide, by decide⟩
    · rintro m ⟨⟩
      decide
    · refine .line (by decide) trivial (fun h => absurd rfl h) ?_
      refine .declaration (by decide) ?_ (by decide) ?_ (by rintro m ⟨⟩) .nil
      · refine ⟨by decide, by simp, ?_⟩
        rintro result ⟨⟩
        decide
      · refine .line (by decide) ?_ (fun _ => by decide) .nil
        exact ⟨⟨_, _, rfl, by decide⟩, by decide, by decide, by decide, by decide⟩
  · rintro m ⟨⟩
    decide
  · refine .line (by decide) trivial (fun _ => Nat.zero_le _) ?_
    refine .line (by decide) ?_ (fun _ => Nat.zero_le _) .nil
    exact ⟨by simp, by decide, by decide⟩

theorem outline_text_shop : Laid 0 shop ∧
    shop.text = "from decimal import (Decimal, getcontext)\n\nclass Shop(Base, key=1):\n" ++
      "    def __init__(self, name: str = 'x'):\n        self.name = name\n  \n" ++
      "    async def sell() -> Decimal:\n      return 1\n\nimport os\n" ∧
    outline "shop.py" shop.text =
    { fileName := "shop.py", language := .python
      functions := [
        { name := "__init__", startLine := 4, endLine := 6, isAsync := false, isExported := true
          parameters := [⟨"self", none⟩, ⟨"name: str", none⟩] },
        { name := "sell", startLine := 7, endLine := 9, isAsync := true, isExported := true
          parameters := [] }]
      classes := [
        { name := "Shop", startLine := 3, endLine := 9, methods := [], properties := []
          isExported := true }]
      imports := [
        { source := "decimal", importedNames := ["Decimal", "getcontext"] },
        { source := "builtin", importedNames := ["os"] }]
      exports := ["__init__", "sell", "Shop"] } :=
  ⟨laid_shop, by decide +kernel, outline_text "shop.py" laid_shop⟩

end RepoDocs.Outline.Python
