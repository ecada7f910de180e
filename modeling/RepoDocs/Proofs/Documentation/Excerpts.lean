import RepoDocs.Documentation.Prompt

/-! Excerpts, and what the prompt for a quality report shows of files.  A text is cut at a place among its
bytes, and dots are put behind it when it has lost bytes; the main statement counts characters instead.
The two agree because places lie between characters and each character has at least one byte. -/

namespace RepoDocs.Prompt

variable {limit : Nat} {text s : String}

/-! ### Places in a text -/

/-- The places from `p` on where characters begin, by the number of characters from `p`. -/
theorem getElem?_positionsFrom (p : text.Pos) (n : Nat) :
    (String.Model.positionsFrom p)[n]? =
      if h : p.nextn n = text.endPos then none else some ⟨p.nextn n, h⟩ := by
  induction n generalizing p with
  | zero =>
    by_cases atEnd : p = text.endPos
    · simp [atEnd]
    · simp [String.Model.positionsFrom_eq_cons atEnd, atEnd]
  | succ n ih =>
    by_cases atEnd : p = text.endPos
    · simp [atEnd]
    · rw [String.Model.positionsFrom_eq_cons atEnd, List.getElem?_cons_succ, ih]
      simp [String.Pos.nextn_add_one, atEnd]

theorem atIdxSlow?_positions (text : String) (n : Nat) :
    text.positions.atIdxSlow? n =
      if h : text.startPos.nextn n = text.endPos then none else some ⟨text.startPos.nextn n, h⟩ := by
  rw [← Std.Iter.getElem?_toList_eq_atIdxSlow?, String.toList_positions, getElem?_positionsFrom]

/-- With or without a next character, the excerpt ends at the place that `limit` characters lead to. -/
theorem excerpt_eq_copy (limit : Nat) (text : String) :
    excerpt limit text = (text.sliceTo (text.startPos.nextn limit)).copy := by
  rw [excerpt, atIdxSlow?_positions]
  by_cases atEnd : text.startPos.nextn limit = text.endPos <;> simp [atEnd]

/-- The text is cut between the excerpt and the characters that are beyond the limit. -/
theorem splits_excerpt (limit : Nat) (text : String) :
    (text.startPos.nextn limit).Splits (excerpt limit text)
      (String.ofList (text.toList.drop limit)) := by
  have cut := text.splits_nextn_startPos limit
  rwa [← cut.copy_sliceTo_eq, ← excerpt_eq_copy] at cut

/-! ### Characters and bytes of an excerpt -/

theorem excerpt_eq_ofList (limit : Nat) (text : String) :
    excerpt limit text = String.ofList (text.toList.take limit) :=
  (splits_excerpt limit text).eq_left (text.splits_nextn_startPos limit)

example : excerpt 2 "é😀x" = "é😀" := by
  rw [excerpt_eq_ofList]
  decide

@[simp] theorem toList_excerpt (limit : Nat) (text : String) :
    (excerpt limit text).toList = text.toList.take limit := by
  rw [excerpt_eq_ofList, String.toList_ofList]

@[simp] theorem length_excerpt (limit : Nat) (text : String) :
    (excerpt limit text).length = min limit text.length := by
  rw [← String.length_toList, toList_excerpt, List.length_take, String.length_toList]

/-- An excerpt lacks bytes of its text just when it lacks characters. -/
theorem utf8ByteSize_excerpt_lt_iff :
    (excerpt limit text).utf8ByteSize < text.utf8ByteSize ↔ limit < text.length := by
  have sizes := congrArg String.utf8ByteSize (splits_excerpt limit text).eq_append
  have nothing : (String.ofList (text.toList.drop limit)).utf8ByteSize = 0 ↔ text.length ≤ limit := by
    simp [← String.length_toList]
  rw [String.utf8ByteSize_append] at sizes
  omega

/-- An excerpt of an excerpt is the one with the lesser limit. -/
theorem excerpt_excerpt (limit more : Nat) (text : String) :
    excerpt more (excerpt limit text) = excerpt (min limit more) text := by
  rw [excerpt_eq_ofList, toList_excerpt, List.take_take, Nat.min_comm, ← excerpt_eq_ofList]

/-! ### Excerpts told from other texts -/

/-- What stands at the beginning of `text`, up to a place between its characters, and has as many of them
as `limit` allows. -/
structure IsExcerpt (limit : Nat) (text s : String) : Prop where
  boundary : ∃ (p : text.Pos) (rest : String), p.Splits s rest
  length : s.length = min limit text.length

theorem isExcerpt_excerpt (limit : Nat) (text : String) :
    IsExcerpt limit text (excerpt limit text) :=
  ⟨⟨_, _, splits_excerpt limit text⟩, length_excerpt limit text⟩

theorem IsExcerpt.eq (h : IsExcerpt limit text s) : s = excerpt limit text := by
  obtain ⟨p, rest, cut⟩ := h.boundary
  have whole : s.toList ++ rest.toList = text.toList := by
    rw [← String.toList_append, ← cut.eq_append]
  have characters : s.toList = text.toList.take limit := by
    rw [List.prefix_iff_eq_take.1 ⟨rest.toList, whole⟩, String.length_toList, h.length,
      ← String.length_toList, ← List.take_eq_take_min]
  rw [excerpt_eq_ofList, ← characters, String.ofList_toList]

theorem isExcerpt_iff : IsExcerpt limit text s ↔ s = excerpt limit text :=
  ⟨IsExcerpt.eq, fun h => h ▸ isExcerpt_excerpt limit text⟩

/-! ### Files in a prompt -/

theorem qualityEntry_eq (f : SourceFile) :
    qualityEntry f =
      let shown := String.ofList (f.content.toList.take (min 2000 f.content.length))
      let dots := if 2000 < f.content.length then "..." else ""
      s!"File: {f.name}\n```\n{shown}{dots}\n```\n" := by
  simp only [qualityEntry, utf8ByteSize_excerpt_lt_iff]
  rw [excerpt_eq_ofList, List.take_eq_take_min, String.length_toList]
  rfl

/-- The prompt for a quality report shows as many of the first characters of each file as a limit of 2000
allows, and dots behind them just when the file has more.  The excerpt of a text is the one text that
stands at its beginning, ends at a place between its characters and has as many of them as the limit
allows; cut again, it is the excerpt with the lesser limit. -/
theorem quality_counts_characters :
    (∀ files : List SourceFile, quality files =
      "Analyze these code files for quality:\n" ++ "\n".intercalate (files.map fun f =>
        let shown := String.ofList (f.content.toList.take (min 2000 f.content.length))
        let dots := if 2000 < f.content.length then "..." else ""
        s!"File: {f.name}\n```\n{shown}{dots}\n```\n")) ∧
    (∀ (limit : Nat) (text s : String), s = excerpt limit text ↔ IsExcerpt limit text s) ∧
    ∀ (limit more : Nat) (text : String),
      excerpt more (excerpt limit text) = excerpt (min limit more) text := by
  refine ⟨fun files => ?_, fun _ _ _ => isExcerpt_iff.symm, excerpt_excerpt⟩
  unfold quality
  rw [funext qualityEntry_eq]

end RepoDocs.Prompt
