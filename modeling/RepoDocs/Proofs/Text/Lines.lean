import RepoDocs.Text.Split

/-! Lines of texts that are put together.  A line feed ends a line whatever stands behind it, so the
lines of a text that ends with one remain as they are when another text follows. -/

namespace RepoDocs.Text

theorem splitAtEach_ne_nil (p : Char → Bool) (s : List Char) : splitAtEach p s ≠ [] := by
  cases s with
  | nil => exact List.cons_ne_nil _ _
  | cons c r =>
    rw [splitAtEach]
    split
    · exact List.cons_ne_nil _ _
    · split <;> exact List.cons_ne_nil _ _

/-- The pieces on both sides of a character at which the text is cut. -/
theorem splitAtEach_append_cons {p : Char → Bool} {c : Char} (hc : p c = true) (a b : List Char) :
    splitAtEach p (a ++ c :: b) = splitAtEach p a ++ splitAtEach p b := by
  induction a with
  | nil => simp [splitAtEach, hc]
  | cons d r ih =>
    rw [List.cons_append, splitAtEach, splitAtEach]
    split
    · rw [ih, List.cons_append]
    · rw [ih]
      cases h : splitAtEach p r with
      | nil => exact absurd h (splitAtEach_ne_nil p r)
      | cons piece pieces => rfl

/-- A text that is not cut anywhere is one piece. -/
theorem splitAtEach_of_forall_not {p : Char → Bool} {s : List Char} (h : ∀ c ∈ s, p c = false) :
    splitAtEach p s = [s] := by
  induction s with
  | nil => rfl
  | cons c r ih =>
    rw [splitAtEach, h c List.mem_cons_self, ih fun d hd => h d (List.mem_cons_of_mem c hd)]
    rfl

/-- There is one piece more than there are characters at which the text is cut. -/
theorem length_splitAtEach (p : Char → Bool) (s : List Char) :
    (splitAtEach p s).length = s.countP p + 1 := by
  induction s with
  | nil => rfl
  | cons c r ih =>
    rw [splitAtEach, List.countP_cons]
    split
    · rw [List.length_cons, ih]
    · rw [← ih]
      cases h : splitAtEach p r with
      | nil => exact absurd h (splitAtEach_ne_nil p r)
      | cons piece pieces => rfl

theorem length_linesOfPieces_le (pieces : List (List Char)) :
    (linesOfPieces pieces).length ≤ pieces.length := by
  induction pieces with
  | nil => exact Nat.le_refl 0
  | cons piece rest ih =>
    cases rest with
    | nil =>
      rw [linesOfPieces]
      split <;> simp
    | cons next others => exact Nat.succ_le_succ ih

/-- A text has at most one line more than it has line feeds. -/
theorem length_lines_le (s : List Char) : (lines s).length ≤ s.count '\n' + 1 := by
  have pieces := length_linesOfPieces_le (splitAtEach (· == '\n') s)
  rwa [length_splitAtEach] at pieces

/-- Each piece in front of others was ended by a line feed. -/
theorem linesOfPieces_append {pieces : List (List Char)} (h : pieces ≠ []) (ended : List (List Char)) :
    linesOfPieces (ended ++ pieces) = ended.map dropReturn ++ linesOfPieces pieces := by
  induction ended with
  | nil => rfl
  | cons piece rest ih =>
    have more : rest ++ pieces ≠ [] := by simp [h]
    obtain ⟨next, others, hnext⟩ := List.exists_cons_of_ne_nil more
    rw [List.cons_append, hnext, linesOfPieces, ← hnext, ih]
    · rfl
    · simp

theorem lines_append_feed (a b : List Char) :
    lines (a ++ '\n' :: b) = (splitAtEach (· == '\n') a).map dropReturn ++ lines b := by
  rw [lines, splitAtEach_append_cons (by rfl), linesOfPieces_append (splitAtEach_ne_nil _ b)]
  rfl

/-- The lines of a text that is empty or ends with a line feed are followed by those of the next. -/
theorem lines_append {a : List Char} (h : a = [] ∨ a.getLast? = some '\n') (b : List Char) :
    lines (a ++ b) = lines a ++ lines b := by
  rcases h with rfl | h
  · rfl
  · obtain ⟨front, rfl⟩ := List.getLast?_eq_some_iff.1 h
    have whole : front ++ ['\n'] ++ b = front ++ '\n' :: b := by simp
    rw [whole, lines_append_feed, lines_append_feed]
    simp [lines, splitAtEach, linesOfPieces]

end RepoDocs.Text
