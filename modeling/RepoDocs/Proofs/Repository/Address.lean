import Mathlib.Data.List.DropRight
import RepoDocs.Repository.Coordinates

/-! Addresses of repositories.  What stands for a repository is its address without the blanks at either
end: these go off at once, and the coordinates are read off what remains. -/

namespace RepoDocs

namespace Text

theorem trimStart_eq_nil_or (s : List Char) :
    trimStart s = [] ∨ ∃ c rest, trimStart s = c :: rest ∧ isBlank c = false := by
  cases h : trimStart s with
  | nil => exact .inl rfl
  | cons c rest =>
    refine .inr ⟨c, rest, rfl, ?_⟩
    have head := List.head?_dropWhile_not isBlank s
    rw [show s.dropWhile isBlank = c :: rest from h] at head
    simpa using head

/-- What remains when the blanks are taken off the ends does not begin with a blank. -/
theorem trimStart_trim (s : List Char) : trimStart (trim s) = trim s := by
  rcases trimStart_eq_nil_or s with h | ⟨c, rest, h, hc⟩
  · rw [trim, h]
    rfl
  · obtain ⟨ending, hending⟩ := List.rdropWhile_prefix isBlank (l := c :: rest)
    rw [trim, h]
    change trimStart ((c :: rest).rdropWhile isBlank) = (c :: rest).rdropWhile isBlank
    cases hs : (c :: rest).rdropWhile isBlank with
    | nil => rfl
    | cons c' rest' =>
      rw [hs] at hending
      obtain ⟨rfl, -⟩ := List.cons.inj hending
      exact List.dropWhile_cons_of_neg (by simp [hc])

theorem trim_trim (s : List Char) : trim (trim s) = trim s := by
  have once : trim (trim s) = (trim s).rdropWhile isBlank :=
    congrArg (List.rdropWhile isBlank) (trimStart_trim s)
  rw [once]
  exact List.rdropWhile_idempotent isBlank (trimStart s)

@[simp] theorem trimmed_trimmed (s : String) : trimmed (trimmed s) = trimmed s := by
  simp only [trimmed, String.toList_ofList, trim_trim]

theorem trim_eq_of_trimmed {s s' : String} (h : trimmed s = trimmed s') :
    trim s.toList = trim s'.toList := by
  simpa [trimmed] using congrArg String.toList h

end Text

/-- The coordinates depend on the address without its outer blanks alone. -/
theorem Coordinates.parse_congr {address address' : String}
    (h : Text.trimmed address = Text.trimmed address') :
    Coordinates.parse address = Coordinates.parse address' := by
  unfold parse
  rw [Text.trim_eq_of_trimmed h]

end RepoDocs
