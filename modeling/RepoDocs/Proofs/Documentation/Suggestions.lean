import Mathlib.Data.List.Forall2
import RepoDocs.Documentation.Artifact
import RepoDocs.Proofs.Json.Decoding

/-! Comment suggestions and quality reports as JSON: what is read of the texts of a list of suggestions,
and of the text of a report. -/

namespace RepoDocs

open Json

theorem CommentCategory.decodes_name (c : CommentCategory) :
    Decodes decoder (.string c.name) c := by
  cases c <;> exact decodes_oneOf rfl

namespace CommentSuggestion

/-- The fields of a suggestion, the one of its category under a key. -/
def fields (s : CommentSuggestion) (key : String) : List (String × Value) :=
  ("line", .ofNat s.line) :: ("comment", .string s.comment) ::
    (key, .string s.category.name) :: Value.optionalField "file" .string s.file?

/-- An object spells a suggestion with the fields of it in any order, the category also as its type. -/
inductive Spells : Value → CommentSuggestion → Prop
  | object {s : CommentSuggestion} {key : String} {fields : List (String × Value)}
      (category : key = "category" ∨ key = "type") (order : fields.Perm (s.fields key)) :
      Spells (.object fields) s

theorem spells_toJson (s : CommentSuggestion) : Spells s.toJson s :=
  .object (.inl rfl) (.refl _)

section Spelled

variable {s : CommentSuggestion} {key : String} {fields : List (String × Value)}

theorem flat_fields (s : CommentSuggestion) (key : String) :
    ∀ field ∈ s.fields key, field.2.height ≤ 0 := by
  intro field h
  simp only [CommentSuggestion.fields, List.mem_cons] at h
  rcases h with rfl | rfl | rfl | h
  · exact Nat.le_refl 0
  · exact Nat.le_refl 0
  · exact Nat.le_refl 0
  · cases file : s.file? <;> simp_all [Value.optionalField, Value.height]

theorem readable_fields (small : s.line ≤ maxWord) (key : String) :
    ∀ field ∈ s.fields key, field.2.Readable := by
  intro field h
  simp only [CommentSuggestion.fields, List.mem_cons] at h
  rcases h with rfl | rfl | rfl | h
  · exact readable_whole ⟨by omega, by omega⟩
  · exact trivial
  · exact trivial
  · cases file : s.file? <;> simp_all [Value.optionalField, Value.Readable]

theorem distinct_fields (category : key = "category" ∨ key = "type") :
    ((s.fields key).map Prod.fst).Nodup := by
  rcases category with rfl | rfl <;> cases h : s.file? <;>
    simp [CommentSuggestion.fields, Value.optionalField, h]

/-- Each name of a field of the record is that of one field of a suggestion. -/
theorem filter_fields (s : CommentSuggestion) (category : key = "category" ∨ key = "type") :
    (s.fields key).filter (fun field => Fields.Named "line" [] field.1) =
        [("line", .ofNat s.line)] ∧
      (s.fields key).filter (fun field => Fields.Named "comment" [] field.1) =
        [("comment", .string s.comment)] ∧
      (s.fields key).filter (fun field => Fields.Named "category" ["type"] field.1) =
        [(key, .string s.category.name)] ∧
      (s.fields key).filter (fun field => Fields.Named "file" [] field.1) =
        Value.optionalField "file" .string s.file? := by
  rcases category with rfl | rfl <;> cases file : s.file? <;>
    simp [CommentSuggestion.fields, Fields.Named, Value.optionalField, file]

/-- A suggestion is taken out of its fields, in whatever order they are. -/
theorem decodes_fields (small : s.line ≤ maxWord) (category : key = "category" ∨ key = "type")
    (order : fields.Perm (s.fields key)) : Decodes decoder (.object fields) s := by
  obtain ⟨line, comment, named, file⟩ := filter_fields s category
  have only {p : String × Value → Bool} {field : String × Value}
      (one : (s.fields key).filter p = [field]) : fields.filter p = [field] :=
    List.perm_singleton.1 (one ▸ order.filter p)
  have line : (Fields.field "line" .size).Takes ["line"] fields s.line :=
    Fields.takes_field (only line) (decodes_size small)
  have comment : (Fields.field "comment" .string).Takes ["comment"] fields s.comment :=
    Fields.takes_field (only comment) (decodes_string _)
  have named : (Fields.field "category" CommentCategory.decoder .required ["type"]).Takes
      ["category", "type"] fields s.category :=
    Fields.takes_field (only named) s.category.decodes_name
  have file : (Fields.field "file" (.option .string) (.default none)).Takes ["file"] fields
      s.file? := by
    cases known : s.file? with
    | none =>
      have missing := order.filter fun field => Fields.Named "file" [] field.1
      rw [file, known] at missing
      exact Fields.takes_field_default (List.perm_nil.1 missing)
    | some path =>
      rw [known] at file
      exact Fields.takes_field (only file) ((decodes_string path).option nofun)
  have all := line.both (comment.both (named.both file (by decide)) (by decide)) (by decide)
  exact (all.map _).record

end Spelled

/-! ### Lists -/

variable {v : Value} {vs : List Value} {s : CommentSuggestion} {suggestions : List CommentSuggestion}

theorem Spells.readable (h : Spells v s) (small : s.line ≤ maxWord) : v.Readable := by
  obtain ⟨-, order⟩ := h
  exact Value.readableFields_iff.2 fun field hf =>
    readable_fields small _ field (order.subset hf)

theorem Spells.height_le (h : Spells v s) : v.height ≤ 1 := by
  obtain ⟨-, order⟩ := h
  exact Nat.succ_le_succ (Value.heightFields_le_iff.2 fun field hf =>
    flat_fields s _ field (order.subset hf))

/-- A suggestion is taken out of an object that spells it, also when the fields have been sorted. -/
theorem Spells.decodes_sorted (h : Spells v s) (small : s.line ≤ maxWord) :
    Decodes decoder v.sorted s := by
  obtain @⟨_, key, fields, category, order⟩ := h
  have flat : Value.sortedFields fields = fields := by
    rw [Value.sortedFields_eq]
    refine (List.map_congr_left fun field hf => ?_).trans (List.map_id fields)
    exact Prod.ext rfl (Value.sorted_of_flat (flat_fields s key field (order.subset hf)))
  have distinct : (fields.map Prod.fst).Nodup :=
    (order.map Prod.fst).nodup_iff.2 (distinct_fields category)
  rw [Value.sorted, flat]
  exact decodes_fields small category ((Value.sortFields_perm distinct).trans order)

theorem decodes_sorted_list (spelled : vs.Forall₂ Spells suggestions)
    (small : ∀ s ∈ suggestions, s.line ≤ maxWord) :
    Decodes (.list decoder) (Value.array vs).sorted suggestions := by
  rw [Value.sorted, Value.sortedItems_eq]
  refine decodes_list (List.forall₂_map_left_iff.2 ?_)
  induction spelled with
  | nil => exact .nil
  | cons first _ ih =>
    obtain ⟨small, smalls⟩ := List.forall_mem_cons.1 small
    exact .cons (first.decodes_sorted small) (ih smalls)

theorem readable_list (spelled : vs.Forall₂ Spells suggestions)
    (small : ∀ s ∈ suggestions, s.line ≤ maxWord) : (Value.array vs).Readable := by
  refine Value.readableItems_iff.2 ?_
  induction spelled with
  | nil => exact List.forall_mem_nil _
  | cons first _ ih =>
    obtain ⟨small, smalls⟩ := List.forall_mem_cons.1 small
    exact List.forall_mem_cons.2 ⟨first.readable small, ih smalls⟩

theorem height_list_le (spelled : vs.Forall₂ Spells suggestions) : (Value.array vs).height ≤ 2 := by
  refine Nat.succ_le_succ (Value.heightItems_le_iff.2 ?_)
  induction spelled with
  | nil => exact List.forall_mem_nil _
  | cons first _ ih => exact List.forall_mem_cons.2 ⟨first.height_le, ih⟩

/-- A list of suggestions is read from every text of it. -/
theorem parseList_array (spelled : vs.Forall₂ Spells suggestions)
    (small : ∀ s ∈ suggestions, s.line ≤ maxWord) {text : String}
    (written : Writes (.array vs) text.toList) : parseList text = .ok suggestions := by
  have low := height_list_le spelled
  have read := written.parse (readable_list spelled small) (by omega)
  rw [parseList, read]
  exact (decodes_sorted_list spelled small).value

/-- It is read from every text of an object that holds it as its suggestions, too. -/
theorem parseList_object (spelled : vs.Forall₂ Spells suggestions)
    (small : ∀ s ∈ suggestions, s.line ≤ maxWord) {text : String}
    (written : Writes (.object [("suggestions", .array vs)]) text.toList) :
    parseList text = .ok suggestions := by
  have low : (Value.object [("suggestions", .array vs)]).height ≤ 127 := by
    have := height_list_le spelled
    simp only [Value.height, Value.heightFields] at this ⊢
    omega
  have read := written.parse ⟨readable_list spelled small, trivial⟩ low
  rw [parseList, read]
  exact (decodes_sorted_list spelled small).value

theorem spells_toJson_list (suggestions : List CommentSuggestion) :
    (suggestions.map toJson).Forall₂ Spells suggestions :=
  List.forall₂_map_left_iff.2 (List.forall₂_same.2 fun s _ => spells_toJson s)

end CommentSuggestion

/-! ### Quality reports -/

theorem QualityIssue.readable {i : QualityIssue} (small : ∀ n ∈ i.line?, n ≤ maxWord) :
    i.toJson.Readable := by
  have line : (Value.ofOption .ofNat i.line?).Readable := by
    cases known : i.line? with
    | none => trivial
    | some n =>
      have := small n known
      exact readable_whole ⟨by omega, by omega⟩
  exact ⟨trivial, line, trivial, trivial, trivial⟩

theorem QualityIssue.height_le (i : QualityIssue) : i.toJson.height ≤ 1 := by
  have line : (Value.ofOption .ofNat i.line?).height ≤ 0 := by cases i.line? <;> exact Nat.le_refl 0
  simpa [QualityIssue.toJson, Value.height, Value.heightFields] using line

namespace QualityReport

/-- All numbers of a report are read as they are printed. -/
structure Legible (r : QualityReport) : Prop where
  score : Json.parse (Value.ofFloat r.score).compact = .ok (Value.ofFloat r.score)
  lines : ∀ issue ∈ r.issues, ∀ n ∈ issue.line?, n ≤ maxWord

theorem readable_ofFloat {x : Float}
    (h : Json.parse (Value.ofFloat x).compact = .ok (Value.ofFloat x)) :
    (Value.ofFloat x).Readable := by
  unfold Value.ofFloat at h ⊢
  split at h
  · rename_i missing
    rw [if_pos missing]
    trivial
  · rename_i finite
    rw [if_neg finite]
    rw [Value.compact, Value.compactChars, String.ofList_toList] at h
    exact h

theorem Legible.readable {r : QualityReport} (h : r.Legible) : r.toJson.Readable := by
  rw [toJson, Value.ofStrings]
  simp only [Value.Readable, Value.ReadableFields]
  refine ⟨readable_ofFloat h.score, ?_, ?_, trivial⟩
  · refine Value.readableItems_iff.2 (List.forall_mem_map.2 fun i hi => ?_)
    exact QualityIssue.readable (h.lines i hi)
  · exact Value.readableItems_iff.2 (List.forall_mem_map.2 fun _ _ => trivial)

theorem height_le (r : QualityReport) : r.toJson.height ≤ 3 := by
  have score : (Value.ofFloat r.score).height ≤ 0 := by
    unfold Value.ofFloat
    split <;> exact Nat.le_refl 0
  have issues : Value.heightItems (r.issues.map QualityIssue.toJson) ≤ 1 :=
    Value.heightItems_le_iff.2 (List.forall_mem_map.2 fun i _ => i.height_le)
  have suggestions : Value.heightItems (r.suggestions.map .string) ≤ 0 :=
    Value.heightItems_le_iff.2 (List.forall_mem_map.2 fun _ _ => Nat.le_refl 0)
  simp only [toJson, Value.ofStrings, Value.height, Value.heightFields]
  omega

theorem Legible.parse_pretty {r : QualityReport} (h : r.Legible) :
    Json.parse r.toJson.pretty = .ok r.toJson.sorted := by
  have low := height_le r
  exact (writes_pretty r.toJson).parse h.readable (by omega)

end QualityReport

end RepoDocs
