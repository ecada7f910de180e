import RepoDocs.Proofs.Documentation.Suggestions
import RepoDocs.Proofs.Json.Coding
import RepoDocs.Proofs.Tree.Preorder

/-! The JSON texts of file trees and of what is sent to and comes back from the writer of documentation.
All of it is read back as it was: what is missing is left out of the text, or is `null` there, and so it
is never taken for a list of nothing. -/

namespace RepoDocs

open Json

/-! ### File trees -/

theorem FileKind.conveys_name (k : FileKind) (n : Nat) : Conveys decoder (.string k.name) n k :=
  conveys_oneOf (by cases k <;> rfl) n

namespace FileNode

/-- The size of each node fits into 64 bits. -/
def Sized (n : FileNode) : Prop := ∀ m ∈ preorder n, ∀ size ∈ m.size?, size ≤ maxWord

theorem Sized.child {n c : FileNode} (h : n.Sized) (hc : c ∈ n.children) : c.Sized :=
  fun m hm => h m (mem_preorder.2 (.inr ⟨c, hc, hm⟩))

theorem listToJson_eq_map (forest : List FileNode) : listToJson forest = forest.map toJson := by
  induction forest with
  | nil => rfl
  | cons n rest ih => rw [listToJson, ih, List.map_cons]

theorem toJson_eq (n : FileNode) : n.toJson = .object (("name", .string n.name) ::
    ("path", .string n.path) :: ("kind", .string n.kind.name) ::
    (Value.optionalField "children" (fun cs => .array (cs.map toJson)) n.children? ++
      Value.optionalField "size" .ofNat n.size?)) := by
  obtain ⟨name, path, kind, children?, size?⟩ := n
  cases children? with
  | none => rfl
  | some cs =>
    rw [toJson, listToJson_eq_map]
    rfl

/-- Around the texts of the nodes right below a node there are two more brackets. -/
theorem heightItems_children {n : FileNode} {cs : List FileNode} (h : n.children? = some cs) :
    Value.heightItems (cs.map toJson) + 2 ≤ n.toJson.height := by
  rw [toJson_eq, h]
  simp only [Value.optionalField, List.cons_append, Value.height, Value.heightFields]
  omega

theorem ofNat_ne_null (n : Nat) : Value.ofNat n ≠ .null := nofun

theorem array_ne_null (items : List Value) : Value.array items ≠ .null := nofun

/-- A node is read where as many levels of nodes may stand below it as brackets are open in its texts. -/
theorem Sized.conveys_toJson {n : FileNode} (sized : n.Sized) {bound levels : Nat}
    (low : n.toJson.height ≤ bound) (enough : bound ≤ levels) :
    Conveys (decoderTo levels) n.toJson bound n := by
  induction n using induction generalizing bound levels with
  | step n ih =>
    have brackets : 1 ≤ n.toJson.height := by
      rw [toJson_eq]
      exact Nat.le_add_left ..
    obtain ⟨bound, rfl⟩ := Nat.exists_eq_add_of_le' (Nat.le_trans brackets low)
    obtain ⟨levels, rfl⟩ := Nat.exists_eq_add_of_le' (Nat.le_trans (Nat.le_add_left 1 bound) enough)
    have size : ∀ k ∈ n.size?, Conveys .word (.ofNat k) bound k ∧ Value.ofNat k ≠ .null :=
      fun k hk => ⟨conveys_word (sized n (self_mem_preorder n) k hk) bound, ofNat_ne_null k⟩
    have children : ∀ cs ∈ n.children?, Conveys (.list (decoderTo levels))
        (.array (cs.map toJson)) bound cs ∧ Value.array (cs.map toJson) ≠ .null := by
      intro cs hcs
      have inner := heightItems_children hcs
      have each : ∀ c ∈ cs, Conveys (decoderTo levels) c.toJson (bound - 1) c := by
        intro c hc
        have child : c ∈ n.children := by rwa [FileNode.children, hcs]
        refine ih c child (sized.child child) ?_ (by omega)
        exact Value.heightItems_le_iff.1 (by omega) _ (List.mem_map_of_mem hc)
      exact ⟨(conveys_items each).mono (by omega), array_ne_null _⟩
    rw [toJson_eq]
    obtain ⟨name, path, kind, children?, size?⟩ := n
    exact (Fields.conveys_last_optional "size" size
      |>.optional "children" children (by decide)
      |>.cons "kind" (kind.conveys_name bound) (by decide)
      |>.cons "path" (conveys_string path bound) (by decide)
      |>.cons "name" (conveys_string name bound) (by decide)).record _

end FileNode

/-! ### Documentation -/

theorem conveys_optional_string {s? : Option String} (n : Nat) :
    ∀ s ∈ s?, Conveys .string (.string s) n s ∧ Value.string s ≠ .null :=
  fun s _ => ⟨conveys_string s n, nofun⟩

theorem SourceFile.conveys_toJson (f : SourceFile) : Conveys decoder f.toJson 1 f :=
  (Fields.conveys_last "content" (conveys_string f.content 0)
    |>.cons "name" (conveys_string f.name 0) (by decide)).record _

theorem ReadmeArtifact.conveys_toJson (r : ReadmeArtifact) : Conveys decoder r.toJson 1 r :=
  (Fields.conveys_last_optional "bannerAssetPath" (conveys_optional_string 0)
    |>.cons "content" (conveys_string r.content 0) (by decide)).record _

theorem ApiFunction.conveys_toJson (f : ApiFunction) : Conveys decoder f.toJson 2 f :=
  (Fields.conveys_last_optional "description" (conveys_optional_string 1)
    |>.optional "returnType" (conveys_optional_string 1) (by decide)
    |>.cons "parameters" (conveys_strings f.parameters 0) (by decide)
    |>.cons "name" (conveys_string f.name 1) (by decide)).record _

theorem IssueKind.conveys_name (k : IssueKind) (n : Nat) : Conveys decoder (.string k.name) n k :=
  conveys_oneOf (by cases k <;> rfl) n

theorem QualityIssue.conveys_toJson {i : QualityIssue} (small : ∀ n ∈ i.line?, n ≤ maxWord) :
    Conveys decoder i.toJson 1 i := by
  have line : Conveys (.option .size) (.ofOption .ofNat i.line?) 0 i.line? := by
    cases known : i.line? with
    | none => exact conveys_null _ 0
    | some n => exact (conveys_size (small n known) 0).option nofun
  exact (Fields.conveys_last "message" (conveys_string i.message 0)
    |>.cons "type" (i.kind.conveys_name 0) (by decide)
    |>.cons "line" line (by decide)
    |>.cons "file" (conveys_string i.file 0) (by decide)).record _

theorem CommentSuggestion.conveys_toJson {s : CommentSuggestion} (small : s.line ≤ maxWord) :
    Conveys decoder s.toJson 1 s :=
  ⟨decodes_fields small (.inl rfl) (.refl _), (spells_toJson s).readable small,
    (spells_toJson s).height_le⟩

/-! ### Texts -/

/-- What is decoded of the text of a value is the value.  An optional field is there just when there is
something in it, be it an empty list; only the line of an issue is written as `null` where it has none. -/
theorem texts_read_back :
    (∀ n : FileNode, n.Sized → n.toJson.height ≤ 127 →
      decodeText FileNode.decoder n.toJson.compact = .ok n ∧
      n.toJson.field? "children" = n.children?.map (fun cs => .array (cs.map FileNode.toJson)) ∧
      n.toJson.field? "size" = n.size?.map .ofNat) ∧
    (∀ f : ApiFunction, decodeText ApiFunction.decoder f.toJson.compact = .ok f ∧
      f.toJson.field? "returnType" = f.returnType?.map .string ∧
      f.toJson.field? "description" = f.description?.map .string) ∧
    (∀ r : ReadmeArtifact, decodeText ReadmeArtifact.decoder r.toJson.compact = .ok r ∧
      r.toJson.field? "bannerAssetPath" = r.bannerAssetPath?.map .string) ∧
    (∀ f : SourceFile, decodeText SourceFile.decoder f.toJson.compact = .ok f) ∧
    (∀ i : QualityIssue, (∀ n ∈ i.line?, n ≤ maxWord) →
      decodeText QualityIssue.decoder i.toJson.compact = .ok i ∧
      i.toJson.field? "line" = some (.ofOption .ofNat i.line?)) ∧
    ∀ s : CommentSuggestion, s.line ≤ maxWord →
      decodeText CommentSuggestion.decoder s.toJson.compact = .ok s ∧
      s.toJson.field? "file" = s.file?.map .string := by
  refine ⟨fun n sized low => ⟨?_, ?_, ?_⟩, fun f => ⟨?_, ?_, ?_⟩, fun r => ⟨?_, ?_⟩, fun f => ?_,
    fun i small => ⟨?_, rfl⟩, fun s small => ⟨?_, ?_⟩⟩
  · exact (sized.conveys_toJson low (by decide)).text (by decide) (writes_compact _)
  · rw [FileNode.toJson_eq]
    cases n.children? <;> cases n.size? <;> rfl
  · rw [FileNode.toJson_eq]
    cases n.children? <;> cases n.size? <;> rfl
  · exact f.conveys_toJson.text (by decide) (writes_compact _)
  · rw [ApiFunction.toJson]
    cases f.returnType? <;> cases f.description? <;> rfl
  · rw [ApiFunction.toJson]
    cases f.returnType? <;> cases f.description? <;> rfl
  · exact r.conveys_toJson.text (by decide) (writes_compact _)
  · rw [ReadmeArtifact.toJson]
    cases r.bannerAssetPath? <;> rfl
  · exact f.conveys_toJson.text (by decide) (writes_compact _)
  · exact (QualityIssue.conveys_toJson small).text (by decide) (writes_compact _)
  · exact (CommentSuggestion.conveys_toJson small).text (by decide) (writes_compact _)
  · rw [CommentSuggestion.toJson]
    cases s.file? <;> rfl

/-- A directory of one directory that is empty and of one whose children are not known. -/
def emptyOrUnknown : FileNode :=
  .directory "säule \"1\"\n" [.directory "empty" [],
    { name := "unknown", path := "unknown", kind := .directory, size? := some maxWord }]

theorem texts_read_back_emptyOrUnknown :
    decodeText FileNode.decoder emptyOrUnknown.toJson.compact = .ok emptyOrUnknown ∧
      decodeText QualityIssue.decoder (QualityIssue.toJson ⟨"a.py", none, .error, "\u0007"⟩).compact =
        .ok ⟨"a.py", none, .error, "\u0007"⟩ ∧
      decodeText CommentSuggestion.decoder
          (CommentSuggestion.toJson { line := 3, comment := "why?", category := .warning }).compact =
        .ok { line := 3, comment := "why?", category := .warning } := by
  obtain ⟨nodes, -, -, -, issues, suggestions⟩ := texts_read_back
  have sized : emptyOrUnknown.Sized := by
    unfold FileNode.Sized
    decide
  exact ⟨(nodes _ sized (by decide)).1, (issues _ (by simp)).1, (suggestions _ (by decide)).1⟩

end RepoDocs
