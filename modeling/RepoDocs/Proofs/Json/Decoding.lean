import RepoDocs.Proofs.Json.Reading

/-! What decoders take out of the documents of a value, which are those that are read of its texts and the
one of the value in memory.  A list is decoded item by item, and a record from an object with its fields
in any order, under the name or an alias of each. -/

namespace RepoDocs.Json

/-! ### Parts of a value -/

namespace Value

theorem sortedItems_eq (vs : List Value) : sortedItems vs = vs.map sorted := by
  induction vs with
  | nil => rfl
  | cons v vs ih => rw [sortedItems, ih, List.map_cons]

theorem sortedFields_eq (fields : List (String × Value)) :
    sortedFields fields = fields.map fun (k, v) => (k, v.sorted) := by
  induction fields with
  | nil => rfl
  | cons field fields ih => rw [sortedFields, ih, List.map_cons]

theorem readableItems_iff {vs : List Value} : ReadableItems vs ↔ ∀ v ∈ vs, v.Readable := by
  induction vs with
  | nil => exact iff_of_true trivial (List.forall_mem_nil _)
  | cons v vs ih => rw [ReadableItems, ih, List.forall_mem_cons]

theorem readableFields_iff {fields : List (String × Value)} :
    ReadableFields fields ↔ ∀ field ∈ fields, field.2.Readable := by
  induction fields with
  | nil => exact iff_of_true trivial (List.forall_mem_nil _)
  | cons field fields ih => rw [ReadableFields, ih, List.forall_mem_cons]

theorem heightItems_le_iff {vs : List Value} {n : Nat} :
    heightItems vs ≤ n ↔ ∀ v ∈ vs, v.height ≤ n := by
  induction vs with
  | nil => exact iff_of_true (Nat.zero_le n) (List.forall_mem_nil _)
  | cons v vs ih => rw [heightItems, Nat.max_le, ih, List.forall_mem_cons]

theorem heightFields_le_iff {fields : List (String × Value)} {n : Nat} :
    heightFields fields ≤ n ↔ ∀ field ∈ fields, field.2.height ≤ n := by
  induction fields with
  | nil => exact iff_of_true (Nat.zero_le n) (List.forall_mem_nil _)
  | cons field fields ih => rw [heightFields, Nat.max_le, ih, List.forall_mem_cons]

theorem sorted_of_flat {v : Value} (flat : v.height ≤ 0) : v.sorted = v := by
  cases v with
  | array => cases flat
  | object => cases flat
  | _ => rfl

theorem insertField_perm {k : String} (v : Value) {fields : List (String × Value)}
    (new : k ∉ fields.map Prod.fst) : (insertField k v fields).Perm ((k, v) :: fields) := by
  induction fields with
  | nil => exact .refl _
  | cons field rest ih =>
    obtain ⟨k', v'⟩ := field
    have other : k ≠ k' := fun h => new (h ▸ List.mem_cons_self)
    have later : k ∉ rest.map Prod.fst := fun h => new (List.mem_cons_of_mem _ h)
    rw [insertField]
    split
    · exact .refl _
    · exact ((ih later).cons (k', v')).trans (.swap ..)

/-- Sorting keeps the fields, if their keys are distinct. -/
theorem sortFields_perm {fields : List (String × Value)}
    (distinct : (fields.map Prod.fst).Nodup) : (sortFields fields).Perm fields := by
  -- Those inserted so far are no longer the empty list, and no key is among both.
  have go (fields done : List (String × Value)) (distinct : ((fields ++ done).map Prod.fst).Nodup) :
      (fields.foldl (fun done (k, v) => insertField k v done) done).Perm (fields ++ done) := by
    induction fields generalizing done with
    | nil => exact .refl _
    | cons field fields ih =>
      obtain ⟨new, distinct'⟩ := List.nodup_cons.1 distinct
      have new : field.1 ∉ done.map Prod.fst := fun h => new (by simp_all)
      have inserted := insertField_perm field.2 new
      have moved : (fields ++ insertField field.1 field.2 done).Perm (field :: (fields ++ done)) :=
        (inserted.append_left fields).trans List.perm_middle
      exact (ih _ ((moved.map Prod.fst).nodup_iff.2 distinct)).trans moved
  have sorted := go fields [] (by rwa [List.append_nil])
  rwa [List.append_nil] at sorted

end Value

namespace Doc

mutual

/-- A value in memory is a document of the value. -/
theorem means_ofValue : (v : Value) → (ofValue v).Means v
  | .null => .null
  | .bool b => .bool b
  | .number n => .number n
  | .string s => .string s
  | .array items => .array (means_ofItems items)
  | .object fields => .object (means_ofFields fields)

theorem means_ofItems : (vs : List Value) → MeanItems (ofItems vs) vs
  | [] => .nil
  | v :: rest => .cons (means_ofValue v) (means_ofItems rest)

theorem means_ofFields : (fields : List (String × Value)) → MeanFields (ofFields fields) fields
  | [] => .nil
  | (_, v) :: rest => .cons (means_ofValue v) (means_ofFields rest)

end

mutual

/-- There is nothing to find fault with in a document of a value. -/
theorem Means.skip : {d : Doc} → {v : Value} → d.Means v → d.skip = .ok ()
  | _, _, .null | _, _, .bool _ | _, _, .number _ | _, _, .string _ => rfl
  | _, _, .array h => by
    rw [Doc.skip, h.skip]
    rfl
  | _, _, .object h => by
    rw [Doc.skip, h.skip]
    rfl

theorem MeanItems.skip : {items : List Doc} → {vs : List Value} → MeanItems items vs →
    Doc.skipItems items = .ok ()
  | _, _, .nil => rfl
  | _, _, .cons first later => by
    rw [Doc.skipItems, first.skip, later.skip]
    rfl

theorem MeanFields.skip : {items : List (String × Mark × Doc)} →
    {fields : List (String × Value)} → MeanFields items fields → Doc.skipFields items = .ok ()
  | _, _, .nil => rfl
  | _, _, .cons first later => by
    rw [Doc.skipFields, first.skip, later.skip]
    rfl

end

end Doc

/-! ### Decoders -/

/-- The decoder takes `a` out of every document of the value. -/
def Decodes (dec : Decoder α) (v : Value) (a : α) : Prop :=
  ∀ (s : Setting) (d : Doc), d.Means v → s.Admits v.height → dec s d = .ok a

section Decoders

variable {dec : Decoder α} {v : Value} {a : α}

theorem Decodes.value (h : Decodes dec v a) : decodeValue dec v = .ok a :=
  h .ofMemory (Doc.ofValue v) (Doc.means_ofValue v) nofun

theorem Decodes.text (h : Decodes dec v a) {t : String} (written : Writes v t.toList)
    (readable : v.Readable) (low : v.height ≤ 127) : decodeText dec t = .ok a := by
  obtain ⟨doc, stop, read, ended, means⟩ := written.document readable
  exact decodeText_eq_ok.2 ⟨doc, stop, read, h _ _ means (Setting.admits_ofText low), ended⟩

theorem decodes_any (v : Value) : Decodes .any v v.sorted :=
  fun _ _ means admits => means.toValue admits

theorem decodes_string (s : String) : Decodes .string (.string s) s := by
  intro _ _ means _
  cases means
  rfl

theorem decodes_bool (b : Bool) : Decodes .bool (.bool b) b := by
  intro _ _ means _
  cases means
  rfl

theorem decodes_unsigned {n max : Nat} (name : String) (h : n ≤ max) :
    Decodes (.unsigned max name) (.ofNat n) n := by
  have fits : (decide (0 ≤ (n : Int)) && decide ((n : Int) ≤ max)) = true := by
    simp only [Bool.and_eq_true, decide_eq_true_eq]
    omega
  intro _ _ means _
  cases means
  exact if_pos fits

theorem decodes_size {n : Nat} (h : n ≤ maxWord) : Decodes .size (.ofNat n) n :=
  decodes_unsigned "usize" h

theorem decodes_word {n : Nat} (h : n ≤ maxWord) : Decodes .word (.ofNat n) n :=
  decodes_unsigned "u64" h

theorem decodes_option_null (dec : Decoder α) : Decodes (.option dec) .null none := by
  intro _ _ means _
  cases means
  rfl

theorem Decodes.option (h : Decodes dec v a) (present : v ≠ .null) :
    Decodes (.option dec) v (some a) := by
  intro s d means admits
  have taken := h s d means admits
  cases means with
  | null => exact absurd rfl present
  | _ => exact congrArg (Except.map some) taken

theorem decodes_oneOf {names : List (String × α)} {name : String}
    (known : names.lookup name = some a) : Decodes (.oneOf names) (.string name) a := by
  intro s d means _
  cases means
  simp only [Decoder.oneOf, known]

theorem mapM_of_means {vs : List Value} {as : List α} {s : Setting} {docs : List Doc}
    (items : vs.Forall₂ (Decodes dec) as) (means : Doc.MeanItems docs vs)
    (admits : s.Admits (Value.heightItems vs)) : docs.mapM (dec s) = .ok as := by
  induction items generalizing docs with
  | nil =>
    cases means
    rfl
  | cons first _ ih =>
    cases means with
    | cons means later =>
      rw [List.mapM_cons, first s _ means (admits.mono (Nat.le_max_left ..)),
        ih later (admits.mono (Nat.le_max_right ..))]
      rfl

theorem decodes_list {vs : List Value} {as : List α} (items : vs.Forall₂ (Decodes dec) as) :
    Decodes (.list dec) (.array vs) as := by
  intro s d means admits
  cases means with
  | @array docs _ start _ h =>
    obtain ⟨inner, hs, low⟩ := admits.inside start
    have all := mapM_of_means items h low
    simp only [Decoder.list, hs, all, Bind.bind, Except.bind]
    rfl

end Decoders

/-! ### Records -/

namespace Fields

variable {α β σ τ : Type} {f : Fields σ α} {g : Fields τ β} {fields : List (String × Value)} {a : α}
  {b : β} {key name : String} {dec : Decoder α} {absence : Absence α} {aliases : List String}
  {names others : List String}

/-- The key is of no field. -/
def Ignores (f : Fields σ α) (key : String) : Prop := ∀ s mark d x, f.take s key mark d x = none

/-- What is taken out of the fields of an object, where all keys of interest are among the names. -/
structure Takes (f : Fields σ α) (names : List String) (fields : List (String × Value)) (a : α) :
    Prop where
  ignores : ∀ key ∉ names, f.Ignores key
  takes : ∀ s items, Doc.MeanFields items fields → s.Admits (Value.heightFields fields) →
    ∃ x, f.collect s items f.empty = .ok x ∧ f.finish x = .ok a

theorem Takes.record {count : Nat} (h : f.Takes names fields a) :
    Decodes (Fields.record name count f) (.object fields) a := by
  intro s d means admits
  cases means with
  | @object items _ start stop means =>
    obtain ⟨inner, hs, low⟩ := admits.inside start
    obtain ⟨x, collected, finished⟩ := h.takes inner items means low
    simp only [Fields.record, hs, Bind.bind, Except.bind, collected, finished]
    rfl

theorem collect_map (h : α → β) (s : Setting) (items : List (String × Mark × Doc)) (x : σ) :
    (f.map h).collect s items x = f.collect s items x := by
  induction items generalizing x with
  | nil => rfl
  | cons item items ih =>
    simp only [collect, ih]
    rfl

theorem Takes.map (taken : f.Takes names fields a) (h : α → β) :
    (f.map h).Takes names fields (h a) := by
  refine ⟨taken.ignores, fun s items means admits => ?_⟩
  obtain ⟨x, collected, finished⟩ := taken.takes s items means admits
  refine ⟨x, (collect_map h ..).trans collected, ?_⟩
  change (f.finish x).map h = _
  rw [finished]
  rfl

/-- What becomes of the fields collected so far at another one, which is skipped if it is of no use. -/
def see (f : Fields σ α) (s : Setting) (key : String) (mark : Mark) (d : Doc) (x : σ) :
    Except Fault σ :=
  match f.take s key mark d x with
  | some r => r
  | none => d.skip.map fun _ => x

theorem collect_cons_eq_ok {s : Setting} {mark : Mark} {d : Doc}
    {items : List (String × Mark × Doc)} {x x' : σ} :
    f.collect s ((key, mark, d) :: items) x = .ok x' ↔
      ∃ x₁, f.see s key mark d x = .ok x₁ ∧ f.collect s items x₁ = .ok x' := by
  rw [collect, see]
  cases f.take s key mark d x with
  | some r => cases r <;> simp [Except.bind]
  | none => cases d.skip <;> simp [Except.bind, Except.map]

theorem see_both {s : Setting} {mark : Mark} {d : Doc} {x x₁ : σ} {y y₁ : τ}
    (apart : f.Ignores key ∨ g.Ignores key) (left : f.see s key mark d x = .ok x₁)
    (right : g.see s key mark d y = .ok y₁) :
    (f.both g).see s key mark d (x, y) = .ok (x₁, y₁) := by
  unfold see at left right ⊢
  simp only [both]
  rcases apart with ignored | ignored
  · simp only [ignored s mark d] at left ⊢
    cases taken : g.take s key mark d y <;> cases skipped : d.skip <;>
      simp_all [Except.map]
  · simp only [ignored s mark d] at right ⊢
    cases taken : f.take s key mark d x <;> cases skipped : d.skip <;>
      simp_all [Except.map]

theorem collect_both (apart : ∀ key, f.Ignores key ∨ g.Ignores key) {s : Setting}
    {items : List (String × Mark × Doc)} {x x' : σ} {y y' : τ}
    (left : f.collect s items x = .ok x') (right : g.collect s items y = .ok y') :
    (f.both g).collect s items (x, y) = .ok (x', y') := by
  induction items generalizing x y with
  | nil =>
    cases left
    cases right
    rfl
  | cons item items ih =>
    obtain ⟨x₁, seenLeft, left⟩ := collect_cons_eq_ok.1 left
    obtain ⟨y₁, seenRight, right⟩ := collect_cons_eq_ok.1 right
    exact collect_cons_eq_ok.2 ⟨(x₁, y₁), see_both (apart _) seenLeft seenRight, ih left right⟩

theorem Ignores.both (left : f.Ignores key) (right : g.Ignores key) : (f.both g).Ignores key := by
  intro s mark d x
  simp only [Fields.both, left s mark d, right s mark d]
  rfl

theorem Takes.both (left : f.Takes names fields a) (right : g.Takes others fields b)
    (apart : ∀ key ∈ names, key ∉ others) : (f.both g).Takes (names ++ others) fields (a, b) := by
  refine ⟨fun key h => ?_, fun s items means admits => ?_⟩
  · rw [List.mem_append, not_or] at h
    exact (left.ignores key h.1).both (right.ignores key h.2)
  · obtain ⟨x, leftCollected, leftFinished⟩ := left.takes s items means admits
    obtain ⟨y, rightCollected, rightFinished⟩ := right.takes s items means admits
    have apart (key : String) : f.Ignores key ∨ g.Ignores key := by
      by_cases named : key ∈ names
      · exact .inr (right.ignores key (apart key named))
      · exact .inl (left.ignores key named)
    refine ⟨(x, y), collect_both apart leftCollected rightCollected, ?_⟩
    simp only [Fields.both, leftFinished, rightFinished]
    rfl

/-- The names of a field. -/
def Named (name : String) (aliases : List String) (key : String) : Bool :=
  key = name || aliases.contains key

theorem ignores_field (other : Named name aliases key = false) :
    (field name dec absence aliases).Ignores key := by
  intro s mark d x
  cases x <;> exact if_neg (Bool.eq_false_iff.1 other)

theorem named_eq_false (h : key ∉ name :: aliases) : Named name aliases key = false := by
  simpa [Named] using h

theorem see_ignored (ignored : f.Ignores key) (s : Setting) (mark : Mark) {d : Doc} {v : Value}
    (means : d.Means v) (x : σ) : f.see s key mark d x = .ok x := by
  rw [see, ignored, means.skip]
  rfl

theorem collect_field_none {s : Setting} {items : List (String × Mark × Doc)}
    (means : Doc.MeanFields items fields)
    (missing : fields.filter (fun field => Named name aliases field.1) = []) (x : Option α) :
    (field name dec absence aliases).collect s items x = .ok x := by
  induction fields generalizing items with
  | nil =>
    cases means
    rfl
  | cons field fields ih =>
    obtain _ | ⟨first, later⟩ := means
    rw [List.filter_cons] at missing
    split at missing
    · cases missing
    · rename_i other
      exact collect_cons_eq_ok.2
        ⟨x, see_ignored (ignores_field (Bool.eq_false_iff.2 other)) _ _ first _, ih later missing⟩

theorem collect_field_one {s : Setting} {items : List (String × Mark × Doc)} {k : String} {v : Value}
    (means : Doc.MeanFields items fields) (admits : s.Admits (Value.heightFields fields))
    (one : fields.filter (fun field => Named name aliases field.1) = [(k, v)])
    (value : Decodes dec v a) :
    (field name dec absence aliases).collect s items none = .ok (some a) := by
  induction fields generalizing items with
  | nil => cases one
  | cons field fields ih =>
    obtain _ | @⟨_, mark, d, _, _, _, first, later⟩ := means
    rw [List.filter_cons] at one
    split at one
    · rename_i named
      obtain ⟨⟨⟩, missing⟩ := List.cons.inj one
      have taken : (Fields.field name dec absence aliases).see s k mark d none = .ok (some a) := by
        have take : (Fields.field name dec absence aliases).take s k mark d none =
            some ((dec s d).map some) := if_pos named
        rw [see, take, value s d first (admits.mono (Nat.le_max_left ..))]
        rfl
      exact collect_cons_eq_ok.2 ⟨some a, taken, collect_field_none later missing _⟩
    · rename_i other
      exact collect_cons_eq_ok.2
        ⟨none, see_ignored (ignores_field (Bool.eq_false_iff.2 other)) _ _ first _,
          ih later (admits.mono (Nat.le_max_right ..)) one⟩

/-- A field is taken from the only place that has one of its names. -/
theorem takes_field {k : String} {v : Value}
    (one : fields.filter (fun field => Named name aliases field.1) = [(k, v)])
    (value : Decodes dec v a) :
    (field name dec absence aliases).Takes (name :: aliases) fields a :=
  ⟨fun _ h => ignores_field (named_eq_false h), fun _ _ means admits =>
    ⟨some a, collect_field_one means admits one value, rfl⟩⟩

/-- A field that may be left out has its default where it is. -/
theorem takes_field_default
    (missing : fields.filter (fun field => Named name aliases field.1) = []) :
    (field name dec (.default a) aliases).Takes (name :: aliases) fields a :=
  ⟨fun _ h => ignores_field (named_eq_false h), fun _ _ means _ =>
    ⟨_, collect_field_none means missing _, rfl⟩⟩

end Fields

end RepoDocs.Json
