import Mathlib.Data.List.Forall2
import RepoDocs.Proofs.Json.Decoding

/-! Values whose texts are decoded as something, put together from their parts: the items of an array and
the fields of an object. -/

namespace RepoDocs.Json

/-- The texts of the value are decoded as `a`, and at most `n` brackets are open at once in them. -/
structure Conveys (dec : Decoder α) (v : Value) (n : Nat) (a : α) : Prop where
  decodes : Decodes dec v a
  readable : v.Readable
  low : v.height ≤ n

section Conveys

variable {dec : Decoder α} {v : Value} {n m : Nat} {a : α}

theorem Conveys.text (h : Conveys dec v n a) (low : n ≤ 127) {t : String}
    (written : Writes v t.toList) : decodeText dec t = .ok a :=
  h.decodes.text written h.readable (Nat.le_trans h.low low)

theorem Conveys.mono (h : Conveys dec v n a) (le : n ≤ m) : Conveys dec v m a :=
  ⟨h.decodes, h.readable, Nat.le_trans h.low le⟩

theorem conveys_string (s : String) (n : Nat) : Conveys .string (.string s) n s :=
  ⟨decodes_string s, trivial, Nat.zero_le n⟩

theorem conveys_bool (b : Bool) (n : Nat) : Conveys .bool (.bool b) n b :=
  ⟨decodes_bool b, trivial, Nat.zero_le n⟩

theorem conveys_size {k : Nat} (small : k ≤ maxWord) (n : Nat) : Conveys .size (.ofNat k) n k :=
  ⟨decodes_size small, readable_whole ⟨by omega, by omega⟩, Nat.zero_le n⟩

theorem conveys_word {k : Nat} (small : k ≤ maxWord) (n : Nat) : Conveys .word (.ofNat k) n k :=
  ⟨decodes_word small, readable_whole ⟨by omega, by omega⟩, Nat.zero_le n⟩

theorem Conveys.option (h : Conveys dec v n a) (present : v ≠ .null) :
    Conveys (.option dec) v n (some a) :=
  ⟨h.decodes.option present, h.readable, h.low⟩

theorem conveys_null (dec : Decoder α) (n : Nat) : Conveys (.option dec) .null n none :=
  ⟨decodes_option_null dec, trivial, Nat.zero_le n⟩

theorem conveys_oneOf {names : List (String × α)} {name : String} (known : names.lookup name = some a)
    (n : Nat) : Conveys (.oneOf names) (.string name) n a :=
  ⟨decodes_oneOf known, trivial, Nat.zero_le n⟩

/-- What items convey, their array conveys in a list. -/
theorem conveys_list {encode : β → Value} {decoded : β → α} {items : List β}
    (each : ∀ x ∈ items, Conveys dec (encode x) n (decoded x)) :
    Conveys (.list dec) (.array (items.map encode)) (n + 1) (items.map decoded) := by
  refine ⟨decodes_list ?_, ?_, Nat.succ_le_succ ?_⟩
  · rw [List.forall₂_map_left_iff, List.forall₂_map_right_iff, List.forall₂_same]
    exact fun x hx => (each x hx).decodes
  · exact Value.readableItems_iff.2 (List.forall_mem_map.2 fun x hx => (each x hx).readable)
  · exact Value.heightItems_le_iff.2 (List.forall_mem_map.2 fun x hx => (each x hx).low)

/-- Items that convey themselves. -/
theorem conveys_items {encode : α → Value} {items : List α}
    (each : ∀ x ∈ items, Conveys dec (encode x) n x) :
    Conveys (.list dec) (.array (items.map encode)) (n + 1) items := by
  have conveyed : Conveys (.list dec) (.array (items.map encode)) (n + 1) (items.map fun x => x) :=
    conveys_list each
  rwa [List.map_id'] at conveyed

theorem conveys_strings (strings : List String) (n : Nat) :
    Conveys (.list .string) (.ofStrings strings) (n + 1) strings :=
  conveys_items fun s _ => conveys_string s n

end Conveys

/-! ### Records -/

namespace Fields

variable {σ τ : Type} {f : Fields σ α} {g : Fields τ β} {fields : List (String × Value)} {n : Nat}
  {v : Value} {a : α} {b : β} {dec : Decoder α} {absence : Absence α} {names : List String}

/-- What the fields of an object convey, in the order of the record and each of them known. -/
structure Conveys (f : Fields σ α) (names : List String) (fields : List (String × Value)) (n : Nat)
    (a : α) : Prop where
  takes : f.Takes names fields a
  known : ∀ field ∈ fields, field.1 ∈ names
  legible : ∀ field ∈ fields, field.2.Readable ∧ field.2.height ≤ n

theorem filter_named_eq_nil (name : String) (others : ∀ field ∈ fields, field.1 ≠ name) :
    fields.filter (fun field => Named name [] field.1) = [] :=
  List.filter_eq_nil_iff.2 fun field hf => by simpa [Named] using others field hf

theorem filter_named_cons (name : String) (v : Value) (others : ∀ field ∈ fields, field.1 ≠ name) :
    ((name, v) :: fields).filter (fun field => Named name [] field.1) = [(name, v)] := by
  rw [List.filter_cons_of_pos (by simp [Named]), filter_named_eq_nil name others]

/-- The last field of a record. -/
theorem conveys_last (name : String) (value : Json.Conveys dec v n a) :
    (field name dec absence).Conveys [name] [(name, v)] n a := by
  refine ⟨takes_field (filter_named_cons name v nofun) value.decodes, ?_, ?_⟩
  · simp
  · simpa using ⟨value.readable, value.low⟩

/-- The last field of a record, where it is left out. -/
theorem conveys_absent (name : String) (dec : Decoder α) (a : α) (n : Nat) :
    (field name dec (.default a)).Conveys [name] [] n a :=
  ⟨takes_field_default rfl, nofun, nofun⟩

theorem Takes.cons {key : String} (taken : g.Takes names fields b) (new : key ∉ names) (v : Value) :
    g.Takes names ((key, v) :: fields) b := by
  refine ⟨taken.ignores, fun s items means admits => ?_⟩
  cases means with
  | @cons _ mark _ _ _ _ first later =>
    obtain ⟨y, collected, finished⟩ := taken.takes s _ later (admits.mono (Nat.le_max_right ..))
    have skipped := see_ignored (taken.ignores key new) s mark first g.empty
    exact ⟨y, collect_cons_eq_ok.2 ⟨g.empty, skipped, collected⟩, finished⟩

/-- A field in front of others. -/
theorem Conveys.cons (name : String) (value : Json.Conveys dec v n a)
    (rest : g.Conveys names fields n b) (new : name ∉ names) :
    ((field name dec absence).both g).Conveys (name :: names) ((name, v) :: fields) n (a, b) := by
  have others : ∀ field ∈ fields, field.1 ≠ name := by
    rintro field hf rfl
    exact new (rest.known field hf)
  have first : (field name dec absence).Takes [name] ((name, v) :: fields) a :=
    takes_field (filter_named_cons name v others) value.decodes
  refine ⟨first.both (rest.takes.cons new v) (by simpa using new), ?_, ?_⟩
  · rw [List.forall_mem_cons]
    exact ⟨List.mem_cons_self, fun field hf => List.mem_cons_of_mem _ (rest.known field hf)⟩
  · exact List.forall_mem_cons.2 ⟨⟨value.readable, value.low⟩, rest.legible⟩

/-- A field that may be left out, in front of others. -/
theorem Conveys.optional (name : String) {encode : α → Value} {a? : Option α}
    (value : ∀ a ∈ a?, Json.Conveys dec (encode a) n a ∧ encode a ≠ .null)
    (rest : g.Conveys names fields n b) (new : name ∉ names) :
    ((field name (.option dec) (.default none)).both g).Conveys (name :: names)
      (Value.optionalField name encode a? ++ fields) n (a?, b) := by
  cases a? with
  | none =>
    have others : ∀ field ∈ fields, field.1 ≠ name := by
      rintro field hf rfl
      exact new (rest.known field hf)
    have first : (field name (.option dec) (.default none)).Takes [name] fields none :=
      takes_field_default (filter_named_eq_nil name others)
    refine ⟨first.both rest.takes (by simpa using new), ?_, rest.legible⟩
    exact fun field hf => List.mem_cons_of_mem _ (rest.known field hf)
  | some a =>
    obtain ⟨value, present⟩ := value a rfl
    exact rest.cons name (value.option present) new

/-- The last field of a record, which may be left out. -/
theorem conveys_last_optional (name : String) {encode : α → Value} {a? : Option α}
    (value : ∀ a ∈ a?, Json.Conveys dec (encode a) n a ∧ encode a ≠ .null) :
    (field name (.option dec) (.default none)).Conveys [name] (Value.optionalField name encode a?) n
      a? := by
  cases a? with
  | none => exact conveys_absent name _ none n
  | some a =>
    obtain ⟨value, present⟩ := value a rfl
    exact conveys_last name (value.option present)

/-- What the fields of a record convey, an object of them does. -/
theorem Conveys.record {name : String} {count : Nat} (h : f.Conveys names fields n a)
    (made : α → β) :
    Json.Conveys (Fields.record name count (f.map made)) (.object fields) (n + 1) (made a) := by
  refine ⟨(h.takes.map made).record, ?_, Nat.succ_le_succ ?_⟩
  · exact Value.readableFields_iff.2 fun field hf => (h.legible field hf).1
  · exact Value.heightFields_le_iff.2 fun field hf => (h.legible field hf).2

end Fields

end RepoDocs.Json
