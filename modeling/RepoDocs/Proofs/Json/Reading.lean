import Mathlib.Data.List.DropRight
import RepoDocs.Proofs.Json.Numeral
import RepoDocs.Proofs.Json.Writing

/-! What is read of the text of a value: the value, the fields of its objects sorted by key, however the
text is laid out.  The numbers of the value have to be read as they are printed, and the brackets must
not be open deeper than a reader follows them. -/

namespace RepoDocs.Json

open Reader

/-! ### Values that are read back -/

/-- The number that is read of a number's text is the number. -/
def Number.Readable (n : Number) : Prop := parse n.text = .ok (.number n)

namespace Value

mutual

/-- All numbers of a value are read as they are printed. -/
def Readable : Value → Prop
  | number n => n.Readable
  | array items => ReadableItems items
  | object fields => ReadableFields fields
  | _ => True

def ReadableItems : List Value → Prop
  | [] => True
  | v :: rest => Readable v ∧ ReadableItems rest

def ReadableFields : List (String × Value) → Prop
  | [] => True
  | (_, v) :: rest => Readable v ∧ ReadableFields rest

end

mutual

/-- How many brackets are open at once in a text of a value. -/
def height : Value → Nat
  | array items => heightItems items + 1
  | object fields => heightFields fields + 1
  | _ => 0

def heightItems : List Value → Nat
  | [] => 0
  | v :: rest => max (height v) (heightItems rest)

def heightFields : List (String × Value) → Nat
  | [] => 0
  | (_, v) :: rest => max (height v) (heightFields rest)

end

end Value

/-! ### Documents of a value -/

/-- Brackets may be open so deep. -/
def Setting.Admits (s : Setting) (height : Nat) : Prop := ∀ n ∈ s.depth, height ≤ n

theorem Setting.Admits.mono {s : Setting} {h h' : Nat} (admits : s.Admits h) (le : h' ≤ h) :
    s.Admits h' :=
  fun n hn => Nat.le_trans le (admits n hn)

theorem Setting.Admits.inside {s : Setting} {height : Nat} (admits : s.Admits (height + 1))
    (start : Mark) : ∃ inner, s.inside start = .ok inner ∧ inner.Admits height := by
  rcases s with ⟨_ | _ | n⟩
  · exact ⟨_, rfl, nofun⟩
  · cases admits 0 rfl
  · refine ⟨_, rfl, ?_⟩
    rintro _ ⟨⟩
    exact Nat.le_of_succ_le_succ (admits (n + 1) rfl)

namespace Doc

mutual

/-- The document is one of the value: it has the same parts, in the same order. -/
inductive Means : Doc → Value → Prop
  | null {start stop : Mark} : Means (.null start stop) .null
  | bool (b : Bool) {start stop : Mark} : Means (.bool b start stop) (.bool b)
  | number (n : Number) {start stop : Mark} : Means (.number n start stop) (.number n)
  | string (s : String) {start stop : Mark} : Means (.string s start stop) (.string s)
  | array {items : List Doc} {vs : List Value} {start stop : Mark} (h : MeanItems items vs) :
      Means (.array items start (.closed stop)) (.array vs)
  | object {items : List (String × Mark × Doc)} {fields : List (String × Value)}
      {start stop : Mark} (h : MeanFields items fields) :
      Means (.object items start (.closed stop)) (.object fields)

inductive MeanItems : List Doc → List Value → Prop
  | nil : MeanItems [] []
  | cons {d : Doc} {v : Value} {items : List Doc} {vs : List Value} (first : Means d v)
      (later : MeanItems items vs) : MeanItems (d :: items) (v :: vs)

inductive MeanFields : List (String × Mark × Doc) → List (String × Value) → Prop
  | nil : MeanFields [] []
  | cons {k : String} {m : Mark} {d : Doc} {v : Value} {items : List (String × Mark × Doc)}
      {fields : List (String × Value)} (first : Means d v) (later : MeanFields items fields) :
      MeanFields ((k, m, d) :: items) ((k, v) :: fields)

end

mutual

/-- What is taken out of a document of a value is the value. -/
theorem Means.toValue {s : Setting} : {d : Doc} → {v : Value} → d.Means v →
    s.Admits v.height → d.toValue s = .ok v.sorted
  | _, _, .null, _ | _, _, .bool _, _ | _, _, .number _, _ | _, _, .string _, _ => rfl
  | _, _, @Means.array _ _ start _ h, admits => by
    obtain ⟨inner, hs, low⟩ := admits.inside start
    simp only [Doc.toValue, hs, h.toValues low, Value.sorted, Bind.bind, Except.bind]
    rfl
  | _, _, @Means.object _ _ start _ h, admits => by
    obtain ⟨inner, hs, low⟩ := admits.inside start
    simp only [Doc.toValue, hs, h.toFields low, Value.sorted, Bind.bind, Except.bind]
    rfl

theorem MeanItems.toValues {s : Setting} : {items : List Doc} → {vs : List Value} →
    MeanItems items vs → s.Admits (Value.heightItems vs) →
      Doc.toValues s items = .ok (Value.sortedItems vs)
  | _, _, .nil, _ => rfl
  | _, _, .cons first later, admits => by
    simp only [Doc.toValues, first.toValue (admits.mono (Nat.le_max_left ..)),
      later.toValues (admits.mono (Nat.le_max_right ..)), Value.sortedItems]
    rfl

theorem MeanFields.toFields {s : Setting} : {items : List (String × Mark × Doc)} →
    {fields : List (String × Value)} → MeanFields items fields →
      s.Admits (Value.heightFields fields) →
        Doc.toFields s items = .ok (Value.sortedFields fields)
  | _, _, .nil, _ => rfl
  | _, _, .cons first later, admits => by
    simp only [Doc.toFields, first.toValue (admits.mono (Nat.le_max_left ..)),
      later.toFields (admits.mono (Nat.le_max_right ..)), Value.sortedFields]
    rfl

end

end Doc

/-! ### Readers in front of a text -/

/-- The text comes next, but for blanks. -/
def Reader.Faces (r : Reader) (text : List Char) : Prop :=
  r.rest.dropWhile isBlank = text.dropWhile isBlank

theorem dropWhile_blank {b : List Char} (blank : Blank b) (cs : List Char) :
    (b ++ cs).dropWhile isBlank = cs.dropWhile isBlank :=
  List.dropWhile_append_of_pos blank

namespace Reader.Faces

variable {r : Reader} {text rest b : List Char} {c : Char}

theorem of_rest (h : r.rest = text) : r.Faces text := congrArg _ h

theorem skipBlanks (h : r.Faces text) : r.skipBlanks.Faces text := by
  rw [Faces, rest_skipBlanks, List.dropWhile_idempotent]
  exact h

theorem blanks (blank : Blank b) (h : r.Faces (b ++ text)) : r.Faces text :=
  h.trans (dropWhile_blank blank text)

theorem rest_eq (word : isBlank c = false) (h : r.Faces (c :: text)) :
    r.skipBlanks.rest = c :: text := by
  rw [rest_skipBlanks, h, List.dropWhile_cons_of_neg (by simp [word])]

theorem behind (word : isBlank c = false) (h : r.Faces (c :: text)) :
    r.skipBlanks.next.Faces text := by
  rw [Faces, rest_next, h.rest_eq word, List.tail_cons]

end Reader.Faces

theorem Boundary.of_blank {c : Char} (blank : isBlank c = true) (cs : List Char) :
    Boundary (c :: cs) := by
  rintro _ ⟨⟩
  simp only [isBlank, Bool.or_eq_true, decide_eq_true_eq] at blank
  rcases blank with ((rfl | rfl) | rfl) | rfl <;> decide

/-- A number does not go on behind blanks. -/
theorem Boundary.blanks {b cs : List Char} (blank : Blank b) (h : Boundary cs) :
    Boundary (b ++ cs) := by
  cases b with
  | nil => exact h
  | cons c b => exact .of_blank (blank c List.mem_cons_self) _

/-! ### Words -/

section Words

variable {fuel : Nat} {r : Reader} {rest : List Char}

theorem readLiteral_word {w : String} {make : Mark → Mark → Doc} (h : r.rest = w.toList ++ rest) :
    ∃ stop, stop.rest = rest ∧ readLiteral w make r = (make r.mark stop.mark, some stop) := by
  have go (cs : List Char) (r : Reader) (h : r.rest = cs ++ rest) :
      ∃ stop, stop.rest = rest ∧ readLiteral.go cs r = (none, stop) := by
    induction cs generalizing r with
    | nil => exact ⟨r, h, rfl⟩
    | cons c cs ih =>
      obtain ⟨stop, hstop, later⟩ := ih r.next (by simp [h])
      refine ⟨stop, hstop, ?_⟩
      rw [readLiteral.go]
      simp only [h, List.cons_append, if_true, later]
  obtain ⟨stop, hstop, read⟩ := go w.toList r h
  exact ⟨stop, hstop, by rw [readLiteral, read]⟩

end Words

/-- What is read of the text, whatever follows that does not go on like a number. -/
def Reads (t : List Char) (v : Value) : Prop :=
  ∀ (fuel : Nat) (r : Reader) (rest : List Char), 2 * t.length ≤ fuel → Boundary rest →
    r.Faces (t ++ rest) →
      ∃ doc stop, readValue (fuel + 1) r = (doc, some stop) ∧ stop.Faces rest ∧ doc.Means v

theorem reads_literal (w : String) (make : Mark → Mark → Doc) {c : Char} {cs : List Char}
    {v : Value} (begins : w.toList = c :: cs) (word : isBlank c = false)
    (read : ∀ fuel r rest, r.skipBlanks.rest = c :: rest →
      readValue (fuel + 1) r = readLiteral w make r.skipBlanks)
    (means : ∀ start stop, (make start stop).Means v) : Reads w.toList v := by
  intro fuel r rest _ _ h
  rw [begins] at h
  have start : r.skipBlanks.rest = c :: (cs ++ rest) := h.rest_eq word
  have whole : r.skipBlanks.rest = w.toList ++ rest := by rw [start, begins, List.cons_append]
  obtain ⟨stop, hstop, literal⟩ := readLiteral_word whole
  exact ⟨_, stop, (read fuel r _ start).trans literal, .of_rest hstop, means _ _⟩

theorem reads_null : Reads "null".toList .null := by
  refine reads_literal "null" .null (c := 'n') rfl rfl (fun _ _ _ h => ?_) fun _ _ => .null
  rw [readValue]
  simp only [h]

theorem reads_true : Reads "true".toList (.bool true) := by
  refine reads_literal "true" (.bool true) (c := 't') rfl rfl (fun _ _ _ h => ?_)
    fun _ _ => .bool true
  rw [readValue]
  simp only [h]

theorem reads_false : Reads "false".toList (.bool false) := by
  refine reads_literal "false" (.bool false) (c := 'f') rfl rfl (fun _ _ _ h => ?_)
    fun _ _ => .bool false
  rw [readValue]
  simp only [h]

theorem reads_string (s : String) : Reads (quote s) (.string s) := by
  intro fuel r rest enough _ h
  have start : r.skipBlanks.rest = quote s ++ rest := h.rest_eq rfl
  obtain ⟨stop, hstop, read⟩ := readString_quote fuel s start (by omega)
  refine ⟨.string s r.skipBlanks.mark stop.mark, stop, ?_, .of_rest hstop, .string s⟩
  have quoted : r.skipBlanks.rest = '"' :: (s.toList.flatMap escapeChar ++ ['"'] ++ rest) := start
  rw [readValue]
  simp only [quoted, read, String.ofList_toList]

theorem Reads.blanks {t b b' : List Char} {v : Value} (before : Blank b) (h : Reads t v)
    (after : Blank b') : Reads (b ++ t ++ b') v := by
  intro fuel r rest enough boundary faces
  rw [List.append_assoc, List.append_assoc] at faces
  simp only [List.length_append] at enough
  obtain ⟨doc, stop, read, hstop, means⟩ :=
    h fuel r (b' ++ rest) (by omega) (boundary.blanks after) (faces.blanks before)
  exact ⟨doc, stop, read, hstop.blanks after, means⟩

/-! ### Arrays -/

/-- A value does not begin with a closing bracket. -/
theorem readValue_start {fuel : Nat} {r stop : Reader} {doc : Doc}
    (h : readValue fuel r = (doc, some stop)) :
    ∃ c cs, r.skipBlanks.rest = c :: cs ∧ c ≠ ']' := by
  cases fuel with
  | zero => cases h
  | succ fuel =>
    cases start : r.skipBlanks.rest with
    | nil =>
      rw [readValue] at h
      simp only [start] at h
      cases h
    | cons c cs =>
      refine ⟨c, cs, rfl, ?_⟩
      rintro rfl
      rw [readValue] at h
      simp only [start] at h
      cases h

theorem skipBlanks_skipBlanks (r : Reader) : r.skipBlanks.skipBlanks.rest = r.skipBlanks.rest := by
  rw [rest_skipBlanks, rest_skipBlanks, List.dropWhile_idempotent]

section Items

variable {fuel : Nat} {r r₁ : Reader} {doc : Doc} {rest : List Char}

theorem readItems_close (fuel : Nat) (first : Bool) (h : r.Faces (']' :: rest)) :
    ∃ m stop, stop.rest = rest ∧ readItems (fuel + 1) first r = ([], .closed m, some stop) := by
  have start := h.rest_eq rfl
  refine ⟨r.skipBlanks.next.mark, r.skipBlanks.next, ?_, ?_⟩
  · simp only [rest_next, start, List.tail_cons]
  · rw [readItems]
    simp only [start]

theorem readItems_first (item : readValue fuel r.skipBlanks = (doc, some r₁)) :
    readItems (fuel + 1) true r =
      (doc :: (readItems fuel false r₁).1, (readItems fuel false r₁).2) := by
  obtain ⟨c, cs, start, other⟩ := readValue_start item
  rw [skipBlanks_skipBlanks] at start
  rw [readItems]
  simp only [start, item]
  exact if_pos trivial

theorem readItems_later {text : List Char} (h : r.Faces (',' :: text))
    (item : readValue fuel r.skipBlanks.next.skipBlanks = (doc, some r₁)) :
    readItems (fuel + 1) false r =
      (doc :: (readItems fuel false r₁).1, (readItems fuel false r₁).2) := by
  have comma := h.rest_eq rfl
  obtain ⟨c, cs, start, other⟩ := readValue_start item
  rw [skipBlanks_skipBlanks] at start
  have apart : ',' ≠ ']' := by decide
  have apart' : ∀ tail, c :: cs = ']' :: tail → False := by
    rintro _ ⟨⟩
    exact other rfl
  rw [readItems]
  simp only [comma, start, item, Bool.false_eq_true, if_false, if_true]

end Items

theorem readValue_array {fuel : Nat} {r : Reader} {text : List Char} (h : r.Faces ('[' :: text)) :
    readValue (fuel + 1) r =
      (.array (readItems fuel true r.skipBlanks.next).1 r.skipBlanks.mark
        (readItems fuel true r.skipBlanks.next).2.1,
        (readItems fuel true r.skipBlanks.next).2.2) := by
  have start := h.rest_eq rfl
  rw [readValue]
  simp only [start]

/-- Behind an item stands a comma or the closing bracket. -/
theorem boundary_later (ts : List (List Char)) {b : List Char} (blank : Blank b) {c : Char}
    (rest : List Char) (closes : c = ']' ∨ c = '}') :
    Boundary (ts.flatMap (',' :: ·) ++ (b ++ c :: rest)) := by
  cases ts with
  | nil =>
    rw [List.flatMap_nil, List.nil_append]
    refine .blanks blank ?_
    rcases closes with rfl | rfl <;> exact .cons rfl (by decide) (by decide) (by decide)
  | cons t ts => exact .cons rfl (by decide) (by decide) (by decide)

theorem readItems_reads {ts : List (List Char)} {vs : List Value} {b : List Char}
    (items : ts.Forall₂ Reads vs) (blank : Blank b) (fuel : Nat) (r : Reader) (rest : List Char)
    (enough : 2 * (ts.flatMap (',' :: ·)).length ≤ fuel)
    (h : r.Faces (ts.flatMap (',' :: ·) ++ (b ++ ']' :: rest))) :
    ∃ docs m stop, stop.rest = rest ∧
      readItems (fuel + 1) false r = (docs, .closed m, some stop) ∧ Doc.MeanItems docs vs := by
  induction items generalizing fuel r with
  | nil =>
    obtain ⟨m, stop, hstop, read⟩ := readItems_close fuel false (h.blanks blank)
    exact ⟨[], m, stop, hstop, read, .nil⟩
  | @cons t v ts vs first later ih =>
    simp only [List.flatMap_cons, List.cons_append, List.append_assoc, List.length_cons,
      List.length_append] at h enough
    -- The comma pays for this step, and the text of the item for the reader of values.
    obtain ⟨fuel, rfl⟩ : ∃ n, fuel = n + 1 := ⟨fuel - 1, by omega⟩
    obtain ⟨doc, r₁, item, faces, means⟩ :=
      first fuel _ _ (by omega) (boundary_later ts blank rest (.inl rfl)) (h.behind rfl).skipBlanks
    obtain ⟨docs, m, stop, hstop, read, later⟩ := ih fuel r₁ (by omega) faces
    refine ⟨doc :: docs, m, stop, hstop, ?_, .cons means later⟩
    rw [readItems_later h item, read]

theorem reads_array {ts : List (List Char)} {vs : List Value} {b : List Char}
    (items : ts.Forall₂ Reads vs) (blank : Blank b) :
    Reads ('[' :: (joinCommas ts ++ b ++ [']'])) (.array vs) := by
  intro fuel r rest enough _ h
  simp only [List.cons_append, List.append_assoc, List.nil_append, List.length_cons,
    List.length_append, List.length_nil] at h enough
  obtain ⟨fuel, rfl⟩ : ∃ n, fuel = n + 1 := ⟨fuel - 1, by omega⟩
  rw [readValue_array h]
  have inside := h.behind rfl
  cases items with
  | nil =>
    obtain ⟨m, stop, hstop, read⟩ := readItems_close fuel true (inside.blanks blank)
    rw [read]
    exact ⟨_, stop, rfl, .of_rest hstop, .array .nil⟩
  | @cons t v ts vs first later =>
    -- There is no comma before the first item, and the opening bracket pays for it.
    rw [joinCommas_cons] at inside enough
    rw [List.append_assoc] at inside
    rw [List.length_append] at enough
    obtain ⟨fuel, rfl⟩ : ∃ n, fuel = n + 1 := ⟨fuel - 1, by omega⟩
    obtain ⟨doc, r₁, item, faces, means⟩ :=
      first fuel _ _ (by omega) (boundary_later ts blank rest (.inl rfl)) inside.skipBlanks
    obtain ⟨docs, m, stop, hstop, read, later⟩ :=
      readItems_reads later blank fuel r₁ rest (by omega) faces
    rw [readItems_first item, read]
    exact ⟨_, stop, rfl, .of_rest hstop, .array (.cons means later)⟩

/-! ### Objects -/

section Fields

variable {fuel : Nat} {r r₁ r₂ : Reader} {doc : Doc} {k : String} {rest : List Char}

theorem readFields_close (fuel : Nat) (first : Bool) (h : r.Faces ('}' :: rest)) :
    ∃ m stop, stop.rest = rest ∧ readFields (fuel + 1) first r = ([], .closed m, some stop) := by
  have start := h.rest_eq rfl
  refine ⟨r.skipBlanks.next.mark, r.skipBlanks.next, ?_, ?_⟩
  · simp only [rest_next, start, List.tail_cons]
  · rw [readFields]
    simp only [start]

/-- A field is read: the key, the colon behind it and the value. -/
structure ReadsField (fuel : Nat) (r r₁ r₂ : Reader) (k : String) (doc : Doc) : Prop where
  start : ∃ cs, r.rest = '"' :: cs
  key : readString fuel r = .ok (k.toList, none, r₁)
  colon : ∃ cs, r₁.skipBlanks.rest = ':' :: cs
  value : readValue fuel r₁.skipBlanks.next = (doc, some r₂)

theorem readFields_first (field : ReadsField fuel r.skipBlanks r₁ r₂ k doc) :
    readFields (fuel + 1) true r = ((k, r₁.skipBlanks.mark, doc) :: (readFields fuel false r₂).1,
      (readFields fuel false r₂).2) := by
  obtain ⟨cs, start⟩ := field.start
  obtain ⟨cs', colon⟩ := field.colon
  have apart : '"' ≠ '}' := by decide
  rw [readFields]
  simp only [start, field.key, colon, field.value, if_true, String.ofList_toList]

theorem readFields_later {text : List Char} (h : r.Faces (',' :: text))
    (field : ReadsField fuel r.skipBlanks.next.skipBlanks r₁ r₂ k doc) :
    readFields (fuel + 1) false r = ((k, r₁.skipBlanks.mark, doc) :: (readFields fuel false r₂).1,
      (readFields fuel false r₂).2) := by
  have comma := h.rest_eq rfl
  obtain ⟨cs, start⟩ := field.start
  obtain ⟨cs', colon⟩ := field.colon
  have apart : ',' ≠ '}' := by decide
  rw [readFields]
  simp only [comma, start, field.key, colon, field.value, Bool.false_eq_true, if_false, if_true,
    String.ofList_toList]

end Fields

theorem readValue_object {fuel : Nat} {r : Reader} {text : List Char} (h : r.Faces ('{' :: text)) :
    readValue (fuel + 1) r =
      (.object (readFields fuel true r.skipBlanks.next).1 r.skipBlanks.mark
        (readFields fuel true r.skipBlanks.next).2.1,
        (readFields fuel true r.skipBlanks.next).2.2) := by
  have start := h.rest_eq rfl
  rw [readValue]
  simp only [start]

/-- A text of a field whose value is read. -/
inductive FieldReads : List Char → String × Value → Prop
  | intro {b b' t : List Char} {k : String} {v : Value} (before : Blank b) (between : Blank b')
      (value : Reads t v) : FieldReads (b ++ (quote k ++ (b' ++ ':' :: t))) (k, v)

theorem FieldReads.read {t : List Char} {k : String} {v : Value} (h : FieldReads t (k, v))
    (fuel : Nat) {r : Reader} {rest : List Char} (enough : 2 * t.length ≤ fuel)
    (boundary : Boundary rest) (faces : r.Faces (t ++ rest)) :
    ∃ r₁ r₂ doc, ReadsField fuel r.skipBlanks r₁ r₂ k doc ∧ r₂.Faces rest ∧ doc.Means v := by
  cases h with
  | @intro b b' t _ _ before between value =>
    simp only [List.append_assoc, List.cons_append, List.length_append, List.length_cons]
      at faces enough
    have start := (faces.blanks before).rest_eq (c := '"') rfl
    obtain ⟨r₁, hr₁, key⟩ := readString_quote fuel k start (by omega)
    have colon : r₁.Faces (':' :: (t ++ rest)) := (Faces.of_rest hr₁).blanks between
    obtain ⟨fuel, rfl⟩ : ∃ n, fuel = n + 1 := ⟨fuel - 1, by omega⟩
    obtain ⟨doc, r₂, read, faces, means⟩ :=
      value fuel r₁.skipBlanks.next rest (by omega) boundary (colon.behind rfl)
    exact ⟨r₁, r₂, doc, ⟨⟨_, start⟩, key, ⟨_, colon.rest_eq rfl⟩, read⟩, faces, means⟩

theorem readFields_reads {ts : List (List Char)} {fields : List (String × Value)} {b : List Char}
    (read : ts.Forall₂ FieldReads fields) (blank : Blank b) (fuel : Nat) (r : Reader)
    (rest : List Char) (enough : 2 * (ts.flatMap (',' :: ·)).length ≤ fuel)
    (h : r.Faces (ts.flatMap (',' :: ·) ++ (b ++ '}' :: rest))) :
    ∃ docs m stop, stop.rest = rest ∧
      readFields (fuel + 1) false r = (docs, .closed m, some stop) ∧
        Doc.MeanFields docs fields := by
  induction read generalizing fuel r with
  | nil =>
    obtain ⟨m, stop, hstop, read⟩ := readFields_close fuel false (h.blanks blank)
    exact ⟨[], m, stop, hstop, read, .nil⟩
  | @cons t kv ts fields first later ih =>
    obtain ⟨k, v⟩ := kv
    simp only [List.flatMap_cons, List.cons_append, List.append_assoc, List.length_cons,
      List.length_append] at h enough
    obtain ⟨fuel, rfl⟩ : ∃ n, fuel = n + 1 := ⟨fuel - 1, by omega⟩
    obtain ⟨r₁, r₂, doc, field, faces, means⟩ :=
      first.read (fuel + 1) (by omega) (boundary_later ts blank rest (.inr rfl)) (h.behind rfl)
    obtain ⟨docs, m, stop, hstop, read, later⟩ := ih fuel r₂ (by omega) faces
    refine ⟨(k, r₁.skipBlanks.mark, doc) :: docs, m, stop, hstop, ?_, .cons means later⟩
    rw [readFields_later h field, read]

theorem reads_object {ts : List (List Char)} {fields : List (String × Value)} {b : List Char}
    (read : ts.Forall₂ FieldReads fields) (blank : Blank b) :
    Reads ('{' :: (joinCommas ts ++ b ++ ['}'])) (.object fields) := by
  intro fuel r rest enough _ h
  simp only [List.cons_append, List.append_assoc, List.nil_append, List.length_cons,
    List.length_append, List.length_nil] at h enough
  obtain ⟨fuel, rfl⟩ : ∃ n, fuel = n + 1 := ⟨fuel - 1, by omega⟩
  rw [readValue_object h]
  have inside := h.behind rfl
  cases read with
  | nil =>
    obtain ⟨m, stop, hstop, read⟩ := readFields_close fuel true (inside.blanks blank)
    rw [read]
    exact ⟨_, stop, rfl, .of_rest hstop, .object .nil⟩
  | @cons t kv ts fields first later =>
    obtain ⟨k, v⟩ := kv
    rw [joinCommas_cons] at inside enough
    rw [List.append_assoc] at inside
    rw [List.length_append] at enough
    obtain ⟨fuel, rfl⟩ : ∃ n, fuel = n + 1 := ⟨fuel - 1, by omega⟩
    obtain ⟨r₁, r₂, doc, field, faces, means⟩ :=
      first.read (fuel + 1) (by omega) (boundary_later ts blank rest (.inr rfl)) inside
    obtain ⟨docs, m, stop, hstop, read, later⟩ :=
      readFields_reads later blank fuel r₂ rest (by omega) faces
    rw [readFields_first field, read]
    exact ⟨_, stop, rfl, .of_rest hstop, .object (.cons means later)⟩

/-! ### Numbers -/

theorem decodeText_eq_ok {α : Type} {dec : Decoder α} {text : String} {a : α} :
    decodeText dec text = .ok a ↔ ∃ doc stop, readDocument text.toList = (doc, some stop) ∧
      dec .ofText doc = .ok a ∧ stop.Faces [] := by
  unfold decodeText
  rcases readDocument text.toList with ⟨doc, stop?⟩
  dsimp only
  cases taken : dec .ofText doc with
  | error e =>
    refine ⟨nofun, ?_⟩
    rintro ⟨_, _, ⟨⟩, ok, -⟩
    cases taken.symm.trans ok
  | ok b =>
    cases stop? with
    | none =>
      refine ⟨nofun, ?_⟩
      rintro ⟨_, _, ⟨⟩, -⟩
    | some stop =>
      have ends : stop.skipBlanks.rest.isEmpty = true ↔ stop.Faces [] := by
        rw [rest_skipBlanks, List.isEmpty_iff]
        rfl
      change (if stop.skipBlanks.rest.isEmpty then Except.ok b else .error _) = .ok a ↔ _
      constructor
      · intro h
        split at h
        · cases h
          exact ⟨doc, stop, rfl, taken, ends.1 ‹_›⟩
        · cases h
      · rintro ⟨_, _, ⟨⟩, ok, ended⟩
        rw [if_pos (ends.2 ended), ← taken, ok]

/-- Only a number stands for one. -/
theorem Doc.toValue_eq_number {s : Setting} {d : Doc} {n : Number}
    (h : d.toValue s = .ok (.number n)) : ∃ start stop, d = .number n start stop := by
  cases d with
  | number m start stop =>
    cases h
    exact ⟨start, stop, rfl⟩
  | array items start ending =>
    simp only [toValue, Bind.bind, Except.bind, pure, Except.pure] at h
    repeat' split at h
    all_goals cases h
  | object fields start ending =>
    simp only [toValue, Bind.bind, Except.bind, pure, Except.pure] at h
    repeat' split at h
    all_goals cases h
  | _ => cases h

/-- A readable number begins like one, and nothing but blanks is left behind it. -/
theorem Number.Readable.numeral {n : Number} (h : n.Readable) :
    ∃ r s e stop c cs, r.rest = n.text.toList.dropWhile isBlank ∧ r.rest = c :: cs ∧
      (c = '-' || c.isDigit) = true ∧ readNumber r = (.number n s e, some stop) ∧
        stop.Faces [] := by
  obtain ⟨doc, stop, read, means, ended⟩ := decodeText_eq_ok.1 h
  obtain ⟨s, e, rfl⟩ := Doc.toValue_eq_number means
  obtain ⟨read, c, cs, start, begins⟩ := readValue_eq_number read
  exact ⟨_, s, e, stop, c, cs, rest_skipBlanks _, start, begins, read, ended⟩

theorem reads_number {n : Number} (h : n.Readable) : Reads n.text.toList (.number n) := by
  intro fuel r rest _ boundary faces
  obtain ⟨r₁, s, e, stop, c, cs, whole, start, begins, read, ended⟩ := h.numeral
  have behind : r.skipBlanks.rest = r₁.rest ++ rest := by
    rw [rest_skipBlanks, faces, List.dropWhile_append, ← whole, start]
    rfl
  obtain ⟨s', e', stop', hstop, read'⟩ := readNumber_append boundary behind read
  rw [start, List.cons_append] at behind
  refine ⟨_, stop', (readValue_numeral behind begins).trans read', ?_, .number n⟩
  rw [Faces, hstop, List.dropWhile_append, ended]
  rfl

theorem not_isBlank_of_begins {c : Char} (begins : (c = '-' || c.isDigit) = true) :
    isBlank c = false := by
  by_contra blank
  rw [Bool.not_eq_false] at blank
  simp only [isBlank, Bool.or_eq_true, decide_eq_true_eq] at blank
  rcases blank with ((rfl | rfl) | rfl) | rfl <;> cases begins

theorem readable_whole {n : Int} (fits : Fits n) : (Number.whole n).Readable := by
  let r : Reader := { rest := (wholeText n).toList }
  obtain ⟨c, cs, text, begins⟩ := head_wholeText n
  have start : r.skipBlanks.rest = c :: cs :=
    Faces.rest_eq (not_isBlank_of_begins begins) (.of_rest text)
  obtain ⟨s, e, stop, ended, read⟩ := readNumber_whole fits (start.trans text.symm)
  exact decodeText_eq_ok.2
    ⟨_, stop, (readValue_numeral start begins).trans read, rfl, .of_rest ended⟩

/-! ### Whole texts -/

mutual

theorem Writes.reads {v : Value} {t : List Char} : Writes v t → v.Readable → Reads t v
  | .null, _ => reads_null
  | .true, _ => reads_true
  | .false, _ => reads_false
  | .number _, readable => reads_number readable
  | .string s, _ => reads_string s
  | .array items blank, readable => reads_array (items.reads readable) blank
  | .object fields blank, readable => reads_object (fields.reads readable) blank
  | .blanks before written after, readable => (written.reads readable).blanks before after

theorem WritesItems.reads {vs : List Value} {ts : List (List Char)} :
    WritesItems vs ts → Value.ReadableItems vs → ts.Forall₂ Reads vs
  | .nil, _ => .nil
  | .cons first later, ⟨readable, readables⟩ => .cons (first.reads readable) (later.reads readables)

theorem WritesFields.reads {fields : List (String × Value)} {ts : List (List Char)} :
    WritesFields fields ts → Value.ReadableFields fields → ts.Forall₂ FieldReads fields
  | .nil, _ => .nil
  | .cons before between first later, ⟨readable, readables⟩ =>
    .cons (.intro before between (first.reads readable)) (later.reads readables)

end

/-- A text of a value is read as a document of the value. -/
theorem Writes.document {v : Value} {t : String} (written : Writes v t.toList)
    (readable : v.Readable) :
    ∃ doc stop, readDocument t.toList = (doc, some stop) ∧ stop.Faces [] ∧ doc.Means v :=
  written.reads readable (2 * t.toList.length + 1) { rest := t.toList } [] (by omega) .nil
    (.of_rest (List.append_nil _).symm)

theorem Setting.admits_ofText {height : Nat} (low : height ≤ 127) :
    Setting.ofText.Admits height := by
  rintro _ ⟨⟩
  exact low

/-- What is read of a text of a value is the value, the fields of its objects sorted by key. -/
theorem Writes.parse {v : Value} {t : String} (written : Writes v t.toList)
    (readable : v.Readable) (low : v.height ≤ 127) : parse t = .ok v.sorted := by
  obtain ⟨doc, stop, read, ended, means⟩ := written.document readable
  exact decodeText_eq_ok.2 ⟨doc, stop, read, means.toValue (Setting.admits_ofText low), ended⟩

end RepoDocs.Json
