import RepoDocs.Json.Document

/-! The texts of a value: its words in order, with blanks anywhere between them.  The text without blanks
and the text on indented lines are two of them. -/

namespace RepoDocs.Json

open Reader

/-- A text of blanks only. -/
def Blank (cs : List Char) : Prop := ∀ c ∈ cs, isBlank c = true

theorem Blank.nil : Blank [] := List.forall_mem_nil _

mutual

/-- A text of a value. -/
inductive Writes : Value → List Char → Prop
  | null : Writes .null "null".toList
  | true : Writes (.bool true) "true".toList
  | false : Writes (.bool false) "false".toList
  | number (n : Number) : Writes (.number n) n.text.toList
  | string (s : String) : Writes (.string s) (quote s)
  | array {items : List Value} {ts : List (List Char)} {b : List Char}
      (written : WritesItems items ts) (blank : Blank b) :
      Writes (.array items) ('[' :: (joinCommas ts ++ b ++ [']']))
  | object {fields : List (String × Value)} {ts : List (List Char)} {b : List Char}
      (written : WritesFields fields ts) (blank : Blank b) :
      Writes (.object fields) ('{' :: (joinCommas ts ++ b ++ ['}']))
  | blanks {v : Value} {t b b' : List Char} (before : Blank b) (written : Writes v t)
      (after : Blank b') : Writes v (b ++ t ++ b')

/-- A text for each item. -/
inductive WritesItems : List Value → List (List Char) → Prop
  | nil : WritesItems [] []
  | cons {v : Value} {vs : List Value} {t : List Char} {ts : List (List Char)}
      (first : Writes v t) (later : WritesItems vs ts) : WritesItems (v :: vs) (t :: ts)

/-- A text for each field. -/
inductive WritesFields : List (String × Value) → List (List Char) → Prop
  | nil : WritesFields [] []
  | cons {k : String} {v : Value} {fields : List (String × Value)} {b b' t : List Char}
      {ts : List (List Char)} (before : Blank b) (between : Blank b') (first : Writes v t)
      (later : WritesFields fields ts) :
      WritesFields ((k, v) :: fields) ((b ++ (quote k ++ (b' ++ ':' :: t))) :: ts)

end

/-- The texts behind the first one each have a comma before them. -/
theorem joinCommas_cons (t : List Char) (ts : List (List Char)) :
    joinCommas (t :: ts) = t ++ ts.flatMap (',' :: ·) := by
  induction ts generalizing t with
  | nil => exact (List.append_nil t).symm
  | cons u ts ih => rw [joinCommas, ih u, List.flatMap_cons, List.cons_append]; nofun

theorem Writes.after {v : Value} {t b : List Char} (blank : Blank b) (h : Writes v t) :
    Writes v (b ++ t) := by
  have := h.blanks blank .nil
  rwa [List.append_nil] at this

/-! ### The text without blanks -/

mutual

theorem writes_compactChars : (v : Value) → Writes v v.compactChars
  | .null => .null
  | .bool true => .true
  | .bool false => .false
  | .number n => .number n
  | .string s => .string s
  | .array items => by
    simpa [Value.compactChars] using Writes.array (writesItems_compactItems items) .nil
  | .object fields => by
    simpa [Value.compactChars] using Writes.object (writesFields_compactFields fields) .nil

theorem writesItems_compactItems : (vs : List Value) → WritesItems vs (Value.compactItems vs)
  | [] => .nil
  | v :: rest => .cons (writes_compactChars v) (writesItems_compactItems rest)

theorem writesFields_compactFields :
    (fields : List (String × Value)) → WritesFields fields (Value.compactFields fields)
  | [] => .nil
  | (_, v) :: rest =>
    .cons .nil .nil (writes_compactChars v) (writesFields_compactFields rest)

end

theorem writes_compact (v : Value) : Writes v v.compact.toList := by
  rw [Value.compact, String.toList_ofList]
  exact writes_compactChars v

/-! ### The text on indented lines -/

theorem blank_newLine (depth : Nat) : Blank (Value.newLine depth) := by
  rintro c (_ | ⟨_, hc⟩)
  · rfl
  · rw [List.eq_of_mem_replicate hc]
    rfl

/-- Items between brackets, on lines of their own where there are any. -/
theorem bracketed_eq (opening closing : Char) (depth : Nat) (ts : List (List Char)) :
    ∃ b, Blank b ∧ Value.bracketed opening closing depth ts =
      opening :: (joinCommas (ts.map (Value.newLine (depth + 1) ++ ·)) ++ b ++ [closing]) := by
  cases ts with
  | nil => exact ⟨[], .nil, rfl⟩
  | cons t ts => exact ⟨_, blank_newLine depth, rfl⟩

mutual

theorem writes_prettyChars (depth : Nat) : (v : Value) → Writes v (v.prettyChars depth)
  | .null => .null
  | .bool true => .true
  | .bool false => .false
  | .number n => .number n
  | .string s => .string s
  | .array items => by
    obtain ⟨b, blank, h⟩ := bracketed_eq '[' ']' depth (Value.prettyItems (depth + 1) items)
    rw [Value.prettyChars, h]
    exact .array (writesItems_prettyItems depth items) blank
  | .object fields => by
    obtain ⟨b, blank, h⟩ := bracketed_eq '{' '}' depth (Value.prettyFields (depth + 1) fields)
    rw [Value.prettyChars, h]
    exact .object (writesFields_prettyFields depth fields) blank

theorem writesItems_prettyItems (depth : Nat) : (vs : List Value) →
    WritesItems vs ((Value.prettyItems (depth + 1) vs).map (Value.newLine (depth + 1) ++ ·))
  | [] => .nil
  | v :: rest =>
    .cons ((writes_prettyChars (depth + 1) v).after (blank_newLine _))
      (writesItems_prettyItems depth rest)

theorem writesFields_prettyFields (depth : Nat) : (fields : List (String × Value)) →
    WritesFields fields
      ((Value.prettyFields (depth + 1) fields).map (Value.newLine (depth + 1) ++ ·))
  | [] => .nil
  | (_, v) :: rest =>
    .cons (blank_newLine _) .nil
      ((writes_prettyChars (depth + 1) v).after (b := [' ']) (by simp [Blank, isBlank]))
      (writesFields_prettyFields depth rest)

end

theorem writes_pretty (v : Value) : Writes v v.pretty.toList := by
  rw [Value.pretty, String.toList_ofList]
  exact writes_prettyChars 0 v

end RepoDocs.Json
