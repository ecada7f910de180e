import RepoDocs.Json.Decode

/-! The words of a JSON text: what is read of a string or a number that was written, whatever text
follows. -/

namespace RepoDocs.Json

/-! ### Readers -/

namespace Reader

@[simp] theorem rest_next (r : Reader) : r.next.rest = r.rest.tail := by
  obtain ⟨_ | ⟨c, rest⟩, mark⟩ := r <;> rfl

@[simp] theorem rest_drop (n : Nat) (r : Reader) : (r.drop n).rest = r.rest.drop n := by
  induction n generalizing r with
  | zero => rfl
  | succ n ih => rw [drop, ih, rest_next, List.drop_tail]

theorem drop_length_takeWhile (p : Char → Bool) (cs : List Char) :
    cs.drop (cs.takeWhile p).length = cs.dropWhile p := by
  induction cs with
  | nil => rfl
  | cons c cs ih =>
    by_cases h : p c = true
    · simp [h, ih]
    · simp [h]

@[simp] theorem rest_skipBlanks (r : Reader) : r.skipBlanks.rest = r.rest.dropWhile isBlank := by
  rw [skipBlanks, rest_drop, drop_length_takeWhile]

end Reader

/-! ### Strings -/

theorem hexValue?_hexDigit {n : Nat} (h : n < 16) : hexValue? (hexDigit n) = some n := by
  have all : ∀ n < 16, hexValue? (hexDigit n) = some n := by decide
  exact all n h

theorem hexDigit_mod (n : Nat) : hexDigit (n % 16) = hexDigit n := by
  rw [hexDigit, hexDigit, Nat.mod_mod]

theorem readHex_control {r : Reader} {n : Nat} {rest : List Char} (control : n < 32)
    (h : r.rest = '0' :: '0' :: hexDigit (n / 16) :: hexDigit n :: rest) :
    readHex r = .ok (n, r.drop 4) := by
  have zero : hexValue? '0' = some 0 := rfl
  have high := hexValue?_hexDigit (n := n / 16) (by omega)
  have low := hexValue?_hexDigit (n := n % 16) (Nat.mod_lt _ (by decide))
  rw [hexDigit_mod] at low
  have value : n / 16 * 16 + n % 16 = n := by omega
  simp [readHex, h, zero, high, low, value]

section ReadChars

variable {fuel : Nat} {written rest : List Char} {lone : Option Fault} {r r' : Reader}

theorem readChars_escape {c : Char} (h : r.rest = '\\' :: rest)
    (escape : readEscape r.next = .ok (.char c, r')) :
    readChars (fuel + 1) written lone r = readChars fuel (c :: written) lone r' := by
  rw [readChars]
  simp only [h, escape]

theorem readChars_plain {c : Char} (h : r.rest = c :: rest) (quote : c ≠ '"')
    (backslash : c ≠ '\\') (control : ¬c.toNat < 32) :
    readChars (fuel + 1) written lone r = readChars fuel (c :: written) lone r.next := by
  rw [readChars]
  split
  · rename_i hd
    cases h.symm.trans hd
  · rename_i hd
    exact (quote (List.cons.inj (h.symm.trans hd)).1).elim
  · rename_i hd
    exact (backslash (List.cons.inj (h.symm.trans hd)).1).elim
  · rename_i d _ _ _ hd
    obtain ⟨rfl, -⟩ := List.cons.inj (h.symm.trans hd)
    rw [if_neg control]

/-- A character is read as it was written. -/
theorem readChars_escapeChar (fuel : Nat) (written : List Char) (lone : Option Fault) (c : Char)
    (h : r.rest = escapeChar c ++ rest) :
    ∃ r', r'.rest = rest ∧
      readChars (fuel + 1) written lone r = readChars fuel (c :: written) lone r' := by
  unfold escapeChar at h
  have simple {d : Char} (hd : r.rest = '\\' :: d :: rest)
      (escape : readEscape r.next = .ok (.char c, r.next.next)) :
      ∃ r', r'.rest = rest ∧
        readChars (fuel + 1) written lone r = readChars fuel (c :: written) lone r' :=
    ⟨r.next.next, by simp [hd], readChars_escape hd escape⟩
  -- Seven characters have an escape of their own, the other control characters one of four digits.
  iterate 7
    split at h
    · subst_vars
      exact simple h (by simp [readEscape, h])
  split at h
  · rename_i control
    have behind : r.next.next.rest =
        '0' :: '0' :: hexDigit (c.toNat / 16) :: hexDigit c.toNat :: rest := by simp [h]
    have hex := readHex_control control behind
    have value : Char.ofNat c.toNat = c := Char.ofNat_toNat c
    refine ⟨r.next.next.drop 4, by simp [h], readChars_escape h ?_⟩
    have low : ¬(0xDC00 ≤ c.toNat ∧ c.toNat ≤ 0xDFFF) := by omega
    have below : c.toNat < 0xD800 := by omega
    simp [readEscape, h, hex, bind, Except.bind, low, below, value, pure, Except.pure]
  · rename_i quote backslash _ _ _ _ _ control
    exact ⟨r.next, by simp [h], readChars_plain h quote backslash control⟩

theorem readChars_escaped (written : List Char) (lone : Option Fault) (cs : List Char)
    (h : r.rest = cs.flatMap escapeChar ++ '"' :: rest) (enough : cs.length < fuel) :
    ∃ r', r'.rest = rest ∧
      readChars fuel written lone r = .ok (written.reverse ++ cs, lone, r') := by
  obtain ⟨fuel, rfl⟩ : ∃ n, fuel = n + 1 := ⟨fuel - 1, by omega⟩
  induction cs generalizing fuel written r with
  | nil =>
    rw [List.flatMap_nil, List.nil_append] at h
    refine ⟨r.next, by simp [h], ?_⟩
    rw [readChars]
    simp only [h, List.append_nil]
  | cons c cs ih =>
    rw [List.length_cons] at enough
    obtain ⟨fuel, rfl⟩ : ∃ n, fuel = n + 1 := ⟨fuel - 1, by omega⟩
    rw [List.flatMap_cons, List.append_assoc] at h
    obtain ⟨r₁, hr₁, first⟩ := readChars_escapeChar (fuel + 1) written lone c h
    obtain ⟨r', hr', later⟩ := ih (c :: written) hr₁ fuel (by omega)
    refine ⟨r', hr', first.trans (later.trans ?_)⟩
    rw [List.reverse_cons, List.append_assoc, List.singleton_append]

end ReadChars

theorem length_escapeChar_pos (c : Char) : 0 < (escapeChar c).length := by
  unfold escapeChar
  repeat' split
  all_goals exact Nat.zero_lt_succ _

theorem length_le_flatMap_escapeChar (cs : List Char) :
    cs.length ≤ (cs.flatMap escapeChar).length := by
  induction cs with
  | nil => exact Nat.le_refl _
  | cons c cs ih =>
    have := length_escapeChar_pos c
    simp only [List.flatMap_cons, List.length_append, List.length_cons]
    omega

theorem length_quote (s : String) :
    (quote s).length = (s.toList.flatMap escapeChar).length + 2 := by
  simp [quote]

/-- A string is read as it was written. -/
theorem readString_quote (fuel : Nat) {r : Reader} {rest : List Char} (s : String)
    (h : r.rest = quote s ++ rest) (enough : (quote s).length ≤ fuel + 1) :
    ∃ r', r'.rest = rest ∧ readString fuel r = .ok (s.toList, none, r') := by
  have length := length_le_flatMap_escapeChar s.toList
  rw [length_quote] at enough
  exact readChars_escaped [] none s.toList (by simp [h, quote]) (by omega)

end RepoDocs.Json
