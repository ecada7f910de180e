import Mathlib.Data.List.Basic
import Mathlib.Data.String.Basic

/-! The order of strings by their bytes.  The bytes of a character in UTF-8 come before those of each
character with a greater number, so strings are in the order of their bytes when they are in the order of
their characters. -/

namespace RepoDocs.Text

open String (utf8EncodeChar)

/-- The bytes of a string in UTF-8. -/
def bytes (s : String) : List UInt8 := s.toByteArray.data.toList

theorem bytes_eq_flatMap (s : String) : bytes s = s.toList.flatMap utf8EncodeChar := by
  rw [bytes, ← String.utf8Encode_toList, List.utf8Encode, List.data_toByteArray]

theorem byte_lt_iff {m n : Nat} : UInt8.ofNat m < UInt8.ofNat n ↔ m % 256 < n % 256 := by
  rw [UInt8.lt_iff_toNat_lt, UInt8.toNat_ofNat', UInt8.toNat_ofNat']

theorem byte_eq_iff {m n : Nat} : UInt8.ofNat m = UInt8.ofNat n ↔ m % 256 = n % 256 := by
  rw [← UInt8.toNat_inj, UInt8.toNat_ofNat', UInt8.toNat_ofNat']

/-- The bytes of a character come before those of a greater one, whatever stands behind them. -/
theorem utf8EncodeChar_lt {c d : Char} (h : c < d) (r s : List UInt8) :
    utf8EncodeChar c ++ r < utf8EncodeChar d ++ s := by
  have hlt : c.val.toNat < d.val.toNat := h
  have hd : d.val.toNat < 0x110000 := by
    have valid := d.valid
    simp only [UInt32.isValidChar, Nat.isValidChar] at valid
    omega
  unfold utf8EncodeChar
  dsimp only
  split_ifs
  all_goals
    simp (disch := omega) only [List.cons_append, List.nil_append, List.cons_lt_cons_iff, byte_lt_iff,
      byte_eq_iff, Nat.mod_eq_of_lt]
    omega

theorem flatMap_utf8EncodeChar_lt {a b : List Char} (h : a < b) :
    a.flatMap utf8EncodeChar < b.flatMap utf8EncodeChar := by
  induction h with
  | @nil c r =>
    have some : utf8EncodeChar c ++ r.flatMap utf8EncodeChar ≠ [] := by
      rw [← List.length_pos_iff, List.length_append, String.length_utf8EncodeChar]
      exact Nat.add_pos_left c.utf8Size_pos _
    obtain ⟨byte, others, hbytes⟩ := List.exists_cons_of_ne_nil some
    rw [List.flatMap_nil, List.flatMap_cons, hbytes]
    exact List.nil_lt_cons byte others
  | rel hlt => exact utf8EncodeChar_lt hlt _ _
  | cons _ ih => exact List.append_left_lt ih

/-- The order of the bytes is the order of the characters. -/
theorem bytes_lt_iff {a b : String} : bytes a < bytes b ↔ a < b := by
  rw [bytes_eq_flatMap, bytes_eq_flatMap]
  refine ⟨fun h => ?_, flatMap_utf8EncodeChar_lt⟩
  rcases lt_trichotomy a b with before | rfl | behind
  · exact before
  · exact absurd h (List.lt_irrefl _)
  · exact absurd h (List.lt_asymm (flatMap_utf8EncodeChar_lt behind))

theorem bytes_le_iff {a b : String} : bytes a ≤ bytes b ↔ a ≤ b :=
  (not_congr bytes_lt_iff).trans not_lt

/-- A text is determined by its bytes. -/
theorem flatMap_utf8EncodeChar_injective :
    Function.Injective fun s : List Char => s.flatMap utf8EncodeChar := by
  intro s t h
  have strings : bytes (String.ofList s) = bytes (String.ofList t) := by
    simpa only [bytes_eq_flatMap, String.toList_ofList] using h
  have same := String.toByteArray_inj.1 (ByteArray.ext (Array.toList_inj.1 strings))
  simpa using congrArg String.toList same

/-- A part of a text has fewer bytes than the text. -/
theorem eq_or_length_lt_of_sublist {s t : List Char} (h : List.Sublist s t) :
    s = t ∨ (s.flatMap utf8EncodeChar).length < (t.flatMap utf8EncodeChar).length := by
  induction h with
  | slnil => exact .inl rfl
  | cons c _ ih =>
    have some := c.utf8Size_pos
    refine .inr ?_
    rw [List.flatMap_cons, List.length_append, String.length_utf8EncodeChar]
    rcases ih with rfl | lt <;> omega
  | cons_cons c _ ih =>
    rcases ih with rfl | lt
    · exact .inl rfl
    · refine .inr ?_
      simp only [List.flatMap_cons, List.length_append]
      omega

end RepoDocs.Text
