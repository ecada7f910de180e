import Mathlib.Data.Bool.AllAny
import RepoDocs.Http.Url
import RepoDocs.Proofs.Text.ByteOrder
import RepoDocs.Proofs.Text.Pieces

/-! The bytes that a part of an address stands for.  A percent sign and two figures stand for one byte, and
any other character for its own bytes.  Writing characters as bytes does not change what is stood for. -/

namespace RepoDocs.Http.Url

open Text
open String (utf8EncodeChar)

/-- The value of a figure in base 16. -/
def hexValue? (c : Char) : Option Nat :=
  if c.isDigit then some (c.toNat - 48)
  else if 'a' ≤ c && c ≤ 'f' then some (c.toNat - 87)
  else if 'A' ≤ c && c ≤ 'F' then some (c.toNat - 55)
  else none

/-- The byte that the two figures at the start of a text give. -/
def byte? : List Char → Option UInt8
  | [] => none
  | c :: s => do
    let high ← hexValue? c
    let low ← s.head? >>= hexValue?
    some (UInt8.ofNat (16 * high + low))

/-- Whether a percent sign in a text has two figures behind it. -/
def hasEscape : List Char → Bool
  | [] => false
  | c :: s => (c = '%' && (byte? s).isSome) || hasEscape s

/-- The bytes that a part of an address stands for. -/
def decoded : List Char → List UInt8
  | [] => []
  | '%' :: a :: b :: s =>
    match byte? [a, b] with
    | some byte => byte :: decoded s
    | none => utf8EncodeChar '%' ++ decoded (a :: b :: s)
  | c :: s => utf8EncodeChar c ++ decoded s

variable {s t : List Char} {c : Char} {b : UInt8}

theorem byte?_of_hexValue? (h : hexValue? c = none) (s : List Char) : byte? (c :: s) = none := by
  rw [byte?, h]
  rfl

theorem byte?_of_head? (h : s.head? >>= hexValue? = none) (c : Char) : byte? (c :: s) = none := by
  rw [byte?, h]
  cases hexValue? c <;> rfl

theorem byte?_append_cons (h : hexValue? c = none) (s t : List Char) : byte? (s ++ c :: t) = byte? s := by
  match s with
  | [] => exact byte?_of_hexValue? h t
  | [x] => exact (byte?_of_head? (s := c :: t) h x).trans (byte?_of_head? rfl x).symm
  | x :: y :: r => rfl

theorem decoded_cons (h : c = '%' → byte? s = none) : decoded (c :: s) = utf8EncodeChar c ++ decoded s := by
  rw [decoded.eq_def]
  split
  · next shape => cases shape
  · next a b r shape =>
    obtain ⟨rfl, rfl⟩ := List.cons.inj shape
    have none : byte? [a, b] = none := h rfl
    simp only [none]
  · next shape =>
    obtain ⟨rfl, rfl⟩ := List.cons.inj shape
    rfl

theorem decoded_escape {x y : Char} (h : byte? [x, y] = some b) :
    decoded ('%' :: x :: y :: s) = b :: decoded s := by
  simp only [decoded, h]

/-- A text is gone through as it is decoded: an escape at a time, or a character. -/
@[elab_as_elim]
theorem decoding_induction {motive : List Char → Prop} (nil : motive [])
    (literal : ∀ c s, (c = '%' → byte? s = none) → motive s → motive (c :: s))
    (escape : ∀ x y b s, byte? [x, y] = some b → motive s → motive ('%' :: x :: y :: s)) :
    ∀ s, motive s := by
  intro s
  induction s using decoded.induct with
  | case1 => exact nil
  | case2 x y s b h ih => exact escape x y b s h ih
  | case3 x y s h ih => exact literal '%' _ (fun _ => h) ih
  | case4 c s other ih =>
    refine literal c s ?_ ih
    rintro rfl
    match s, other with
    | [], _ => rfl
    | [d], _ => exact byte?_of_head? rfl d
    | x :: y :: r, other => exact absurd rfl (other x y r rfl)

theorem hexValue?_of_byte? {x y : Char} (h : byte? (x :: y :: s) = some b) :
    (hexValue? x).isSome ∧ (hexValue? y).isSome := by
  refine ⟨?_, ?_⟩ <;> by_contra none
  · rw [byte?_of_hexValue? (by simpa using none)] at h
    cases h
  · rw [byte?_of_head? (by simpa using none)] at h
    cases h

/-- A text that begins with no figure does not change what is decoded in front of it. -/
theorem decoded_append_cons (h : hexValue? c = none) (s t : List Char) :
    decoded (s ++ c :: t) = decoded s ++ decoded (c :: t) := by
  induction s using decoding_induction with
  | nil => rfl
  | literal d s none ih =>
    have still : d = '%' → byte? (s ++ c :: t) = Option.none :=
      fun sign => (byte?_append_cons h s t).trans (none sign)
    rw [List.cons_append, decoded_cons still, ih, decoded_cons none, List.append_assoc]
  | escape x y b s h ih =>
    simp only [List.cons_append, decoded_escape h, ih]

/-- The bytes of a text are those it stands for, unless it has an escape; then they are more. -/
theorem decoded_cases (s : List Char) :
    hasEscape s = false ∧ decoded s = s.flatMap utf8EncodeChar ∨
      hasEscape s = true ∧ (decoded s).length < (s.flatMap utf8EncodeChar).length := by
  induction s using decoding_induction with
  | nil => exact .inl ⟨rfl, rfl⟩
  | literal c s none ih =>
    have same : hasEscape (c :: s) = hasEscape s := by
      have first : (c = '%' && (byte? s).isSome) = false := by
        by_cases h : c = '%'
        · simp [none h]
        · simp [h]
      rw [hasEscape, first, Bool.false_or]
    rw [same, decoded_cons none, List.flatMap_cons]
    rcases ih with ⟨whole, eq⟩ | ⟨escaped, lt⟩
    · exact .inl ⟨whole, congrArg _ eq⟩
    · refine .inr ⟨escaped, ?_⟩
      simp only [List.length_append]
      omega
  | escape x y b s h ih =>
    have bytes : (decoded s).length ≤ (s.flatMap utf8EncodeChar).length := by
      rcases ih with ⟨-, eq⟩ | ⟨-, lt⟩
      · rw [eq]
      · exact lt.le
    have some : byte? (x :: y :: s) = Option.some b := h
    refine .inr ⟨by simp [hasEscape, some], ?_⟩
    have hx := x.utf8Size_pos
    have hy := y.utf8Size_pos
    simp only [decoded_escape h, List.length_cons, List.flatMap_cons, List.length_append,
      String.length_utf8EncodeChar]
    omega

theorem length_decoded_le (s : List Char) : (decoded s).length ≤ (s.flatMap utf8EncodeChar).length := by
  rcases decoded_cases s with ⟨-, eq⟩ | ⟨-, lt⟩
  · rw [eq]
  · exact lt.le

theorem decoded_of_unescaped (h : hasEscape s = false) : decoded s = s.flatMap utf8EncodeChar := by
  rcases decoded_cases s with ⟨-, eq⟩ | ⟨escaped, -⟩
  · exact eq
  · rw [h] at escaped
    cases escaped

theorem length_decoded_pos (h : s ≠ []) : 0 < (decoded s).length := by
  induction s using decoding_induction with
  | nil => exact absurd rfl h
  | literal c s none _ =>
    have some := c.utf8Size_pos
    rw [decoded_cons none, List.length_append, String.length_utf8EncodeChar]
    omega
  | escape x y b s byte _ =>
    rw [decoded_escape byte, List.length_cons]
    exact Nat.succ_pos _

/-! ### Escapes in parts -/

theorem hasEscape_append_cons (h : hexValue? c = none) (s t : List Char) :
    hasEscape (s ++ c :: t) = (hasEscape s || hasEscape (c :: t)) := by
  induction s with
  | nil => rfl
  | cons d r ih =>
    rw [List.cons_append, hasEscape, ih, byte?_append_cons h, ← Bool.or_assoc]
    rfl

theorem unescaped_of_not_mem (h : '%' ∉ s) : hasEscape s = false := by
  induction s with
  | nil => rfl
  | cons c r ih =>
    obtain ⟨first, rest⟩ := not_or.1 (mt List.mem_cons.2 h)
    rw [hasEscape, ih rest, decide_eq_false (Ne.symm first)]
    rfl

theorem byte?_of_prefix (h : s <+: t) (some : (byte? s).isSome) : (byte? t).isSome := by
  obtain ⟨rest, rfl⟩ := h
  match s, some with
  | [], some => cases some
  | [d], some =>
    rw [byte?_of_head? rfl] at some
    cases some
  | x :: y :: r, some => exact some

theorem hasEscape_of_mem_splitAtEach {p : Char → Bool} {segment : List Char}
    (mem : segment ∈ splitAtEach p s) (h : hasEscape segment = true) : hasEscape s = true := by
  induction s generalizing segment with
  | nil =>
    obtain rfl := List.mem_singleton.1 mem
    cases h
  | cons c r ih =>
    rw [hasEscape, Bool.or_eq_true]
    rw [splitAtEach] at mem
    split at mem
    · rcases List.mem_cons.1 mem with rfl | mem
      · cases h
      · exact .inr (ih mem h)
    · split at mem
      · next cut => exact absurd cut (splitAtEach_ne_nil p r)
      · next piece pieces cut =>
        rcases List.mem_cons.1 mem with rfl | mem
        · rw [hasEscape, Bool.or_eq_true, Bool.and_eq_true] at h
          rcases h with ⟨sign, byte⟩ | inner
          · refine .inl (Bool.and_eq_true_iff.2 ⟨sign, byte?_of_prefix (prefix_of_splitAtEach cut) byte⟩)
          · exact .inr (ih (cut ▸ List.mem_cons_self) inner)
        · exact .inr (ih (cut ▸ List.mem_cons_of_mem _ mem) h)

/-! ### What is written as bytes -/

theorem hexValue?_digit : ∀ n < 16, hexValue? (Nat.digitChar n).toUpper = some n := by
  decide

theorem decoded_percentByte (b : UInt8) (s : List Char) :
    decoded (percentByte b ++ s) = b :: decoded s := by
  have bound := b.toNat_lt
  refine decoded_escape ?_
  simp only [byte?, List.head?_cons, hexValue?_digit (b.toNat / 16) (by omega),
    hexValue?_digit (b.toNat % 16) (by omega), Option.bind_eq_bind, Option.bind_some, Nat.div_add_mod,
    UInt8.ofNat_toNat]

theorem decoded_percentBytes (bytes : List UInt8) (s : List Char) :
    decoded (bytes.flatMap percentByte ++ s) = bytes ++ decoded s := by
  induction bytes with
  | nil => rfl
  | cons b rest ih => rw [List.flatMap_cons, List.append_assoc, decoded_percentByte, ih, List.cons_append]

/-- Whether a character is written as bytes in a path. -/
def isEncoded (c : Char) : Bool :=
  c.toNat < 0x20 || 0x7E < c.toNat || pathSpecials.contains c

theorem hexValue?_of_isEncoded (h : isEncoded c = true) : hexValue? c = none := by
  have special : ∀ d ∈ pathSpecials, hexValue? d = none := List.all_iff_forall_prop.1 (by decide)
  simp only [isEncoded, Bool.or_eq_true, decide_eq_true_eq, List.contains_iff_mem] at h
  rcases h with outside | mem
  · rw [← Char.toNat_val] at outside
    simp only [hexValue?, Char.isDigit, Char.le_def, ge_iff_le, UInt32.le_iff_toNat_le, Bool.and_eq_true,
      decide_eq_true_eq]
    simp only [show '0'.val.toNat = 48 from rfl, show '9'.val.toNat = 57 from rfl,
      show 'a'.val.toNat = 97 from rfl, show 'f'.val.toNat = 102 from rfl,
      show 'A'.val.toNat = 65 from rfl, show 'F'.val.toNat = 70 from rfl]
    rw [if_neg (by omega), if_neg (by omega), if_neg (by omega)]
  · exact special c mem

theorem percentEncode_cons (c : Char) (s : List Char) : percentEncode pathSpecials (c :: s) =
    (if isEncoded c then (utf8EncodeChar c).flatMap percentByte else [c]) ++
      percentEncode pathSpecials s := rfl

theorem percentEncode_encoded (h : isEncoded c = true) (s : List Char) :
    ∃ r, percentEncode pathSpecials (c :: s) = '%' :: r := by
  have some : utf8EncodeChar c ≠ [] := by
    rw [← List.length_pos_iff, String.length_utf8EncodeChar]
    exact c.utf8Size_pos
  obtain ⟨b, bytes, hb⟩ := List.exists_cons_of_ne_nil some
  rw [percentEncode_cons, if_pos h, hb]
  exact ⟨_, rfl⟩

theorem percentEncode_kept (h : isEncoded c = false) (s : List Char) :
    percentEncode pathSpecials (c :: s) = c :: percentEncode pathSpecials s := by
  rw [percentEncode_cons, h]
  rfl

theorem head_percentEncode (s : List Char) :
    (percentEncode pathSpecials s).head? >>= hexValue? = s.head? >>= hexValue? := by
  cases s with
  | nil => rfl
  | cons c s =>
    cases h : isEncoded c with
    | false => rw [percentEncode_kept h]; rfl
    | true =>
      obtain ⟨r, hr⟩ := percentEncode_encoded h s
      rw [hr]
      exact (hexValue?_of_isEncoded h).symm

theorem byte?_percentEncode (s : List Char) : byte? (percentEncode pathSpecials s) = byte? s := by
  cases s with
  | nil => rfl
  | cons c s =>
    cases h : isEncoded c with
    | false => rw [percentEncode_kept h, byte?, byte?, head_percentEncode]
    | true =>
      obtain ⟨r, hr⟩ := percentEncode_encoded h s
      rw [hr, byte?_of_hexValue? (hexValue?_of_isEncoded h)]
      exact byte?_of_hexValue? (by decide) r

/-- What is written as bytes stands for the same bytes as before. -/
theorem decoded_percentEncode (s : List Char) : decoded (percentEncode pathSpecials s) = decoded s := by
  induction s using decoding_induction with
  | nil => rfl
  | literal c s none ih =>
    rw [percentEncode_cons]
    split
    · rw [decoded_percentBytes, ih, decoded_cons none]
    · rw [List.singleton_append, decoded_cons, decoded_cons none, ih]
      rw [byte?_percentEncode]
      exact none
  | escape x y b s h ih =>
    obtain ⟨hx, hy⟩ := hexValue?_of_byte? h
    have kept {d : Char} (hd : (hexValue? d).isSome) : isEncoded d = false := by
      by_contra encoded
      simp [hexValue?_of_isEncoded (by simpa using encoded)] at hd
    have sign : isEncoded '%' = false := by decide
    simp only [percentEncode_cons, kept hx, kept hy, sign, Bool.false_eq_true, if_false,
      List.singleton_append, decoded_escape h, ih]

end RepoDocs.Http.Url
