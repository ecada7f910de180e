import Mathlib.Algebra.Group.Nat.Defs
import RepoDocs.Outline.Literal
import RepoDocs.Proofs.Text.Pieces

/-! Whole numbers as a script writes them: in decimal, or behind a prefix in hexadecimal, octal or binary,
with separators between the digits.  A number that fits a signed word is read exactly; a larger one is
never read as another whole number. -/

namespace RepoDocs.Literal

open Json

/-! ### Spellings -/

/-- The character is the digit of value `v` in a base, with a letter in either case. -/
def IsDigit (base : Nat) (c : Char) (v : Nat) : Prop :=
  v < base ∧ (c = v.digitChar ∨ c = v.digitChar.toUpper)

instance (base : Nat) (c : Char) (v : Nat) : Decidable (IsDigit base c v) :=
  inferInstanceAs (Decidable (_ ∧ _))

/-- The text has digits of a base only, with single separators between them, and gives a number. -/
inductive Digits (base : Nat) : List Char → Nat → Prop
  | one {c v} (digit : IsDigit base c v) : Digits base [c] v
  | next {cs n c v} (front : Digits base cs n) (digit : IsDigit base c v) :
      Digits base (cs ++ [c]) (n * base + v)
  | apart {cs n c v} (front : Digits base cs n) (digit : IsDigit base c v) :
      Digits base (cs ++ ['_', c]) (n * base + v)

/-- The systems in which a whole number may be written. -/
inductive System where
  | decimal
  | hexadecimal
  | octal
  | binary
  deriving DecidableEq

def System.base : System → Nat
  | decimal => 10
  | hexadecimal => 16
  | octal => 8
  | binary => 2

/-- The letters that may follow a zero as the prefix of the system. -/
def System.letters : System → List Char
  | decimal => []
  | hexadecimal => ['x', 'X']
  | octal => ['o', 'O']
  | binary => ['b', 'B']

/-- The text is a spelling of the number: in decimal without leading zeros, in the other systems with a
prefix. -/
inductive Spells : System → List Char → Nat → Prop
  | zero : Spells .decimal ['0'] 0
  | decimal {cs n} (digits : Digits 10 cs n) (first : cs.head? ≠ some '0') : Spells .decimal cs n
  | prefixed {system : System} {letter cs n} (named : letter ∈ system.letters)
      (digits : Digits system.base cs n) : Spells system ('0' :: letter :: cs) n

variable {base n v : Nat} {c letter : Char} {cs ds : List Char} {system : System} {text : String}

/-! ### Digits -/

theorem digitValue?_eq_some (small : base ≤ 16) :
    digitValue? base c = some v ↔ digitValue? 16 c = some v ∧ v < base := by
  unfold digitValue?
  dsimp only
  simp only [Option.ite_none_right_eq_some, Option.some.injEq]
  constructor
  · rintro ⟨below, rfl⟩
    exact ⟨⟨by omega, rfl⟩, below⟩
  · rintro ⟨⟨-, rfl⟩, below⟩
    exact ⟨below, rfl⟩

theorem digitValue?_eq_none (small : base ≤ 16) (h : digitValue? 16 c = none) :
    digitValue? base c = none := by
  rw [Option.eq_none_iff_forall_ne_some] at h ⊢
  exact fun v hv => h v ((digitValue?_eq_some small).1 hv).1

theorem digitValue?_of_isDigit (small : base ≤ 16) (digit : IsDigit base c v) :
    digitValue? base c = some v := by
  have value : ∀ v < 16, digitValue? 16 v.digitChar = some v ∧
      digitValue? 16 v.digitChar.toUpper = some v := by decide
  obtain ⟨below, spelled⟩ := digit
  rw [digitValue?_eq_some small]
  rcases spelled with rfl | rfl
  · exact ⟨(value v (by omega)).1, below⟩
  · exact ⟨(value v (by omega)).2, below⟩

theorem ne_of_isDigit (small : base ≤ 16) (digit : IsDigit base c v) {d : Char}
    (other : digitValue? 16 d = none) : c ≠ d := by
  rintro rfl
  have known := digitValue?_of_isDigit small digit
  rw [digitValue?_eq_none small other] at known
  cases known

/-- A decimal digit is one of the ten figures. -/
theorem figure_of_isDigit (digit : IsDigit 10 c v) : c.isDigit = true ∧ c.toNat - 48 = v := by
  have figure : ∀ v < 10, v.digitChar.isDigit = true ∧ v.digitChar.toNat - 48 = v ∧
      v.digitChar.toUpper = v.digitChar := by decide
  obtain ⟨below, spelled⟩ := digit
  obtain ⟨isFigure, value, same⟩ := figure v below
  obtain rfl : c = v.digitChar := spelled.elim id (·.trans same)
  exact ⟨isFigure, value⟩

/-! ### Texts without their separators -/

/-- The text without separators. -/
abbrev joined (cs : List Char) : List Char := cs.filter (· ≠ '_')

theorem joined_concat (cs : List Char) (h : c ≠ '_') : joined (cs ++ [c]) = joined cs ++ [c] := by
  simp [joined, h]

theorem joined_apart (cs : List Char) (h : c ≠ '_') : joined (cs ++ ['_', c]) = joined cs ++ [c] := by
  simp [joined, h]

/-- A spelling is built up from the left, one digit at a time. -/
theorem Digits.joined_induction {motive : List Char → Nat → Prop} (small : base ≤ 16)
    (one : ∀ c v, IsDigit base c v → motive [c] v)
    (next : ∀ ds n c v, motive ds n → IsDigit base c v → motive (ds ++ [c]) (n * base + v))
    (h : Digits base cs n) : motive (joined cs) n := by
  have plain {c : Char} {v : Nat} (digit : IsDigit base c v) : c ≠ '_' :=
    ne_of_isDigit small digit (by decide)
  induction h with
  | @one c v digit =>
    have alone := joined_concat [] (plain digit)
    rw [List.nil_append] at alone
    exact alone ▸ one c v digit
  | next _ digit ih => exact joined_concat _ (plain digit) ▸ next _ _ _ _ ih digit
  | apart _ digit ih => exact joined_apart _ (plain digit) ▸ next _ _ _ _ ih digit

/-- The digits of a spelling are read, and give its number. -/
theorem Digits.values (small : base ≤ 16) (h : Digits base cs n) :
    joined cs ≠ [] ∧ ∃ vs, (joined cs).mapM (digitValue? base) = some vs ∧
      vs.foldl (fun n v => n * base + v) 0 = n := by
  refine h.joined_induction (motive := fun ds n => ds ≠ [] ∧
    ∃ vs, ds.mapM (digitValue? base) = some vs ∧ vs.foldl (fun n v => n * base + v) 0 = n) small
    (fun c v digit => ?one) fun ds n c v ih digit => ?next
  case one => exact ⟨by simp, [v], by simp [digitValue?_of_isDigit small digit], by simp⟩
  case next =>
    obtain ⟨-, vs, values, number⟩ := ih
    refine ⟨by simp, vs ++ [v], ?_, ?_⟩
    · simp [List.mapM_append, values, digitValue?_of_isDigit small digit]
    · rw [List.foldl_append, number, List.foldl_cons, List.foldl_nil]

theorem Digits.word (small : base ≤ 16) (h : Digits base cs n) :
    wordOfDigits? base (joined cs) = if n < Nat.pow 2 63 then some n else none := by
  obtain ⟨some, vs, values, number⟩ := h.values small
  rw [wordOfDigits?, if_neg (by simpa using some), values, Option.bind_some]
  simp only [number]

theorem mapM_eq_none {f : Char → Option Nat} (hc : c ∈ ds) (h : f c = none) : ds.mapM f = none := by
  induction ds with
  | nil => cases hc
  | cons d ds ih =>
    rw [List.mapM_cons]
    rcases List.mem_cons.1 hc with rfl | hc
    · rw [h]
      rfl
    · rw [ih hc]
      cases f d <;> rfl

/-- A character that is no digit of the base spoils the word. -/
theorem wordOfDigits?_eq_none (hc : c ∈ ds) (h : digitValue? base c = none) :
    wordOfDigits? base ds = none := by
  unfold wordOfDigits?
  rw [mapM_eq_none hc h, Option.bind_none, ite_self]

theorem Digits.figures (h : Digits 10 cs n) :
    joined cs ≠ [] ∧ (∀ c ∈ joined cs, c.isDigit = true) ∧ Decimal.ofDigits (joined cs) = n := by
  refine h.joined_induction (motive := fun ds n => ds ≠ [] ∧ (∀ c ∈ ds, c.isDigit = true) ∧
    Decimal.ofDigits ds = n) (by decide) (fun c v digit => ?one) fun ds n c v ih digit => ?next
  case one =>
    obtain ⟨figure, value⟩ := figure_of_isDigit digit
    exact ⟨by simp, by simpa using figure, by simp [Decimal.ofDigits, value]⟩
  case next =>
    obtain ⟨-, figures, number⟩ := ih
    obtain ⟨figure, value⟩ := figure_of_isDigit digit
    refine ⟨by simp, ?_, ?_⟩
    · simpa [or_imp, forall_and] using ⟨figures, figure⟩
    · rw [Decimal.ofDigits] at number ⊢
      rw [List.foldl_append, number, List.foldl_cons, List.foldl_nil, value]

/-! ### Prefixes -/

theorem System.base_le (system : System) : system.base ≤ 16 := by
  cases system <;> decide

theorem System.baseOf?_eq (named : letter ∈ system.letters) (ds : List Char) :
    baseOf? ('0' :: letter :: ds) = some system.base := by
  cases system <;> simp only [letters, List.mem_cons, List.not_mem_nil, or_false] at named
  all_goals rcases named with rfl | rfl <;> rfl

theorem System.not_figure (named : letter ∈ system.letters) :
    letter ≠ '_' ∧ digitValue? 10 letter = none := by
  cases system <;> simp only [letters, List.mem_cons, List.not_mem_nil, or_false] at named
  all_goals rcases named with rfl | rfl <;> decide

theorem baseOf?_eq_none (h : ∀ c ∈ ds, c ∉ ['x', 'X', 'o', 'O', 'b', 'B']) : baseOf? ds = none := by
  unfold baseOf?
  split
  case h_7 => rfl
  all_goals exact absurd (List.mem_of_mem_tail List.mem_cons_self) fun hc => h _ hc (by decide)

/-! ### Decimal spellings -/

theorem float?_figures (some : ds ≠ []) (figures : ∀ c ∈ ds, c.isDigit = true) :
    Decimal.float? ds = .some (Decimal.nearest (Decimal.ofDigits ds) 0) := by
  have whole : ds.takeWhile Char.isDigit = ds := List.takeWhile_eq_self_iff.2 figures
  simp [Decimal.float?, whole, some]

theorem float?_suffixed (some : ds ≠ []) (figures : ∀ c ∈ ds, c.isDigit = true) :
    Decimal.float? (ds ++ ['n']) = none := by
  have whole : (ds ++ ['n']).takeWhile Char.isDigit = ds := Text.takeWhile_stop figures (by decide)
  simp [Decimal.float?, whole, some]

/-- A double as a value, unless it is none that JSON has. -/
def finite? (x : Float) : Option Value := if x.isInf || x.isNaN then none else some (.number (.float x))

theorem finite?_ne_whole (x : Float) (k : Int) : finite? x ≠ some (.number (.whole k)) := by
  unfold finite?
  split <;> simp

/-! ### Numbers -/

theorem number?_of_word (word : wordOfDigits? 10 (joined text.toList) = some n) :
    number? text = some (.ofNat n) := by
  unfold number?
  simp only [word]

theorem number?_of_named (noWord : wordOfDigits? 10 (joined text.toList) = none)
    (named : baseOf? (joined text.toList) = some base) :
    number? text = (wordOfDigits? base ((joined text.toList).drop 2)).map .ofNat := by
  unfold number?
  simp only [noWord, named]

theorem number?_of_double (noWord : wordOfDigits? 10 (joined text.toList) = none)
    (noPrefix : baseOf? (joined text.toList) = none) :
    number? text = (Decimal.float? (joined text.toList)).bind finite? := by
  unfold number?
  simp only [noWord, noPrefix]
  rfl

theorem joined_suffixed (text : String) :
    joined (text ++ "n").toList = joined text.toList ++ ['n'] := by
  simp [joined]

theorem noWord_suffixed (text : String) :
    wordOfDigits? 10 (joined (text ++ "n").toList) = none := by
  rw [joined_suffixed]
  exact wordOfDigits?_eq_none (List.mem_append_right _ (List.mem_singleton_self 'n')) (by decide)

theorem baseOf?_figures (figures : ∀ c ∈ ds, c.isDigit = true) (rest : List Char)
    (others : ∀ c ∈ rest, c ∉ ['x', 'X', 'o', 'O', 'b', 'B']) : baseOf? (ds ++ rest) = none := by
  have letters : ['x', 'X', 'o', 'O', 'b', 'B'].all (fun c => !c.isDigit) = true := by decide
  refine baseOf?_eq_none fun c hc letter => ?_
  rcases List.mem_append.1 hc with hc | hc
  · have := List.all_eq_true.1 letters c letter
    simp [figures c hc] at this
  · exact others c hc letter

/-- A decimal spelling gives the number, or the double next to it where it fits no word. -/
theorem Digits.number? (h : Digits 10 text.toList n) : Literal.number? text =
    if n < Nat.pow 2 63 then some (.ofNat n) else finite? (Decimal.nearest n 0) := by
  have word := h.word (by decide)
  split
  case isTrue fits => exact number?_of_word (by rw [word, if_pos fits])
  case isFalse large =>
    obtain ⟨some, figures, value⟩ := h.figures
    have noPrefix := baseOf?_figures figures [] nofun
    rw [List.append_nil] at noPrefix
    rw [number?_of_double (by rw [word, if_neg large]) noPrefix, float?_figures some figures, value,
      Option.bind_some]

theorem Digits.number?_suffixed (h : Digits 10 text.toList n) :
    Literal.number? (text ++ "n") = none := by
  obtain ⟨some, figures, -⟩ := h.figures
  have noPrefix := baseOf?_figures figures ['n'] (by simp)
  rw [← joined_suffixed] at noPrefix
  rw [number?_of_double (noWord_suffixed text) noPrefix, joined_suffixed, float?_suffixed some figures,
    Option.bind_none]

theorem joined_prefixed (named : letter ∈ system.letters) (h : cs = '0' :: letter :: ds) :
    joined cs = '0' :: letter :: joined ds := by
  simp [joined, h, (System.not_figure named).1]

/-- A spelling behind a prefix gives the number, or nothing where it fits no word. -/
theorem Digits.number?_prefixed (named : letter ∈ system.letters)
    (split : text.toList = '0' :: letter :: ds) (h : Digits system.base ds n) :
    Literal.number? text = if n < Nat.pow 2 63 then some (.ofNat n) else none := by
  have shape := joined_prefixed named split
  have noWord : wordOfDigits? 10 (joined text.toList) = none :=
    wordOfDigits?_eq_none (shape ▸ by simp) (System.not_figure named).2
  have base : baseOf? (joined text.toList) = some system.base := shape ▸ System.baseOf?_eq named _
  rw [number?_of_named noWord base, shape, List.drop_succ_cons, List.drop_succ_cons, List.drop_zero,
    h.word system.base_le]
  split <;> rfl

theorem number?_prefixed_suffixed (named : letter ∈ system.letters)
    (split : text.toList = '0' :: letter :: ds) : Literal.number? (text ++ "n") = none := by
  have shape := joined_suffixed text
  rw [joined_prefixed named split, List.cons_append, List.cons_append] at shape
  have base : baseOf? (joined (text ++ "n").toList) = some system.base :=
    shape ▸ System.baseOf?_eq named _
  have spoilt : wordOfDigits? system.base (joined ds ++ ['n']) = none :=
    wordOfDigits?_eq_none (List.mem_append_right _ (List.mem_singleton_self 'n'))
      (digitValue?_eq_none system.base_le (by decide))
  rw [number?_of_named (noWord_suffixed text) base, shape, List.drop_succ_cons, List.drop_succ_cons,
    List.drop_zero, spoilt, Option.map_none]

theorem Spells.cases_digits {cs : List Char} (h : Spells system cs n) :
    system = .decimal ∧ Digits 10 cs n ∨
      ∃ letter ds, letter ∈ system.letters ∧ cs = '0' :: letter :: ds ∧ Digits system.base ds n := by
  cases h with
  | zero => exact .inl ⟨rfl, .one ⟨by decide, .inl rfl⟩⟩
  | decimal digits => exact .inl ⟨rfl, digits⟩
  | prefixed named digits => exact .inr ⟨_, _, named, rfl, digits⟩

/-- However a whole number is spelled, it is read exactly if it fits a signed word.  If not, a spelling in
decimal gives the double next to it, if any, and one behind a prefix gives nothing, and no spelling gives
any whole number.  With the suffix of a long number, no spelling gives anything. -/
theorem number?_of_spells (h : Spells system text.toList n) :
    (n ≤ 2 ^ 63 - 1 → number? text = some (.ofNat n)) ∧
      (2 ^ 63 - 1 < n → (system ≠ .decimal → number? text = none) ∧
        (system = .decimal → number? text = finite? (Decimal.nearest n 0)) ∧
        ∀ k : Int, number? text ≠ some (.number (.whole k))) ∧
      number? (text ++ "n") = none := by
  have fits : n ≤ 2 ^ 63 - 1 ↔ n < Nat.pow 2 63 := by
    rw [show Nat.pow 2 63 = 2 ^ 63 from rfl]
    omega
  rw [← Nat.not_le, fits]
  rcases h.cases_digits with ⟨rfl, digits⟩ | ⟨letter, ds, named, split, digits⟩
  · rw [digits.number?]
    refine ⟨fun small => if_pos small, fun large => ?_, digits.number?_suffixed⟩
    rw [if_neg large]
    exact ⟨fun other => absurd rfl other, fun _ => rfl, finite?_ne_whole _⟩
  · rw [digits.number?_prefixed named split]
    refine ⟨fun small => if_pos small, fun large => ?_, number?_prefixed_suffixed named split⟩
    rw [if_neg large]
    refine ⟨fun _ => rfl, ?_, by simp⟩
    rintro rfl
    cases named

/-- Every number has digits in every base. -/
theorem digits_toDigits (big : 1 < base) (n : Nat) : Digits base (Nat.toDigits base n) n := by
  induction n using Nat.strongRecOn with
  | _ n ih =>
    by_cases small : n < base
    · rw [Nat.toDigits_of_lt_base small]
      exact .one ⟨small, .inl rfl⟩
    · rw [Nat.toDigits_of_base_le big (Nat.not_lt.1 small)]
      have front := ih (n / base) (Nat.div_lt_self (by omega) big)
      have whole := front.next ⟨Nat.mod_lt n (by omega), .inl rfl⟩
      rwa [Nat.div_add_mod'] at whole

/-- The least number that fits no word has no value in hexadecimal, and is a double in decimal. -/
theorem number?_of_spells_edge :
    number? "0X0_fF" = some (.ofNat 255) ∧ number? "0X0_fFn" = none ∧
      number? "0x8000000000000000" = none ∧
      ∀ k : Int, number? "9223372036854775808" ≠ some (.number (.whole k)) := by
  have mixed : Spells .hexadecimal "0X0_fF".toList 255 := by
    have zero : IsDigit 16 '0' 0 := by decide
    have lower : IsDigit 16 'f' 15 := by decide
    have upper : IsDigit 16 'F' 15 := by decide
    have digits : Digits 16 "0_fF".toList 255 := ((Digits.one zero).apart lower).next upper
    exact .prefixed (show 'X' ∈ System.letters .hexadecimal by decide) digits
  have large : Spells .hexadecimal "0x8000000000000000".toList (2 ^ 63) :=
    .prefixed (show 'x' ∈ System.letters .hexadecimal by decide) (digits_toDigits (by decide) (2 ^ 63))
  have decimal : Spells .decimal "9223372036854775808".toList (2 ^ 63) :=
    .decimal (digits_toDigits (by decide) (2 ^ 63)) (by decide)
  obtain ⟨exact, -, suffixed⟩ := number?_of_spells mixed
  refine ⟨exact (by decide), suffixed, ?_, ?_⟩
  · exact ((number?_of_spells large).2.1 (by decide)).1 (by decide)
  · exact ((number?_of_spells decimal).2.1 (by decide)).2.2

end RepoDocs.Literal
