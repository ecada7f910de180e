import RepoDocs.Proofs.Json.Lexical

/-! What is read of the text of a number.  A number is read the same whatever text follows, unless that
goes on like a number; whole numbers of 64 bits are read as they were written. -/

namespace RepoDocs.Json

open Reader

/-- A text in which a number before it does not go on. -/
def Boundary (rest : List Char) : Prop :=
  ∀ c ∈ rest.head?, c.isDigit = false ∧ c ≠ '.' ∧ c ≠ 'e' ∧ c ≠ 'E'

theorem Boundary.nil : Boundary [] := nofun

theorem Boundary.cons {c : Char} {cs : List Char} (digit : c.isDigit = false) (point : c ≠ '.')
    (lower : c ≠ 'e') (upper : c ≠ 'E') : Boundary (c :: cs) := by
  rintro _ ⟨⟩
  exact ⟨digit, point, lower, upper⟩

section Append

variable {a rest : List Char}

theorem digitsOf_append (boundary : Boundary rest) (a : List Char) :
    digitsOf (a ++ rest) = digitsOf a := by
  have stop : rest.takeWhile Char.isDigit = [] := by
    cases rest with
    | nil => rfl
    | cons c cs => simp [(boundary c rfl).1]
  rw [digitsOf, digitsOf, List.takeWhile_append]
  split
  · rename_i whole
    rw [stop, List.append_nil, (List.takeWhile_prefix _).eq_of_length whole]
  · rfl

theorem length_digitsOf_le (a : List Char) : (digitsOf a).length ≤ a.length := by
  rw [digitsOf, List.length_map]
  exact (List.takeWhile_prefix _).length_le

theorem drop_append_digitsOf (a rest : List Char) :
    (a ++ rest).drop (digitsOf a).length = a.drop (digitsOf a).length ++ rest :=
  List.drop_append_of_le_length (length_digitsOf_le a)

/-- What is read of a text is read of it too when more follows. -/
def Extends {ε α : Type} (read : Reader → Except ε (α × Reader)) (rest : List Char) : Prop :=
  ∀ r r' x stop, r'.rest = r.rest ++ rest → read r = .ok (x, stop) →
    ∃ stop', stop'.rest = stop.rest ++ rest ∧ read r' = .ok (x, stop')

theorem readWhole_eq_ok {r stop : Reader} {ds : List Nat} : readWhole r = .ok (ds, stop) ↔
    digitsOf r.rest = ds ∧ ds ≠ [] ∧ (∀ d rest, ds ≠ 0 :: d :: rest) ∧ stop = r.drop ds.length := by
  unfold readWhole
  generalize digitsOf r.rest = found
  rcases found with _ | ⟨_ | d, _ | ⟨e, l⟩⟩ <;> simp <;> grind

theorem extends_readWhole (boundary : Boundary rest) : Extends readWhole rest := by
  intro r r' ds stop h ok
  obtain ⟨hds, some, unpadded, rfl⟩ := readWhole_eq_ok.1 ok
  refine ⟨r'.drop ds.length, ?_, readWhole_eq_ok.2 ⟨?_, some, unpadded, rfl⟩⟩
  · rw [rest_drop, rest_drop, h, ← hds]
    exact drop_append_digitsOf r.rest rest
  · rw [h, digitsOf_append boundary, hds]

theorem extends_readFraction (boundary : Boundary rest) : Extends readFraction rest := by
  intro r r' x stop h ok
  unfold readFraction at ok
  split at ok
  · rename_i cs hcs
    rw [hcs, List.cons_append] at h
    dsimp only at ok
    split at ok
    · cases ok
    · rename_i some
      cases ok
      have digits : digitsOf r'.next.rest = digitsOf r.next.rest := by
        rw [rest_next, rest_next, h, hcs]
        exact digitsOf_append boundary cs
      refine ⟨r'.next.drop (digitsOf r.next.rest).length, ?_, ?_⟩
      · simp only [rest_drop, rest_next, h, hcs, List.tail_cons]
        exact drop_append_digitsOf cs rest
      · unfold readFraction
        simp only [h, digits, some]
        rfl
  · rename_i other
    cases ok
    refine ⟨r', h, ?_⟩
    unfold readFraction
    split
    · rename_i cs hcs
      rcases List.append_eq_cons_iff.1 (h.symm.trans hcs) with ⟨-, hrest⟩ | ⟨cs', hr, -⟩
      · exact ((boundary '.' (by simp [hrest])).2.1 rfl).elim
      · exact (other cs' hr).elim
    · rfl

/-- A sign, and the reader behind it. -/
def sign (r : Reader) : Bool × Reader :=
  match r.rest with
  | '+' :: _ => (false, r.next)
  | '-' :: _ => (true, r.next)
  | _ => (false, r)

theorem readExponent_none {r : Reader} (other : ∀ c ∈ r.rest.head?, ¬(c = 'e' ∨ c = 'E')) :
    readExponent r = .ok (none, r) := by
  unfold readExponent
  cases h : r.rest with
  | nil => rfl
  | cons e cs =>
    have letter : ¬(e = 'e' || e = 'E') = true := by simpa using other e (by simp [h])
    exact if_neg letter

/-- Behind its letter, an exponent has a sign, which may be left out, and digits. -/
theorem readExponent_power {r : Reader} {e : Char} {cs : List Char} (h : r.rest = e :: cs)
    (he : e = 'e' ∨ e = 'E') : ∃ fault, readExponent r =
      if (digitsOf (sign r.next).2.rest).isEmpty then .error fault
      else .ok (some ((sign r.next).1, digitsOf (sign r.next).2.rest),
        (sign r.next).2.drop (digitsOf (sign r.next).2.rest).length) := by
  have letter : (e = 'e' || e = 'E') = true := by simpa using he
  unfold readExponent
  rw [h]
  exact ⟨_, if_pos letter⟩

/-- The cases in which an exponent is read without a fault. -/
theorem readExponent_eq_ok {r stop : Reader} {x : Option (Bool × List Nat)} :
    readExponent r = .ok (x, stop) ↔
      (∃ e cs, r.rest = e :: cs ∧ (e = 'e' ∨ e = 'E') ∧ digitsOf (sign r.next).2.rest ≠ [] ∧
        x = some ((sign r.next).1, digitsOf (sign r.next).2.rest) ∧
        stop = (sign r.next).2.drop (digitsOf (sign r.next).2.rest).length) ∨
      (∀ c ∈ r.rest.head?, ¬(c = 'e' ∨ c = 'E')) ∧ x = none ∧ stop = r := by
  by_cases letter : ∃ c ∈ r.rest.head?, c = 'e' ∨ c = 'E'
  · obtain ⟨e, head, he⟩ := letter
    obtain ⟨cs, h⟩ := List.head?_eq_some_iff.1 head
    obtain ⟨fault, power⟩ := readExponent_power h he
    rw [power]
    constructor
    · intro ok
      split at ok
      · cases ok
      · rename_i digits
        cases ok
        exact .inl ⟨e, cs, h, he, fun none => digits (List.isEmpty_iff.2 none), rfl, rfl⟩
    · rintro (⟨_, _, -, -, digits, rfl, rfl⟩ | ⟨other, -⟩)
      · exact if_neg fun none => digits (List.isEmpty_iff.1 none)
      · exact (other e head he).elim
  · have other : ∀ c ∈ r.rest.head?, ¬(c = 'e' ∨ c = 'E') := fun c hc he => letter ⟨c, hc, he⟩
    rw [readExponent_none other]
    constructor
    · rintro ⟨⟩
      exact .inr ⟨other, rfl, rfl⟩
    · rintro (⟨e, cs, h, he, -⟩ | ⟨-, rfl, rfl⟩)
      · exact (other e (by simp [h]) he).elim
      · rfl

theorem sign_append {r r' : Reader} (some : r.rest ≠ []) (h : r'.rest = r.rest ++ rest) :
    (sign r').1 = (sign r).1 ∧ (sign r').2.rest = (sign r).2.rest ++ rest := by
  obtain ⟨c, cs, hr⟩ := List.exists_cons_of_ne_nil some
  rw [hr, List.cons_append] at h
  unfold sign
  rw [hr, h]
  split
  · simp_all
  · simp_all
  · split <;> simp_all

theorem extends_readExponent (boundary : Boundary rest) : Extends readExponent rest := by
  intro r r' x stop h ok
  rcases readExponent_eq_ok.1 ok with ⟨e, cs, hr, he, some, rfl, rfl⟩ | ⟨other, rfl, rfl⟩
  · have behind : r'.next.rest = r.next.rest ++ rest := by simp [h, hr]
    have nonempty : r.next.rest ≠ [] := by
      intro empty
      have bare : sign r.next = (false, r.next) := by
        unfold sign
        rw [empty]
      rw [bare, empty] at some
      exact some rfl
    obtain ⟨negative, later⟩ := sign_append nonempty behind
    have digits : digitsOf (sign r'.next).2.rest = digitsOf (sign r.next).2.rest := by
      rw [later, digitsOf_append boundary]
    refine ⟨(sign r'.next).2.drop (digitsOf (sign r'.next).2.rest).length, ?_,
      readExponent_eq_ok.2 (.inl ⟨e, cs ++ rest, by simp [h, hr], he, digits ▸ some, ?_, rfl⟩)⟩
    · rw [digits, rest_drop, rest_drop, later]
      exact drop_append_digitsOf _ rest
    · rw [negative, digits]
  · refine ⟨r', h, readExponent_eq_ok.2 (.inr ⟨fun c hc => ?_, rfl, rfl⟩)⟩
    rw [h, List.head?_append, Option.mem_def, Option.or_eq_some_iff] at hc
    rcases hc with hc | ⟨-, hc⟩
    · exact other c hc
    · have := boundary c hc
      simp [this]

theorem Extends.bind {ε α β : Type} {f : Reader → Except ε (α × Reader)}
    {g : α × Reader → Except ε (β × Reader)} (hf : Extends f rest)
    (hg : ∀ x, Extends (fun r => g (x, r)) rest) : Extends (fun r => f r >>= g) rest := by
  intro r r' y stop h ok
  cases first : f r with
  | error e => simp [first, Bind.bind, Except.bind] at ok
  | ok p =>
    obtain ⟨x, r₁⟩ := p
    simp only [first, Bind.bind, Except.bind] at ok
    obtain ⟨r₁', h₁, first'⟩ := hf r r' x r₁ h first
    obtain ⟨stop', hstop, second'⟩ := hg x r₁ r₁' y stop h₁ ok
    refine ⟨stop', hstop, ?_⟩
    simpa only [first', Bind.bind, Except.bind] using second'

/-- The parts of a number behind its sign. -/
def readParts (negative : Bool) (start : Reader) :
    Except (Fault × Fault) (NumberParts × Reader) :=
  readWhole start >>= fun whole =>
    readFraction whole.2 >>= fun fraction =>
      readExponent fraction.2 >>= fun exponent =>
        pure ({ negative, whole := whole.1, fraction := fraction.1, exponent := exponent.1 },
          exponent.2)

theorem extends_readParts (boundary : Boundary rest) (negative : Bool) :
    Extends (readParts negative) rest := by
  refine (extends_readWhole boundary).bind fun whole => ?_
  dsimp only
  refine (extends_readFraction boundary).bind fun fraction => ?_
  dsimp only
  refine (extends_readExponent boundary).bind fun exponent => ?_
  rintro r r' x stop h ⟨⟩
  exact ⟨r', h, rfl⟩

/-- Whether a number is negative, and the reader behind its sign. -/
def minus (r : Reader) : Bool × Reader :=
  match r.rest with
  | '-' :: _ => (true, r.next)
  | _ => (false, r)

theorem readNumber_eq (r : Reader) : readNumber r =
    match readParts (minus r).1 (minus r).2 with
    | .error (asked, skipped) => (.broken asked skipped, none)
    | .ok (p, stop) =>
      match p.value with
      | some n => (.number n r.mark stop.mark, some stop)
      | none => (.unreadable (stop.fault .numberOutOfRange), some stop) := rfl

theorem readNumber_eq_ok {r : Reader} {n : Number} {s e : Mark} {stop? : Option Reader} :
    readNumber r = (.number n s e, stop?) ↔ ∃ p stop,
      readParts (minus r).1 (minus r).2 = .ok (p, stop) ∧ p.value = some n ∧ s = r.mark ∧
        e = stop.mark ∧ stop? = some stop := by
  rw [readNumber_eq]
  cases readParts (minus r).1 (minus r).2 with
  | error e => simp
  | ok result =>
    obtain ⟨p, stop⟩ := result
    dsimp only
    cases value : p.value with
    | none =>
      refine ⟨nofun, ?_⟩
      rintro ⟨_, _, ⟨⟩, ok, -⟩
      cases value.symm.trans ok
    | some m =>
      constructor
      · rintro ⟨⟩
        exact ⟨p, stop, rfl, value, rfl, rfl, rfl⟩
      · rintro ⟨_, _, ⟨⟩, ok, rfl, rfl, rfl⟩
        cases value.symm.trans ok
        rfl

theorem minus_append {r r' : Reader} (some : r.rest ≠ []) (h : r'.rest = r.rest ++ rest) :
    (minus r').1 = (minus r).1 ∧ (minus r').2.rest = (minus r).2.rest ++ rest := by
  obtain ⟨c, cs, hr⟩ := List.exists_cons_of_ne_nil some
  rw [hr, List.cons_append] at h
  unfold minus
  rw [hr, h]
  split
  · simp_all
  · split <;> simp_all

/-- A number is read the same whatever follows it. -/
theorem readNumber_append (boundary : Boundary rest) {r r' : Reader} {n : Number} {s e : Mark}
    {stop : Reader} (h : r'.rest = r.rest ++ rest)
    (ok : readNumber r = (.number n s e, some stop)) :
    ∃ s' e' stop', stop'.rest = stop.rest ++ rest ∧
      readNumber r' = (.number n s' e', some stop') := by
  obtain ⟨p, _, parts, value, -, -, ⟨⟩⟩ := readNumber_eq_ok.1 ok
  -- An empty text has no whole part, so what follows does not stand in for the sign.
  have some : r.rest ≠ [] := by
    intro empty
    have bare : minus r = (false, r) := by
      unfold minus
      rw [empty]
    obtain ⟨f, none⟩ : ∃ f, readWhole r = .error f := by
      unfold readWhole digitsOf
      rw [empty]
      exact ⟨_, rfl⟩
    rw [bare] at parts
    simp [readParts, none, Bind.bind, Except.bind] at parts
  obtain ⟨negative, behind⟩ := minus_append some h
  obtain ⟨stop', hstop, parts'⟩ := extends_readParts boundary _ _ _ _ _ behind parts
  rw [← negative] at parts'
  exact ⟨_, _, stop', hstop, readNumber_eq_ok.2 ⟨p, stop', parts', value, rfl, rfl, rfl⟩⟩

end Append

/-! ### Whole numbers -/

/-- The value of digits behind those of `n`. -/
def shift (n : Nat) (ds : List Nat) : Nat := ds.foldl (fun n d => n * 10 + d) n

theorem le_shift (n : Nat) (ds : List Nat) : n ≤ shift n ds := by
  induction ds generalizing n with
  | nil => exact Nat.le_refl n
  | cons d ds ih => exact Nat.le_trans (by omega) (ih (n * 10 + d))

theorem takeDigits_of_le {n : Nat} {ds : List Nat} (h : shift n ds ≤ maxWord) :
    takeDigits n ds = (shift n ds, 0) := by
  induction ds generalizing n with
  | nil => rfl
  | cons d ds ih =>
    have small : ¬maxWord < n * 10 + d := Nat.not_lt.2 (Nat.le_trans (le_shift _ ds) h)
    rw [takeDigits, if_neg small]
    exact ih h

/-- The digits of a number as numbers. -/
def digitValues (n : Nat) : List Nat := (Nat.toDigits 10 n).map fun c => c.toNat - 48

theorem digitsOf_toDigits (n : Nat) : digitsOf (Nat.toDigits 10 n) = digitValues n := by
  have digits : ∀ c ∈ Nat.toDigits 10 n, c.isDigit = true :=
    fun c hc => Nat.isDigit_of_mem_toDigits (by decide) (by decide) hc
  have all : (Nat.toDigits 10 n ++ []).takeWhile Char.isDigit = Nat.toDigits 10 n ++ [] :=
    List.takeWhile_append_of_pos digits
  rw [List.append_nil] at all
  rw [digitsOf, all, digitValues]

theorem shift_digitValues (n : Nat) : shift 0 (digitValues n) = n := by
  have value := Nat.ofDigitChars_ten_toDigits (n := n)
  rw [Nat.ofDigitChars_eq_foldl] at value
  rw [shift, digitValues, List.foldl_map]
  simpa [Nat.mul_comm] using value

theorem toNat_digitChar {d : Nat} (h : d < 10) : d.digitChar.toNat - 48 = d := by
  have all : ∀ d < 10, d.digitChar.toNat - 48 = d := by decide
  exact all d h

/-- The text of a number does not begin with a zero, unless it is one. -/
theorem head_digitValues {n : Nat} (positive : 0 < n) :
    ∃ d ds, digitValues n = d :: ds ∧ d ≠ 0 := by
  induction n using Nat.strongRecOn with
  | _ n ih =>
    by_cases small : n < 10
    · refine ⟨n, [], ?_, by omega⟩
      rw [digitValues, Nat.toDigits_of_lt_base small, List.map_singleton, toNat_digitChar small]
    · obtain ⟨d, ds, hd, nonzero⟩ := ih (n / 10) (by omega) (by omega)
      refine ⟨d, ds ++ [n % 10], ?_, nonzero⟩
      rw [digitValues, Nat.toDigits_of_base_le (by decide) (by omega), List.map_append,
        List.map_singleton, toNat_digitChar (Nat.mod_lt n (by decide))]
      rw [digitValues] at hd
      rw [hd, List.cons_append]

theorem readWhole_toDigits {r : Reader} {n : Nat} (h : r.rest = Nat.toDigits 10 n) :
    ∃ stop, stop.rest = [] ∧ readWhole r = .ok (digitValues n, stop) := by
  have length : (digitValues n).length = (Nat.toDigits 10 n).length := by simp [digitValues]
  refine ⟨r.drop (digitValues n).length, ?_, readWhole_eq_ok.2 ⟨?_, ?_, ?_, rfl⟩⟩
  · rw [rest_drop, h, length, List.drop_length]
  · rw [h, digitsOf_toDigits]
  · rw [← List.length_pos_iff, length, List.length_pos_iff]
    exact Nat.toDigits_ne_nil
  · intro d rest padded
    rcases Nat.eq_zero_or_pos n with rfl | positive
    · simp [digitValues] at padded
    · obtain ⟨d', ds, hd, nonzero⟩ := head_digitValues positive
      cases hd.symm.trans padded
      exact nonzero rfl

theorem readParts_toDigits {r : Reader} {n : Nat} (negative : Bool)
    (h : r.rest = Nat.toDigits 10 n) : ∃ stop, stop.rest = [] ∧
      readParts negative r = .ok ({ negative, whole := digitValues n }, stop) := by
  obtain ⟨stop, hstop, whole⟩ := readWhole_toDigits h
  have fraction : readFraction stop = .ok (none, stop) := by
    unfold readFraction
    rw [hstop]
  have exponent : readExponent stop = .ok (none, stop) :=
    readExponent_eq_ok.2 (.inr ⟨by simp [hstop], rfl, rfl⟩)
  refine ⟨stop, hstop, ?_⟩
  simp [readParts, whole, fraction, exponent, Bind.bind, Except.bind, pure, Except.pure]

/-- Whole numbers of 64 bits, with or without a sign. -/
def Fits (n : Int) : Prop := -(Nat.pow 2 63 : Nat) ≤ n ∧ n ≤ maxWord

theorem value_whole (negative : Bool) {n : Nat} (small : n ≤ maxWord)
    (sign : negative = true → 0 < n ∧ n ≤ Nat.pow 2 63) :
    ({ negative, whole := digitValues n } : NumberParts).value =
      some (.whole (if negative then -(n : Int) else n)) := by
  have taken : takeDigits 0 (digitValues n) = (n, 0) := by
    rw [takeDigits_of_le (by rwa [shift_digitValues]), shift_digitValues]
  cases negative with
  | false => simp [NumberParts.value, taken]
  | true =>
    obtain ⟨positive, fits⟩ := sign rfl
    have fits : ¬(n = 0 ∨ Nat.pow 2 63 < n) := by omega
    simpa [NumberParts.value, taken] using fits

theorem wholeText_natCast (n : Nat) : (wholeText n).toList = Nat.toDigits 10 n := by
  have nonnegative : ¬(n : Int) < 0 := by omega
  rw [wholeText, if_neg nonnegative, Int.natAbs_natCast, String.toList_ofList]

theorem wholeText_neg {n : Nat} (positive : 0 < n) :
    (wholeText (-(n : Int))).toList = '-' :: Nat.toDigits 10 n := by
  have negative : -(n : Int) < 0 := by omega
  rw [wholeText, if_pos negative, Int.natAbs_neg, Int.natAbs_natCast]
  simp

theorem head_wholeText (n : Int) :
    ∃ c cs, (wholeText n).toList = c :: cs ∧ (c = '-' || c.isDigit) = true := by
  by_cases negative : n < 0
  · obtain ⟨m, rfl⟩ : ∃ m : Nat, n = -(m : Int) := ⟨n.natAbs, by omega⟩
    exact ⟨_, _, wholeText_neg (by omega), rfl⟩
  · obtain ⟨m, rfl⟩ : ∃ m : Nat, n = m := ⟨n.natAbs, by omega⟩
    obtain ⟨c, cs, h⟩ := List.exists_cons_of_ne_nil (Nat.toDigits_ne_nil (n := m) (b := 10))
    have digit : c ∈ Nat.toDigits 10 m := h ▸ List.mem_cons_self
    refine ⟨c, cs, (wholeText_natCast m).trans h, ?_⟩
    rw [Nat.isDigit_of_mem_toDigits (by decide) (by decide) digit, Bool.or_true]

theorem minus_toDigits {r : Reader} {n : Nat} (h : r.rest = Nat.toDigits 10 n) :
    minus r = (false, r) := by
  unfold minus
  split
  · rename_i rest hrest
    have digit : '-' ∈ Nat.toDigits 10 n := by rw [← h, hrest]; exact List.mem_cons_self
    cases Nat.isDigit_of_mem_toDigits (by decide) (by decide) digit
  · rfl

theorem minus_neg {r : Reader} {cs : List Char} (h : r.rest = '-' :: cs) :
    minus r = (true, r.next) := by
  unfold minus
  simp only [h]

/-- A whole number of 64 bits is read as it was written. -/
theorem readNumber_whole {n : Int} (fits : Fits n) {r : Reader}
    (h : r.rest = (wholeText n).toList) :
    ∃ s e stop, stop.rest = [] ∧ readNumber r = (.number (.whole n) s e, some stop) := by
  obtain ⟨low, high⟩ := fits
  have word : maxWord = 18446744073709551615 := rfl
  have half : Nat.pow 2 63 = 9223372036854775808 := rfl
  by_cases negative : n < 0
  · obtain ⟨m, rfl⟩ : ∃ m : Nat, n = -(m : Int) := ⟨n.natAbs, by omega⟩
    have positive : 0 < m := by omega
    rw [wholeText_neg positive] at h
    obtain ⟨stop, hstop, parts⟩ := readParts_toDigits true (r := r.next) (n := m) (by simp [h])
    have value := value_whole true (n := m) (by omega) fun _ => ⟨positive, by omega⟩
    refine ⟨r.mark, stop.mark, stop, hstop,
      readNumber_eq_ok.2 ⟨_, stop, ?_, value, rfl, rfl, rfl⟩⟩
    rw [minus_neg h, parts]
  · obtain ⟨m, rfl⟩ : ∃ m : Nat, n = m := ⟨n.natAbs, by omega⟩
    rw [wholeText_natCast] at h
    obtain ⟨stop, hstop, parts⟩ := readParts_toDigits false h
    have value := value_whole false (n := m) (by omega) nofun
    refine ⟨r.mark, stop.mark, stop, hstop, readNumber_eq_ok.2 ⟨_, stop, ?_, value, rfl, rfl, rfl⟩⟩
    rw [minus_toDigits h, parts]

/-! ### Numbers as values -/

theorem readValue_numeral {fuel : Nat} {r : Reader} {c : Char} {cs : List Char}
    (h : r.skipBlanks.rest = c :: cs) (begins : (c = '-' || c.isDigit) = true) :
    readValue (fuel + 1) r = readNumber r.skipBlanks := by
  rw [readValue]
  dsimp only
  rw [h]
  split
  case h_8 hd =>
    obtain ⟨rfl, -⟩ := List.cons.inj hd
    exact if_pos begins
  all_goals
    rename_i hd
    cases hd
  all_goals cases begins

theorem readLiteral_fst (w : String) (make : Mark → Mark → Doc) (r : Reader) :
    (∃ stop, (readLiteral w make r).1 = make r.mark stop) ∨
      ∃ f, (readLiteral w make r).1 = .brokenAt f := by
  unfold readLiteral
  split
  · exact .inl ⟨_, rfl⟩
  · exact .inr ⟨_, rfl⟩

theorem readValue_eq_number {fuel : Nat} {r : Reader} {n : Number} {s e : Mark}
    {stop? : Option Reader} (h : readValue (fuel + 1) r = (.number n s e, stop?)) :
    readNumber r.skipBlanks = (.number n s e, stop?) ∧
      ∃ c cs, r.skipBlanks.rest = c :: cs ∧ (c = '-' || c.isDigit) = true := by
  have literal {w : String} {make : Mark → Mark → Doc} {r : Reader}
      (h : readLiteral w make r = (.number n s e, stop?))
      (other : ∀ s' e', make s' e' ≠ .number n s e) : False := by
    rcases readLiteral_fst w make r with ⟨stop, first⟩ | ⟨f, first⟩
    · exact other _ _ (first.symm.trans (congrArg Prod.fst h))
    · cases first.symm.trans (congrArg Prod.fst h)
  rw [readValue] at h
  dsimp only at h
  split at h
  · cases h
  · exact (literal h nofun).elim
  · exact (literal h nofun).elim
  · exact (literal h nofun).elim
  · split at h <;> cases h
  · cases h
  · cases h
  · rename_i c cs _ _ _ _ _ _ hr
    split at h
    · exact ⟨h, c, cs, hr, ‹_›⟩
    · cases h

end RepoDocs.Json
