import RepoDocs.Proofs.Outline.Numerals
import RepoDocs.Script.Rule

/-! String literals of a script: the strings that they denote, and what is taken of their text.  The text
between the quotes is the string itself just when no character in it is escaped.  A scan takes a literal
whole, so that its leaf in the tree has all of its text. -/

namespace RepoDocs.Literal

/-! ### Literals -/

/-- The letters that name a control character behind a backslash. -/
def namedEscapes : List (Char × Char) :=
  [('b', '\x08'), ('t', '\t'), ('n', '\n'), ('v', '\x0b'), ('f', '\x0c'), ('r', '\r')]

/-- The line ends that a backslash takes out of a string. -/
def lineTurns : List (List Char) := [['\n'], ['\r', '\n'], ['\r'], ['\u2028'], ['\u2029']]

/-- The characters that do not stand for themselves behind a backslash: letters with a meaning of their
own, digits and line ends. -/
def meaningful : List Char :=
  ['b', 't', 'n', 'v', 'f', 'r', 'x', 'u', '0', '1', '2', '3', '4', '5', '6', '7', '8', '9', '\n', '\r',
    '\u2028', '\u2029']

/-- A code as it is written behind a backslash: by four hexadecimal digits, or by any number of them in
braces. -/
inductive CodeEscape : List Char → Nat → Prop
  | four {ds n} (digits : Digits 16 ds n) (whole : '_' ∉ ds) (length : ds.length = 4) :
      CodeEscape ('u' :: ds) n
  | braced {ds n} (digits : Digits 16 ds n) (whole : '_' ∉ ds) : CodeEscape ('u' :: '{' :: (ds ++ ['}'])) n

/-- What may stand for a character behind a backslash.  A character beyond sixteen bits may be written by
its two surrogates. -/
inductive Escape : List Char → Char → Prop
  | named {k c} (named : (k, c) ∈ namedEscapes) : Escape [k] c
  | itself {c} (plain : c ∉ meaningful) : Escape [c] c
  | byte {x y v w} (high : IsDigit 16 x v) (low : IsDigit 16 y w) :
      Escape ['x', x, y] (Char.ofNat (v * 16 + w))
  | code {piece n} (code : CodeEscape piece n) (scalar : n.isValidChar) : Escape piece (Char.ofNat n)
  | pair {first second high low} (leading : CodeEscape first high) (trailing : CodeEscape second low)
      (isHigh : 0xD800 ≤ high ∧ high < 0xDC00) (isLow : 0xDC00 ≤ low ∧ low < 0xE000) :
      Escape (first ++ '\\' :: second) (Char.ofNat (0x10000 + (high - 0xD800) * 0x400 + (low - 0xDC00)))

/-- The text between two of the quotes `q` denotes the string. -/
inductive Denotes (q : Char) : List Char → List Char → Prop
  | nil : Denotes q [] []
  | plain {c body s} (ordinary : c ∉ [q, '\\', '\n', '\r']) (rest : Denotes q body s) :
      Denotes q (c :: body) (c :: s)
  | escape {piece c body s} (escape : Escape piece c) (rest : Denotes q body s) :
      Denotes q ('\\' :: (piece ++ body)) (c :: s)
  | zero {body s} (apart : ∀ d ∈ body.head?, d.isDigit = false) (rest : Denotes q body s) :
      Denotes q ('\\' :: '0' :: body) ('\x00' :: s)
  | turn {t body s} (turn : t ∈ lineTurns) (rest : Denotes q body s) :
      Denotes q ('\\' :: (t ++ body)) s

/-- The text is a literal with `body` between its quotes, single or double ones, and denotes the string. -/
inductive Quotes (body s : List Char) : List Char → Prop
  | mk {q} (quote : q = '"' ∨ q = '\'') (denotes : Denotes q body s) : Quotes body s (q :: (body ++ [q]))

variable {q c : Char} {piece body s t rest : List Char} {n : Nat}

/-! ### Lengths -/

theorem CodeEscape.ne_nil (h : CodeEscape piece n) : piece ≠ [] := by
  cases h <;> exact List.cons_ne_nil _ _

theorem Escape.length_pos (h : Escape piece c) : 0 < piece.length := by
  refine List.length_pos_iff.2 ?_
  cases h with
  | named | itself | byte => exact List.cons_ne_nil _ _
  | code code => exact code.ne_nil
  | pair => simp

theorem length_pos_of_turn (h : t ∈ lineTurns) : 0 < t.length := by
  have all : ∀ t ∈ lineTurns, 0 < t.length := by decide
  exact all t h

/-- A string is no longer than its literal, and shorter if anything in that is escaped. -/
theorem Denotes.length (h : Denotes q body s) :
    s.length ≤ body.length ∧ ('\\' ∈ body → s.length < body.length) := by
  induction h with
  | nil => simp
  | @plain c body s ordinary _ ih =>
    have other : '\\' ≠ c := by
      rintro rfl
      exact ordinary (by simp)
    simp only [List.length_cons, List.mem_cons, other, false_or]
    exact ⟨by omega, fun escaped => by have := ih.2 escaped; omega⟩
  | escape escape _ ih =>
    have := escape.length_pos
    simp only [List.length_cons, List.length_append]
    omega
  | zero _ _ ih =>
    simp only [List.length_cons]
    omega
  | turn turn _ ih =>
    have := length_pos_of_turn turn
    simp only [List.length_cons, List.length_append]
    omega

/-- The text between the quotes is the string just when it has no backslash. -/
theorem Denotes.eq_iff (h : Denotes q body s) : body = s ↔ '\\' ∉ body := by
  constructor
  · rintro rfl escaped
    exact Nat.lt_irrefl _ (h.length.2 escaped)
  · intro unescaped
    induction h with
    | nil => rfl
    | plain _ _ ih => rw [ih fun escaped => unescaped (List.mem_cons_of_mem _ escaped)]
    | escape | zero | turn => exact absurd List.mem_cons_self unescaped

theorem Quotes.eq_iff {text : List Char} (h : Quotes body s text) : body = s ↔ '\\' ∉ body := by
  obtain ⟨-, denotes⟩ := h
  exact denotes.eq_iff

/-! ### Reading -/

theorem unquote_quoted (hq : q = '"' ∨ q = '\'') (body : List Char) :
    unquote (.ofList (q :: (body ++ [q]))) = .ofList body := by
  have last : (q :: (body ++ [q])).getLast? = some q := by
    rw [← List.cons_append, List.getLast?_concat]
  unfold unquote
  rcases hq with rfl | rfl <;> simp [last]

theorem Quotes.unquote {text : String} (h : Quotes body s text.toList) :
    Literal.unquote text = .ofList body := by
  generalize hcs : text.toList = cs at h
  obtain ⟨quote, -⟩ := h
  rw [← String.ofList_toList (s := text), hcs, unquote_quoted quote]

/-! ### Scanning -/

open Script

section Scanning

variable {cs : List Char} {v : Nat}

/-- What is scanned of a string at a place: an escape, or a character that does not end it. -/
def stringPiece (q : Char) (s : List Char) : Nat :=
  match s with
  | '\\' :: _ => escapeLength s
  | d :: _ => if d == q || d == '\n' || d == '\r' || d == '\x00' then 0 else 1
  | [] => 0

/-- The characters are whole pieces of a string, with `rest` behind them. -/
def Passed (q : Char) (cs rest : List Char) : Prop :=
  ∀ done, piecesLength (stringPiece q) done 0 (cs ++ rest) =
    piecesLength (stringPiece q) (done + cs.length) 0 rest

/-- The rest of a piece under way is passed over. -/
theorem piecesLength_pending (length : List Char → Nat) (done : Nat) (cs rest : List Char) :
    piecesLength length done cs.length (cs ++ rest) = piecesLength length (done + cs.length) 0 rest := by
  induction cs generalizing done with
  | nil => rfl
  | cons c cs ih =>
    rw [List.cons_append, List.length_cons, piecesLength, ih]
    congr 1
    omega

theorem passed_piece (h : stringPiece q (c :: (cs ++ rest)) = cs.length + 1) : Passed q (c :: cs) rest := by
  intro done
  rw [List.cons_append, piecesLength, h]
  simp only
  rw [piecesLength_pending, List.length_cons]
  congr 1
  omega

theorem passed_append {a b : List Char} (first : Passed q a (b ++ rest)) (second : Passed q b rest) :
    Passed q (a ++ b) rest := by
  intro done
  rw [List.append_assoc, first, second, List.length_append, Nat.add_assoc]

/-! ### Escapes -/

theorem isHexDigit_of_isDigit (digit : IsDigit 16 c v) : isHexDigit c = true := by
  have all : ∀ v < 16, isHexDigit v.digitChar = true ∧ isHexDigit v.digitChar.toUpper = true := by
    decide
  obtain ⟨below, rfl | rfl⟩ := digit
  · exact (all v below).1
  · exact (all v below).2

theorem Digits.isHexDigit (h : Digits 16 piece n) (whole : '_' ∉ piece) :
    ∀ c ∈ piece, Script.isHexDigit c = true := by
  induction h with
  | one digit => simpa using isHexDigit_of_isDigit digit
  | next _ digit ih =>
    simp only [List.mem_append, List.mem_singleton, not_or] at whole ⊢
    rintro c (hc | rfl)
    · exact ih whole.1 c hc
    · exact isHexDigit_of_isDigit digit
  | apart => simp at whole

theorem Digits.ne_nil {base : Nat} (h : Digits base piece n) : piece ≠ [] := by
  cases h <;> simp

theorem CodeEscape.length_eq (h : CodeEscape piece n) (rest : List Char) :
    escapeLength ('\\' :: (piece ++ rest)) = piece.length + 1 := by
  cases h with
  | @four ds _ digits whole length =>
    have hex := digits.isHexDigit whole
    match ds, length with
    | [a, b, c, d], _ =>
      simp only [List.cons_append, List.nil_append, escapeLength]
      have first : a ≠ '{' := by
        rintro rfl
        exact absurd (hex '{' (by simp)) (by decide)
      rw [codePointEscapeLength.eq_2 _ _ _ _ _ (by simpa using first), if_pos (List.all_eq_true.2 hex)]
      rfl
  | @braced ds _ digits whole =>
    have hex := digits.isHexDigit whole
    have span : spanLength Script.isHexDigit (ds ++ '}' :: rest) = ds.length := by
      rw [spanLength, Text.takeWhile_stop hex (by decide)]
    simp [escapeLength, codePointEscapeLength, span, digits.ne_nil]

theorem CodeEscape.passed (h : CodeEscape piece n) : Passed q ('\\' :: piece) rest :=
  passed_piece (h.length_eq rest)

theorem exists_octal (h : ('0' ≤ c && c ≤ '7') = true) : ∃ k < 8, Char.ofNat (48 + k) = c := by
  obtain ⟨low, high⟩ := Bool.and_eq_true_iff.1 h
  have above : 48 ≤ c.toNat := of_decide_eq_true low
  have below : c.toNat ≤ 55 := of_decide_eq_true high
  refine ⟨c.toNat - 48, by omega, ?_⟩
  rw [Nat.add_sub_cancel' above, Char.ofNat_toNat]

theorem escapeLength_plain (plain : c ∉ meaningful) (terminated : c ≠ '\x00') (rest : List Char) :
    escapeLength ('\\' :: c :: rest) = 2 := by
  have carriage : c ≠ '\r' := by
    rintro rfl
    exact plain (by decide)
  have hexadecimal : c ≠ 'x' := by
    rintro rfl
    exact plain (by decide)
  have code : c ≠ 'u' := by
    rintro rfl
    exact plain (by decide)
  have octal : ('0' ≤ c && c ≤ '7') = false := by
    have all : ∀ k < 8, Char.ofNat (48 + k) ∈ meaningful := by decide
    refine Bool.eq_false_iff.2 fun h => plain ?_
    obtain ⟨k, below, rfl⟩ := exists_octal h
    exact all k below
  rw [escapeLength.eq_4 _ _ (by simp [carriage]) (by simp [hexadecimal]) code, octal]
  simp [hexadecimal, terminated]

theorem Escape.passed (h : Escape piece c) (terminated : '\x00' ∉ piece) :
    Passed q ('\\' :: piece) rest := by
  cases h with
  | named named =>
    refine passed_piece ?_
    simp only [namedEscapes, List.mem_cons, Prod.mk.injEq, List.not_mem_nil, or_false] at named
    rcases named with ⟨rfl, -⟩ | ⟨rfl, -⟩ | ⟨rfl, -⟩ | ⟨rfl, -⟩ | ⟨rfl, -⟩ | ⟨rfl, -⟩ <;> rfl
  | itself plain =>
    have other : c ≠ '\x00' := fun zero => terminated (by simp [zero])
    exact passed_piece (escapeLength_plain plain other rest)
  | byte high low =>
    refine passed_piece ?_
    simp [stringPiece, escapeLength, isHexDigit_of_isDigit high, isHexDigit_of_isDigit low]
  | code code => exact code.passed
  | pair leading trailing => exact passed_append (a := '\\' :: _) leading.passed trailing.passed

/-- A line end behind a backslash is passed over with it. -/
theorem passed_turn (turn : t ∈ lineTurns) (other : ∀ d ∈ rest.head?, d ≠ '\n') :
    Passed q ('\\' :: t) rest := by
  refine passed_piece ?_
  simp only [lineTurns, List.mem_cons, List.not_mem_nil, or_false] at turn
  rcases turn with rfl | rfl | rfl | rfl | rfl
  · rfl
  · rfl
  · cases rest with
    | nil => rfl
    | cons d rest =>
      have : d ≠ '\n' := other d rfl
      rw [List.cons_append, List.nil_append, stringPiece,
        escapeLength.eq_4 _ _ (by simpa) (by simp) (by simp)]
      rfl
  · rfl
  · rfl

theorem passed_zero (apart : ∀ d ∈ rest.head?, d.isDigit = false) : Passed q ['\\', '0'] rest := by
  refine passed_piece ?_
  have span : spanLength (fun d => '0' ≤ d && d ≤ '7') ('0' :: rest) = 1 := by
    cases rest with
    | nil => rfl
    | cons d rest =>
      have other : ('0' ≤ d && d ≤ '7') = false := by
        have all : ∀ k < 8, (Char.ofNat (48 + k)).isDigit = true := by decide
        refine Bool.eq_false_iff.2 fun h => ?_
        obtain ⟨k, below, rfl⟩ := exists_octal h
        exact Bool.eq_false_iff.1 (apart _ rfl) (all k below)
      simp [spanLength, other]
  simp [stringPiece, escapeLength, span]

theorem Denotes.passed (quote : q = '"' ∨ q = '\'') (h : Denotes q body s) (terminated : '\x00' ∉ body) :
    Passed q body (q :: rest) := by
  induction h with
  | nil => exact fun _ => rfl
  | @plain c body s ordinary _ ih =>
    simp only [List.mem_cons, not_or, List.not_mem_nil, not_false_eq_true, and_true] at ordinary terminated
    refine passed_append (a := [c]) (passed_piece ?_) (ih terminated.2)
    simp [stringPiece, ordinary, Ne.symm terminated.1]
  | @escape piece c body s escape _ ih =>
    simp only [List.mem_cons, List.mem_append, not_or] at terminated
    exact passed_append (a := '\\' :: piece) (escape.passed terminated.2.1) (ih terminated.2.2)
  | @zero body s apart denotes ih =>
    simp only [List.mem_cons, not_or] at terminated
    refine passed_append (a := ['\\', '0']) (passed_zero ?_) (ih terminated.2.2)
    cases body with
    | nil =>
      rintro d ⟨⟩
      rcases quote with rfl | rfl <;> rfl
    | cons => exact apart
  | @turn t body s turn denotes ih =>
    simp only [List.mem_cons, List.mem_append, not_or] at terminated
    refine passed_append (a := '\\' :: t) (passed_turn turn ?_) (ih terminated.2.2)
    -- A line feed behind the line end would belong to it, but no string goes on with one.
    cases denotes with
    | nil =>
      rintro d ⟨⟩
      rcases quote with rfl | rfl <;> decide
    | plain ordinary =>
      rintro d ⟨⟩
      rintro rfl
      exact ordinary (by simp)
    | escape | zero | turn =>
      rintro d ⟨⟩
      decide

/-! ### Whole literals -/

theorem stringLength_quoted (quote : q = '"' ∨ q = '\'') (h : Denotes q body s)
    (terminated : '\x00' ∉ body) (rest : List Char) :
    stringLength q (q :: (body ++ q :: rest)) = body.length + 2 := by
  have scanned : piecesLength (stringPiece q) 0 0 (body ++ q :: rest) = body.length := by
    have stops : stringPiece q (q :: rest) = 0 := by rcases quote with rfl | rfl <;> rfl
    rw [h.passed quote terminated, piecesLength, stops, Nat.zero_add]
  simp only [stringLength, beq_self_eq_true, if_true]
  generalize hk : piecesLength _ 0 0 (body ++ q :: rest) = k
  obtain rfl : k = body.length := hk.symm.trans scanned
  simp

/-- A literal is scanned whole, whatever follows it. -/
theorem Quotes.quotedLength_eq {text : List Char} (h : Quotes body s text) (terminated : '\x00' ∉ body)
    (rest : List Char) : quotedLength (text ++ rest) = text.length := by
  obtain @⟨q, quote, denotes⟩ := h
  have whole := stringLength_quoted quote denotes terminated rest
  have other : ∀ q', q' ≠ q → stringLength q' (q :: (body ++ q :: rest)) = 0 := fun q' different => by
    simp [stringLength, different.symm]
  have length : (q :: (body ++ [q])).length = body.length + 2 := by simp
  rw [length, List.cons_append, List.append_assoc, List.singleton_append, quotedLength]
  rcases quote with rfl | rfl
  · rw [whole, other '\'' (by decide), Nat.max_zero]
  · rw [whole, other '"' (by decide), Nat.zero_max]

theorem rest_advance (k : Nat) (here : Grammar.Cursor) : (here.advance k).rest = here.rest.drop k := by
  induction k generalizing here with
  | zero => rfl
  | succ k ih =>
    unfold Grammar.Cursor.advance
    split
    · next ended => rw [ended, List.drop_nil]
    · next following => rw [ih, following, List.drop_succ_cons]

/-- A literal behind blanks and comments is read as one leaf that has its text. -/
theorem Quotes.read {text : List Char} (h : Quotes body s text) (terminated : '\x00' ∉ body)
    {here : Grammar.Cursor} (faces : (skipTrivia here).rest = text ++ rest) :
    ∃ reader leaf behind, quoted = .read reader ∧ reader here = some ([leaf], behind) ∧
      leaf.kind = .stringLiteral ∧ leaf.text = .ofList text ∧ behind.rest = rest := by
  have length : quotedLength (skipTrivia here).rest = text.length := by
    rw [faces, h.quotedLength_eq terminated]
  obtain ⟨k, hk⟩ : ∃ k, text.length = k + 1 := by
    cases h
    exact ⟨_, List.length_cons⟩
  refine ⟨_, _, _, rfl,
    (?_ : _ = some (leafOf (fun _ => .stringLiteral) text.length (skipTrivia here))), rfl, ?_, ?_⟩
  · simp only [length, hk]
  · rw [faces, List.take_left]
  · rw [rest_advance, faces, List.drop_left]

end Scanning

end RepoDocs.Literal
