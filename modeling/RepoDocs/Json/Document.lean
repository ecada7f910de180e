import RepoDocs.Json.Value

/-! JSON text as a document: what was read of it up to the first place that is not JSON, with the
marks that an error message gives.  A document is read once; the values asked for are then looked up
in it, so that of two faults the one that stands first in the text is reported. -/

namespace RepoDocs.Json

/-- A place in a text: its line, counted from 1, and the bytes before it on that line.  Line 0 is no
place. -/
structure Mark where
  line : Nat
  column : Nat
  deriving Repr, DecidableEq, Inhabited

/-- No place. -/
def Mark.none : Mark := ⟨0, 0⟩

/-- The place behind a character. -/
def Mark.after (m : Mark) (c : Char) : Mark :=
  if c = '\n' then ⟨m.line + 1, 0⟩ else ⟨m.line, m.column + c.utf8Size⟩

/-- Why a text is not the value asked for. -/
inductive Cause where
  | expectedValue
  | expectedIdent
  | expectedColon
  | expectedListCommaOrEnd
  | expectedObjectCommaOrEnd
  | keyMustBeString
  | trailingCharacters
  | trailingComma
  | invalidNumber
  | numberOutOfRange
  | invalidEscape
  | unexpectedEndOfHexEscape
  | loneLeadingSurrogate
  | controlCharacter
  | recursionLimit
  | eofInValue
  | eofInList
  | eofInObject
  | eofInString
  | missingField (name : String)
  | duplicateField (name : String)
  | unknownVariant (found : String) (expected : List String)
  | invalidType (found expected : String)
  | invalidValue (found expected : String)
  | invalidLength (length : Nat) (expected : String)
  | custom (message : String)
  deriving Repr, DecidableEq

/-- Whether a text ends too soon, is not JSON, or is JSON for another value. -/
inductive Category where
  | syntactic
  | data
  | eof
  deriving Repr, DecidableEq

def Cause.category : Cause → Category
  | eofInValue | eofInList | eofInObject | eofInString => .eof
  | missingField _ | duplicateField _ | unknownVariant _ _ | invalidType _ _ | invalidValue _ _
  | invalidLength _ _ | custom _ => .data
  | _ => .syntactic

/-- Names in backticks: two joined by `or`, more after `one of`. -/
def expectedNames : List String → String
  | [a] => s!"`{a}`"
  | [a, b] => s!"`{a}` or `{b}`"
  | names => "one of " ++ ", ".intercalate (names.map fun n => s!"`{n}`")

def Cause.message : Cause → String
  | expectedValue => "expected value"
  | expectedIdent => "expected ident"
  | expectedColon => "expected `:`"
  | expectedListCommaOrEnd => "expected `,` or `]`"
  | expectedObjectCommaOrEnd => "expected `,` or `\x7d`"
  | keyMustBeString => "key must be a string"
  | trailingCharacters => "trailing characters"
  | trailingComma => "trailing comma"
  | invalidNumber => "invalid number"
  | numberOutOfRange => "number out of range"
  | invalidEscape => "invalid escape"
  | unexpectedEndOfHexEscape => "unexpected end of hex escape"
  | loneLeadingSurrogate => "lone leading surrogate in hex escape"
  | controlCharacter => "control character (\\u0000-\\u001F) found while parsing a string"
  | recursionLimit => "recursion limit exceeded"
  | eofInValue => "EOF while parsing a value"
  | eofInList => "EOF while parsing a list"
  | eofInObject => "EOF while parsing an object"
  | eofInString => "EOF while parsing a string"
  | missingField name => s!"missing field `{name}`"
  | duplicateField name => s!"duplicate field `{name}`"
  | unknownVariant found expected =>
    s!"unknown variant `{found}`, expected {expectedNames expected}"
  | invalidType found expected => s!"invalid type: {found}, expected {expected}"
  | invalidValue found expected => s!"invalid value: {found}, expected {expected}"
  | invalidLength length expected => s!"invalid length {length}, expected {expected}"
  | custom message => message

/-- A cause and the place where it was noticed. -/
structure Fault where
  cause : Cause
  mark : Mark
  deriving Repr, DecidableEq

/-- The message of a fault without its place. -/
def Fault.message (f : Fault) : String := f.cause.message

/-- The message of a fault with its place, if it has one. -/
def Fault.located (f : Fault) : String :=
  if f.mark.line = 0 then f.cause.message
  else s!"{f.cause.message} at line {f.mark.line} column {f.mark.column}"

/-- How the items of an array or object come to their end: at the closing bracket, or at a fault.
What is said of the fault depends on whether the value was asked for or skipped. -/
inductive Ending where
  | closed (stop : Mark)
  | broken (asked skipped : Fault)
  deriving Repr

/-- A JSON text as far as it could be read. -/
inductive Doc where
  | null (start stop : Mark)
  | bool (b : Bool) (start stop : Mark)
  | number (n : Number) (start stop : Mark)
  | string (s : String) (start stop : Mark)
  | array (items : List Doc) (start : Mark) (ending : Ending)
  /-- Fields with the place behind each key. -/
  | object (fields : List (String × Mark × Doc)) (start : Mark) (ending : Ending)
  /-- A number or string that has no value, though the text goes on behind it. -/
  | unreadable (fault : Fault)
  /-- The place where the text stops being JSON. -/
  | broken (asked skipped : Fault)
  deriving Inhabited

/-! ### Reading -/

/-- What is left of a text, and where it starts. -/
structure Reader where
  rest : List Char
  mark : Mark := ⟨1, 0⟩

namespace Reader

/-- The reader behind the next character. -/
def next (r : Reader) : Reader :=
  match r.rest with
  | [] => r
  | c :: rest => ⟨rest, r.mark.after c⟩

/-- The reader behind the next `n` characters. -/
def drop : Nat → Reader → Reader
  | 0, r => r
  | n + 1, r => drop n r.next

/-- The place that an error about the next character gives. -/
def peekMark (r : Reader) : Mark :=
  match r.rest with
  | [] => r.mark
  | c :: _ => if c = '\n' then ⟨r.mark.line + 1, 0⟩ else ⟨r.mark.line, r.mark.column + 1⟩

def isBlank (c : Char) : Bool := c = ' ' || c = '\n' || c = '\t' || c = '\r'

/-- The reader behind the blanks. -/
def skipBlanks (r : Reader) : Reader := r.drop (r.rest.takeWhile isBlank).length

/-- A fault at the next character. -/
def peekFault (r : Reader) (cause : Cause) : Fault := ⟨cause, r.peekMark⟩

/-- A fault right here. -/
def fault (r : Reader) (cause : Cause) : Fault := ⟨cause, r.mark⟩

end Reader

/-- A fault that is the same whether the value was asked for or skipped. -/
def Doc.brokenAt (f : Fault) : Doc := .broken f f

/-! ### Numbers -/

/-- The digits at the start of a text. -/
def digitsOf (s : List Char) : List Nat :=
  (s.takeWhile Char.isDigit).map fun c => c.toNat - 48

/-- The largest number of 64 bits. -/
def maxWord : Nat := Nat.pow 2 64 - 1

/-- As many of the digits as a word holds after `n`, and the number of digits left. -/
def takeDigits (n : Nat) : List Nat → Nat × Nat
  | [] => (n, 0)
  | d :: ds => if maxWord < n * 10 + d then (n, ds.length + 1) else takeDigits (n * 10 + d) ds

/-- A power of ten as a double. -/
def powerOfTen (k : Nat) : Float := Float.ofScientific 1 false k

/-- `f * 10 ^ e`, scaled in steps that keep within the powers of ten that doubles have; `none` where
the result is too large. -/
def scaleBy : Nat → Float → Int → Option Float
  | 0, _, _ => some 0
  | fuel + 1, f, e =>
    if e.natAbs ≤ 308 then
      if 0 ≤ e then
        let x := f * powerOfTen e.natAbs
        if x.isInf then none else some x
      else some (f / powerOfTen e.natAbs)
    else if f == 0.0 then some f
    else if 0 ≤ e then none
    else scaleBy fuel (f / powerOfTen 308) (e + 308)

/-- The double `significand * 10 ^ exponent` with a sign. -/
def floatOfParts (negative : Bool) (significand : Nat) (exponent : Int) : Option Float :=
  (scaleBy 8 (UInt64.ofNat significand).toFloat exponent).map fun x => if negative then -x else x

/-- The value of an exponent, with its sign, unless it does not fit 32 bits. -/
def exponentOf (negative : Bool) (digits : List Nat) : Option Int :=
  let n : Nat := digits.foldl (fun n d => n * 10 + d) 0
  if n < Nat.pow 2 31 then some (if negative then -(n : Int) else n) else none

/-- The parts of a number's text. -/
structure NumberParts where
  negative : Bool
  whole : List Nat
  fraction : Option (List Nat) := none
  exponent : Option (Bool × List Nat) := none

/-- The value of a number; `none` when it is too large for a double.  A whole number keeps its value
if it fits 64 bits, and becomes a double otherwise. -/
def NumberParts.value (p : NumberParts) : Option Number :=
  let (n, skipped) := takeDigits 0 p.whole
  let (significand, fractionDigits) :=
    match p.fraction with
    | none => (n, 0)
    | some ds =>
      let (m, unused) := takeDigits n ds
      (m, ds.length - unused)
  let scale : Int := (skipped : Int) - fractionDigits
  match p.fraction, p.exponent with
  | none, none =>
    if skipped ≠ 0 then (floatOfParts p.negative significand scale).map .float
    else if !p.negative then some (.whole significand)
    else if significand = 0 || Nat.pow 2 63 < significand then
      some (.float (-(UInt64.ofNat significand).toFloat))
    else some (.whole (-(significand : Int)))
  | _, none => (floatOfParts p.negative significand scale).map .float
  | _, some (negativeExponent, ds) =>
    match exponentOf negativeExponent ds with
    | some e => (floatOfParts p.negative significand (scale + e)).map .float
    | none =>
      if significand ≠ 0 && !negativeExponent then none
      else some (.float (if p.negative then -0.0 else 0.0))

/-- The exponent of a number, if one starts here. -/
def readExponent (r : Reader) : Except (Fault × Fault) (Option (Bool × List Nat) × Reader) :=
  match r.rest with
  | e :: _ =>
    if e = 'e' || e = 'E' then
      let r := r.next
      let (negative, r) : Bool × Reader :=
        match r.rest with
        | '+' :: _ => (false, r.next)
        | '-' :: _ => (true, r.next)
        | _ => (false, r)
      let ds := digitsOf r.rest
      if ds.isEmpty then
        let skipped := r.next.fault .invalidNumber
        .error (if r.rest.isEmpty then (r.fault .eofInValue, skipped) else (skipped, skipped))
      else .ok (some (negative, ds), r.drop ds.length)
    else .ok (none, r)
  | [] => .ok (none, r)

/-- The fraction of a number, if one starts here. -/
def readFraction (r : Reader) : Except (Fault × Fault) (Option (List Nat) × Reader) :=
  match r.rest with
  | '.' :: _ =>
    let r := r.next
    let ds := digitsOf r.rest
    if ds.isEmpty then
      let skipped := r.peekFault .invalidNumber
      .error (if r.rest.isEmpty then (r.peekFault .eofInValue, skipped) else (skipped, skipped))
    else .ok (some ds, r.drop ds.length)
  | _ => .ok (none, r)

/-- The whole part of a number: a lone zero, or digits that do not start with one. -/
def readWhole (r : Reader) : Except (Fault × Fault) (List Nat × Reader) :=
  match digitsOf r.rest with
  | [] =>
    let skipped := r.next.fault .invalidNumber
    .error (if r.rest.isEmpty then (r.fault .eofInValue, skipped) else (skipped, skipped))
  | 0 :: _ :: _ =>
    let f := r.next.peekFault .invalidNumber
    .error (f, f)
  | ds => .ok (ds, r.drop ds.length)

/-- The number that starts here. -/
def readNumber (r : Reader) : Doc × Option Reader :=
  let (negative, start) : Bool × Reader :=
    match r.rest with
    | '-' :: _ => (true, r.next)
    | _ => (false, r)
  let parts : Except (Fault × Fault) (NumberParts × Reader) := do
    let (whole, r1) ← readWhole start
    let (fraction, r2) ← readFraction r1
    let (exponent, r3) ← readExponent r2
    return ({ negative, whole, fraction, exponent }, r3)
  match parts with
  | .error (asked, skipped) => (.broken asked skipped, none)
  | .ok (p, stop) =>
    match p.value with
    | some n => (.number n r.mark stop.mark, some stop)
    | none => (.unreadable (stop.fault .numberOutOfRange), some stop)

/-! ### Strings -/

/-- The value of a hexadecimal digit. -/
def hexValue? (c : Char) : Option Nat :=
  if c.isDigit then some (c.toNat - 48)
  else if 'a' ≤ c && c ≤ 'f' then some (c.toNat - 87)
  else if 'A' ≤ c && c ≤ 'F' then some (c.toNat - 55)
  else none

/-- The number that four hexadecimal digits give, and the reader behind them. -/
def readHex (r : Reader) : Except Fault (Nat × Reader) :=
  match r.rest with
  | a :: b :: c :: d :: _ =>
    match hexValue? a, hexValue? b, hexValue? c, hexValue? d with
    | some a, some b, some c, some d => .ok (((a * 16 + b) * 16 + c) * 16 + d, r.drop 4)
    | _, _, _, _ => .error ((r.drop 4).fault .invalidEscape)
  | _ => .error ((r.drop 4).fault .eofInString)

/-- What an escape stands for: a character, or a fault that leaves the string without a value. -/
inductive Escaped where
  | char (c : Char)
  | lone (fault : Fault)

/-- The escape behind a backslash. -/
def readEscape (r : Reader) : Except Fault (Escaped × Reader) :=
  let simple (c : Char) : Except Fault (Escaped × Reader) := .ok (.char c, r.next)
  match r.rest with
  | [] => .error (r.fault .eofInString)
  | '"' :: _ => simple '"'
  | '\\' :: _ => simple '\\'
  | '/' :: _ => simple '/'
  | 'b' :: _ => simple '\x08'
  | 'f' :: _ => simple '\x0c'
  | 'n' :: _ => simple '\n'
  | 'r' :: _ => simple '\r'
  | 't' :: _ => simple '\t'
  | 'u' :: _ => do
    let (n, r1) ← readHex r.next
    if 0xDC00 ≤ n && n ≤ 0xDFFF then return (.lone (r1.fault .loneLeadingSurrogate), r1)
    else if n < 0xD800 || 0xDBFF < n then return (.char (Char.ofNat n), r1)
    else
      match r1.rest with
      | [] => .error (r1.fault .eofInString)
      | '\\' :: [] => .error (r1.next.fault .eofInString)
      | '\\' :: 'u' :: _ => do
        let (m, r2) ← readHex (r1.drop 2)
        if m < 0xDC00 || 0xDFFF < m then return (.lone (r2.fault .loneLeadingSurrogate), r2)
        else return (.char (Char.ofNat ((n - 0xD800) * 1024 + (m - 0xDC00) + 0x10000)), r2)
      | '\\' :: _ => return (.lone ((r1.drop 2).fault .unexpectedEndOfHexEscape), r1)
      | _ => return (.lone (r1.next.fault .unexpectedEndOfHexEscape), r1)
  | _ => .error (r.next.fault .invalidEscape)

/-- The characters up to the closing quote, the first of the escapes that stand for none, and the
reader behind the quote. -/
def readChars : Nat → List Char → Option Fault → Reader →
    Except Fault (List Char × Option Fault × Reader)
  | 0, _, _, r => .error (r.fault .eofInString)
  | fuel + 1, done, lone, r =>
    match r.rest with
    | [] => .error (r.fault .eofInString)
    | '"' :: _ => .ok (done.reverse, lone, r.next)
    | '\\' :: _ =>
      match readEscape r.next with
      | .ok (.char c, r) => readChars fuel (c :: done) lone r
      | .ok (.lone f, r) => readChars fuel done (lone <|> some f) r
      | .error f => .error f
    | c :: _ =>
      if c.toNat < 32 then .error (r.next.fault .controlCharacter)
      else readChars fuel (c :: done) lone r.next

/-- The string whose opening quote stands here. -/
def readString (fuel : Nat) (r : Reader) : Except Fault (List Char × Option Fault × Reader) :=
  readChars fuel [] none r.next

/-! ### Values -/

/-- A word with a meaning of its own. -/
def readLiteral (w : String) (make : Mark → Mark → Doc) (r : Reader) : Doc × Option Reader :=
  let rec go : List Char → Reader → Option Fault × Reader
    | [], r => (none, r)
    | c :: cs, r =>
      match r.rest with
      | [] => (some (r.fault .eofInValue), r)
      | d :: _ => if c = d then go cs r.next else (some (r.next.fault .expectedIdent), r)
  match go w.toList r with
  | (none, stop) => (make r.mark stop.mark, some stop)
  | (some f, _) => (.brokenAt f, none)

mutual

/-- The value that starts here, behind blanks. -/
def readValue : Nat → Reader → Doc × Option Reader
  | 0, r => (.brokenAt (r.fault .eofInValue), none)
  | fuel + 1, r =>
    let r := r.skipBlanks
    match r.rest with
    | [] => (.brokenAt (r.peekFault .eofInValue), none)
    | 'n' :: _ => readLiteral "null" .null r
    | 't' :: _ => readLiteral "true" (.bool true) r
    | 'f' :: _ => readLiteral "false" (.bool false) r
    | '"' :: _ =>
      match readString fuel r with
      | .ok (cs, none, stop) => (.string (String.ofList cs) r.mark stop.mark, some stop)
      | .ok (_, some f, stop) => (.unreadable f, some stop)
      | .error f => (.brokenAt f, none)
    | '[' :: _ =>
      let (items, ending, stop) := readItems fuel true r.next
      (.array items r.mark ending, stop)
    | '{' :: _ =>
      let (fields, ending, stop) := readFields fuel true r.next
      (.object fields r.mark ending, stop)
    | c :: _ =>
      if c = '-' || c.isDigit then readNumber r
      else (.brokenAt (r.peekFault .expectedValue), none)

/-- The items up to the closing bracket. -/
def readItems : Nat → Bool → Reader → List Doc × Ending × Option Reader
  | 0, _, r => ([], .broken (r.fault .eofInList) (r.fault .eofInList), none)
  | fuel + 1, first, r =>
    let r := r.skipBlanks
    let item (r : Reader) : List Doc × Ending × Option Reader :=
      match readValue fuel r with
      | (doc, some r) =>
        let (items, ending, stop) := readItems fuel false r
        (doc :: items, ending, stop)
      | (doc, none) => ([doc], .closed r.mark, none)
    let stopped (asked skipped : Fault) : List Doc × Ending × Option Reader :=
      ([], .broken asked skipped, none)
    match r.rest with
    | [] => stopped (r.peekFault .eofInList) (r.peekFault .eofInList)
    | ']' :: _ => ([], .closed r.next.mark, some r.next)
    | c :: _ =>
      if first then item r
      else if c = ',' then
        let r := r.next.skipBlanks
        match r.rest with
        | [] => stopped (r.peekFault .eofInValue) (r.peekFault .eofInValue)
        | ']' :: _ => stopped (r.peekFault .trailingComma) (r.peekFault .expectedValue)
        | _ => item r
      else
        let f := r.peekFault .expectedListCommaOrEnd
        stopped f f

/-- The fields up to the closing brace. -/
def readFields : Nat → Bool → Reader → List (String × Mark × Doc) × Ending × Option Reader
  | 0, _, r => ([], .broken (r.fault .eofInObject) (r.fault .eofInObject), none)
  | fuel + 1, first, r =>
    let r := r.skipBlanks
    let stopped (asked skipped : Fault) : List (String × Mark × Doc) × Ending × Option Reader :=
      ([], .broken asked skipped, none)
    let field (r : Reader) : List (String × Mark × Doc) × Ending × Option Reader :=
      match readString fuel r with
      | .error f => stopped f f
      | .ok (_, some f, _) => stopped f f
      | .ok (cs, none, r) =>
        let key := String.ofList cs
        let r := r.skipBlanks
        match r.rest with
        | ':' :: _ =>
          match readValue fuel r.next with
          | (doc, some stop) =>
            let (fields, ending, stop) := readFields fuel false stop
            ((key, r.mark, doc) :: fields, ending, stop)
          | (doc, none) => ([(key, r.mark, doc)], .closed r.mark, none)
        | [] => ([(key, r.mark, .brokenAt (r.peekFault .eofInObject))], .closed r.mark, none)
        | _ => ([(key, r.mark, .brokenAt (r.peekFault .expectedColon))], .closed r.mark, none)
    match r.rest with
    | [] => stopped (r.peekFault .eofInObject) (r.peekFault .eofInObject)
    | '}' :: _ => ([], .closed r.next.mark, some r.next)
    | c :: _ =>
      if first then
        if c = '"' then field r
        else stopped (r.peekFault .keyMustBeString) (r.peekFault .keyMustBeString)
      else if c = ',' then
        let r := r.next.skipBlanks
        match r.rest with
        | [] => stopped (r.peekFault .eofInValue) (r.peekFault .eofInObject)
        | '"' :: _ => field r
        | '}' :: _ => stopped (r.peekFault .trailingComma) (r.peekFault .keyMustBeString)
        | _ => stopped (r.peekFault .keyMustBeString) (r.peekFault .keyMustBeString)
      else
        let f := r.peekFault .expectedObjectCommaOrEnd
        stopped f f

end

/-- A text read as one value, with what is left of it unless it broke off. -/
def readDocument (text : List Char) : Doc × Option Reader :=
  readValue (2 * text.length + 2) { rest := text }

namespace Doc

mutual

/-- The document of a value that was never a text. -/
def ofValue : Value → Doc
  | .null => .null .none .none
  | .bool b => .bool b .none .none
  | .number n => .number n .none .none
  | .string s => .string s .none .none
  | .array items => .array (ofItems items) .none (.closed .none)
  | .object fields => .object (ofFields fields) .none (.closed .none)

def ofItems : List Value → List Doc
  | [] => []
  | v :: rest => ofValue v :: ofItems rest

def ofFields : List (String × Value) → List (String × Mark × Doc)
  | [] => []
  | (k, v) :: rest => (k, .none, ofValue v) :: ofFields rest

end

end Doc

end RepoDocs.Json
