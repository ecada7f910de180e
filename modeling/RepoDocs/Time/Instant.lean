import RepoDocs.Json.Decode
import RepoDocs.Text.Blank

/-! Points in time and their text: a date and a time of day in the Gregorian calendar with an offset
from UTC.  Instants are written in UTC. -/

namespace RepoDocs

open Json

/-- A point in time: seconds since the start of 1970 in UTC and a fraction in nanoseconds.  A fraction
of a second or more lies in the leap second behind. -/
structure Instant where
  seconds : Int
  nanos : Nat
  deriving DecidableEq, Repr

namespace Instant

/-! ### The calendar -/

/-- The days from the start of 1970 to a date, where months are counted from 1. -/
def daysOfDate (year month day : Int) : Int :=
  let y := if month ≤ 2 then year - 1 else year
  let era := y / 400
  let yearOfEra := y - era * 400
  let dayOfYear := (153 * (if 2 < month then month - 3 else month + 9) + 2) / 5 + day - 1
  let dayOfEra := yearOfEra * 365 + yearOfEra / 4 - yearOfEra / 100 + dayOfYear
  era * 146097 + dayOfEra - 719468

/-- The year, month and day so many days after the start of 1970. -/
def dateOfDays (days : Int) : Int × Int × Int :=
  let z := days + 719468
  let era := z / 146097
  let dayOfEra := z - era * 146097
  let yearOfEra := (dayOfEra - dayOfEra / 1460 + dayOfEra / 36524 - dayOfEra / 146096) / 365
  let dayOfYear := dayOfEra - (365 * yearOfEra + yearOfEra / 4 - yearOfEra / 100)
  let shifted := (5 * dayOfYear + 2) / 153
  let day := dayOfYear - (153 * shifted + 2) / 5 + 1
  let month := if shifted < 10 then shifted + 3 else shifted - 9
  let year := yearOfEra + era * 400 + (if month ≤ 2 then 1 else 0)
  (year, month, day)

def isLeapYear (year : Int) : Bool :=
  year % 4 = 0 && (year % 100 ≠ 0 || year % 400 = 0)

/-- The number of days of a month. -/
def daysInMonth (year month : Int) : Int :=
  if month = 2 then (if isLeapYear year then 29 else 28)
  else if month = 4 || month = 6 || month = 9 || month = 11 then 30
  else 31

/-! ### Writing -/

/-- A number with zeros in front up to a width. -/
def padded (width n : Nat) : List Char :=
  let digits := Nat.toDigits 10 n
  List.replicate (width - digits.length) '0' ++ digits

/-- The fraction of a second in as many groups of three digits as it needs. -/
def fractionText (nanos : Nat) : List Char :=
  if nanos = 0 then []
  else if nanos % 1000000 = 0 then '.' :: padded 3 (nanos / 1000000)
  else if nanos % 1000 = 0 then '.' :: padded 6 (nanos / 1000)
  else '.' :: padded 9 nanos

/-- A year of four digits, or a signed one. -/
def yearText (year : Int) : List Char :=
  if 0 ≤ year && year ≤ 9999 then padded 4 year.toNat
  else (if year < 0 then '-' else '+') :: padded 4 year.natAbs

/-- The date and time of an instant in UTC. -/
def text (t : Instant) : String :=
  let (year, month, day) := dateOfDays (t.seconds / 86400)
  let second := (t.seconds % 86400).toNat
  let leap := if 1000000000 ≤ t.nanos then 1 else 0
  String.ofList <| yearText year ++ '-' :: padded 2 month.toNat ++ '-' :: padded 2 day.toNat ++
    'T' :: padded 2 (second / 3600) ++ ':' :: padded 2 (second / 60 % 60) ++
    ':' :: padded 2 (second % 60 + leap) ++ fractionText (t.nanos % 1000000000) ++ ['Z']

/-! ### Reading -/

/-- Why a text is no instant. -/
inductive Misread where
  | invalid
  | tooShort
  | tooLong
  | outOfRange

def Misread.message : Misread → String
  | invalid => "input contains invalid characters"
  | tooShort => "premature end of input"
  | tooLong => "trailing input"
  | outOfRange => "input is out of range"

/-- The number that up to `width` digits give, and what follows them. -/
def number (width : Nat) (s : List Char) : Except Misread (Nat × List Char) :=
  match (s.take width).takeWhile Char.isDigit with
  | [] => .error (if s.isEmpty then .tooShort else .invalid)
  | ds => .ok (ds.foldl (fun n c => n * 10 + (c.toNat - 48)) 0, s.drop ds.length)

/-- The number that exactly two digits give. -/
def twoDigits : List Char → Except Misread (Nat × List Char)
  | a :: b :: rest =>
    if a.isDigit && b.isDigit then .ok ((a.toNat - 48) * 10 + (b.toNat - 48), rest)
    else .error .invalid
  | _ => .error .tooShort

/-- What follows a given character. -/
def expect (c : Char) : List Char → Except Misread (List Char)
  | [] => .error .tooShort
  | d :: rest => if c = d then .ok rest else .error .invalid

/-- A year, whose digits may be more than four behind a sign. -/
def readYear (s : List Char) : Except Misread (Int × List Char) :=
  match s with
  | '-' :: rest => (number rest.length rest).map fun (n, rest) => (-(n : Int), rest)
  | '+' :: rest => (number rest.length rest).map fun (n, rest) => ((n : Int), rest)
  | s => (number 4 s).map fun (n, rest) => ((n : Int), rest)

/-- The nanoseconds that a fraction gives, of which the first nine digits count. -/
def readFraction : List Char → Except Misread (Nat × List Char)
  | '.' :: rest => do
    let (n, _) ← number 9 rest
    let digits := rest.takeWhile Char.isDigit
    pure (n * Nat.pow 10 (9 - digits.length), rest.drop digits.length)
  | rest => pure (0, rest)

/-- An offset from UTC in seconds: a letter Z, the name UTC, or signed hours and minutes. -/
def readOffset (s : List Char) : Except Misread (Int × List Char) :=
  let signed (sign : Int) (rest : List Char) : Except Misread (Int × List Char) := do
    let (h, r) ← twoDigits rest
    let (m, r) ← twoDigits (r.dropWhile fun c => c = ':' || Text.isBlank c)
    if 59 < m then .error .outOfRange
    else pure (sign * (h * 3600 + m * 60), r)
  match s with
  | [] => .error .tooShort
  | 'Z' :: rest | 'z' :: rest => pure (0, rest)
  | '+' :: rest => signed 1 rest
  | '-' :: rest => signed (-1) rest
  | '−' :: rest => signed (-1) rest
  | u :: t :: c :: rest =>
    if [u, t, c].map Char.toLower = ['u', 't', 'c'] then pure (0, rest) else .error .invalid
  | _ => .error .invalid

/-- What follows the separator of a date and a time. -/
def dropSeparator : List Char → Except Misread (List Char)
  | [] => .error .tooShort
  | c :: rest => if c = 'T' || c = 't' || c = ' ' then .ok rest else .error .invalid

/-- The instant that a text with a date, a time and an offset names.  Blanks may stand before each
number and sign. -/
def parse (text : String) : Except Misread Instant := do
  let (year, s) ← readYear (Text.trimStart text.toList)
  let (month, s) ← number 2 (Text.trimStart (← expect '-' (Text.trimStart s)))
  let (day, s) ← number 2 (Text.trimStart (← expect '-' (Text.trimStart s)))
  let s ← dropSeparator s
  let (hour, s) ← number 2 (Text.trimStart s)
  let (minute, s) ← number 2 (Text.trimStart (← expect ':' (Text.trimStart s)))
  let (second, s) ← number 2 (Text.trimStart (← expect ':' (Text.trimStart s)))
  let (nanos, s) ← readFraction s
  let (offset, s) ← readOffset (Text.trimStart s)
  if !(Text.trimStart s).isEmpty then .error .tooLong
  if month < 1 || 12 < month || day < 1 || daysInMonth year month < day || 23 < hour ||
      59 < minute || 60 < second || 262142 < year.natAbs || 86400 ≤ offset.natAbs then
    .error .outOfRange
  let leap : Nat := if second = 60 then 1 else 0
  let seconds : Int := daysOfDate year month day * 86400 + hour * 3600 + minute * 60 + second
  pure ⟨seconds - leap - offset, nanos + leap * 1000000000⟩

/-! ### JSON -/

def toJson (t : Instant) : Value := .string t.text

def decoder : Decoder Instant := fun _ d =>
  match d with
  | .string s _ stop =>
    match parse s with
    | .ok t => .ok t
    | .error e => .error ⟨.custom e.message, stop⟩
  | d => .error (d.mismatch "an RFC 3339 formatted date and time string")

end Instant

end RepoDocs
