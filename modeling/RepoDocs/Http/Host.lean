import RepoDocs.Text.Split

/-! The hosts of addresses: domain names and numbers of machines, brought into their one written
form. -/

namespace RepoDocs.Http.Host

open Text

/-- Whether a character may not stand in a domain name. -/
def isForbidden (c : Char) : Bool :=
  c.toNat ≤ 0x20 || c.toNat = 0x7F || "#/:<>?@[\\]^|%".toList.contains c

/-! ### Names with letters outside ASCII -/

/-- The digit of base 36 with a value: the letters, and then the figures. -/
def base36 (n : Nat) : Char :=
  if n < 26 then Char.ofNat (97 + n) else Char.ofNat (22 + n)

/-- The step from one bias to the next, given the gap just written and the number of characters
written by then. -/
def adapt (gap written : Nat) (first : Bool) : Nat :=
  let rec scale : Nat → Nat → Nat → Nat
    | 0, d, k => k + 36 * d / (d + 38)
    | fuel + 1, d, k => if 455 < d then scale fuel (d / 35) (k + 36) else k + 36 * d / (d + 38)
  let d := if first then gap / 700 else gap / 2
  scale 64 (d + d / written) 0

/-- A gap in digits of a mixed base that depends on the bias. -/
def gapDigits (bias : Nat) : Nat → Nat → Nat → List Char
  | 0, _, _ => []
  | fuel + 1, k, q =>
    let t := if k ≤ bias then 1 else if bias + 26 ≤ k then 26 else k - bias
    if q < t then [base36 q]
    else base36 (t + (q - t) % (36 - t)) :: gapDigits bias fuel (k + 36) ((q - t) / (36 - t))

/-- What has been written of the characters outside ASCII. -/
structure Encoding where
  next : Nat
  gap : Nat
  bias : Nat
  written : Nat
  first : Bool
  digits : List Char

/-- Write the gaps of all characters that have the code `m`. -/
def encodeCode (m : Nat) (label : List Nat) (e : Encoding) : Encoding :=
  let e := { e with gap := e.gap + (m - e.next) * (e.written + 1) }
  let e := label.foldl (fun e c =>
    if c < m then { e with gap := e.gap + 1 }
    else if c = m then
      { e with
        digits := e.digits ++ gapDigits e.bias 64 36 e.gap
        bias := adapt e.gap (e.written + 1) e.first
        gap := 0
        written := e.written + 1
        first := false }
    else e) e
  { e with next := m + 1, gap := e.gap + 1 }

/-- A label in ASCII: its ASCII characters, and digits that say where the others stand. -/
def asciiLabel (label : List Char) : List Char :=
  if label.all (·.toNat < 128) then label
  else
    let codes := label.map Char.toNat
    let basic := label.filter (·.toNat < 128)
    let others := (codes.filter (128 ≤ ·)).mergeSort (· ≤ ·)
    let start : Encoding := ⟨128, 0, 72, basic.length, true, []⟩
    let e := others.eraseDups.foldl (fun e m => encodeCode m codes e) start
    "xn--".toList ++ basic ++ (if basic.isEmpty then [] else ['-']) ++ e.digits

/-! ### Numbers -/

/-- The number that a part of an address gives: in base 16 behind `0x`, in base 8 behind `0`. -/
def partNumber? (part : List Char) : Option Nat :=
  let digits (base : Nat) (ds : List Char) : Option Nat :=
    ds.foldlM (fun n c =>
      let v := if c.isDigit then c.toNat - 48 else if 'a' ≤ c && c ≤ 'f' then c.toNat - 87 else 16
      if v < base then some (n * base + v) else none) 0
  match part with
  | [] => none
  | '0' :: 'x' :: ds => digits 16 ds
  | '0' :: d :: ds => digits 8 (d :: ds)
  | ds => digits 10 ds

/-- The parts of a name without the empty one behind a last dot. -/
def parts (name : List Char) : List (List Char) :=
  let ps := splitAtEach (· == '.') name
  if 1 < ps.length && ps.getLast? = some [] then ps.dropLast else ps

/-- Whether the last part of a name makes it the number of a machine. -/
def isNumeric (name : List Char) : Bool :=
  match (parts name).getLast? with
  | some last =>
    (!last.isEmpty && last.all Char.isDigit) || ("0x".toList.isPrefixOf last && (partNumber? last).isSome)
  | none => false

/-- The number of a machine in four parts.  The last part that is given stands for all that follow. -/
def machine? (name : List Char) : Option (List Char) := do
  let numbers ← (parts name).mapM partNumber?
  let last ← numbers.getLast?
  let front := numbers.dropLast
  if 3 < front.length || front.any (255 < ·) || Nat.pow 256 (4 - front.length) ≤ last then none
  let value := (front.zipIdx.map fun (n, i) => n * Nat.pow 256 (3 - i)).foldr (· + ·) last
  let shown := [3, 2, 1, 0].map fun i => Nat.toDigits 10 (value / Nat.pow 256 i % 256)
  some (['.'].intercalate shown)

/-- The written form of a host, if the text is one.  Letters are lowercase. -/
def parse (text : List Char) : Option (List Char) :=
  let lower := text.map Char.toLower
  match lower with
  | [] => none
  | '[' :: rest =>
    if rest.getLast? = some ']' && rest.dropLast.all (fun c => c.isDigit || c = ':' || c = '.' ||
      ('a' ≤ c && c ≤ 'f')) then some lower else none
  | _ =>
    if lower.any isForbidden then none
    else if isNumeric lower then machine? lower
    else some (['.'].intercalate ((splitAtEach (· == '.') lower).map asciiLabel))

end RepoDocs.Http.Host
