import RepoDocs.Outline.Basic
import RepoDocs.Decimal.Parse

/-! The values of the constants that a parameter may default to. -/

namespace RepoDocs.Literal

open Json

/-- The text between two equal quotes; a text without them stays as it is. -/
def unquote (text : String) : String :=
  let cs := text.toList
  match cs, cs.getLast? with
  | first :: rest, some last =>
    if first = last && (first = '"' || first = '\'' || first = '\x60') && 2 ≤ cs.length then
      String.ofList rest.dropLast
    else text
  | _, _ => text

/-- The value of a digit of a base up to 16. -/
def digitValue? (base : Nat) (c : Char) : Option Nat :=
  let v :=
    if c.isDigit then c.toNat - 48
    else if 'a' ≤ c && c ≤ 'f' then c.toNat - 87
    else if 'A' ≤ c && c ≤ 'F' then c.toNat - 55
    else 16
  if v < base then some v else none

/-- The number that digits of a base give, if there are some and it fits a signed word. -/
def wordOfDigits? (base : Nat) (ds : List Char) : Option Nat :=
  if ds.isEmpty then none
  else
    (ds.mapM (digitValue? base)).bind fun vs =>
      let n := vs.foldl (fun n v => n * base + v) 0
      if n < Nat.pow 2 63 then some n else none

/-- The base that a prefix names. -/
def baseOf? : List Char → Option Nat
  | '0' :: 'x' :: _ | '0' :: 'X' :: _ => some 16
  | '0' :: 'o' :: _ | '0' :: 'O' :: _ => some 8
  | '0' :: 'b' :: _ | '0' :: 'B' :: _ => some 2
  | _ => none

/-- The value of a number literal.  A whole number that fits a signed word is one; a larger one in
decimal becomes a double, and one with a base none at all.  A literal that no finite double is near
has no value. -/
def number? (text : String) : Option Value :=
  let cs := text.toList.filter (· ≠ '_')
  match wordOfDigits? 10 cs with
  | some n => some (.ofNat n)
  | none =>
    match baseOf? cs with
    | some base => (wordOfDigits? base (cs.drop 2)).map .ofNat
    | none =>
      (Decimal.float? cs).bind fun x =>
        if x.isInf || x.isNaN then none else some (.number (.float x))

end RepoDocs.Literal
