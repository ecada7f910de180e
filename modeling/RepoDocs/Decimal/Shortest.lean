/-! The shortest decimal that reads back as a given binary fraction.  A finite double is a whole
number of units `2 ^ exponent`; the decimals that round to it form an interval around it, and of the
coarsest power-of-ten grid that meets the interval the nearest point is taken. -/

namespace RepoDocs.Decimal

/-- A binary fraction `mantissa * 2 ^ exponent`.  `thinBelow` holds when the neighbour below is half
as far as the one above. -/
structure Binary where
  mantissa : Nat
  exponent : Int
  thinBelow : Bool
  deriving Repr, DecidableEq

/-- The magnitude of a finite double. -/
def Binary.ofFloat (x : Float) : Binary :=
  let bits : Nat := x.toBits.toNat
  let e : Nat := bits / Nat.pow 2 52 % 2048
  let f : Nat := bits % Nat.pow 2 52
  if e = 0 then ⟨f, -1074, false⟩ else ⟨f + Nat.pow 2 52, (e : Int) - 1075, f = 0 && 1 < e⟩

/-- A decimal `digits * 10 ^ exponent`. -/
structure Scaled where
  digits : Nat
  exponent : Int
  deriving Repr, DecidableEq

/-- `a * 2 ^ p` and `b * 10 ^ q` brought over a common denominator, for comparison. -/
def overCommon (a : Nat) (p : Int) (b : Nat) (q : Int) : Nat × Nat :=
  (a * Nat.pow 2 p.toNat * Nat.pow 10 (-q).toNat,
    b * Nat.pow 10 q.toNat * Nat.pow 2 (-p).toNat)

/-- Whether the decimal rounds to the binary fraction.  The ends of the interval round to it exactly
when its mantissa is even. -/
def Scaled.roundsTo (d : Scaled) (b : Binary) : Bool :=
  let low := overCommon (4 * b.mantissa - (if b.thinBelow then 1 else 2)) (b.exponent - 2)
    d.digits d.exponent
  let high := overCommon (4 * b.mantissa + 2) (b.exponent - 2) d.digits d.exponent
  if b.mantissa % 2 = 0 then low.1 ≤ low.2 && high.2 ≤ high.1 else low.1 < low.2 && high.2 < high.1

/-- The number of decimal digits of a number. -/
def digitCount (n : Nat) : Nat := (Nat.toDigits 10 n).length

/-- The exponent of the leading digit of a fraction that is not zero. -/
def leadingExponent (num den : Nat) : Int :=
  let guess : Int := (digitCount num : Int) - digitCount den
  if num * Nat.pow 10 (-guess).toNat < den * Nat.pow 10 guess.toNat then guess - 1 else guess

/-- The point of the grid with `n` digits that is nearest to the fraction and rounds to it; of two
equally near ones the even one. -/
def onGrid (b : Binary) (n : Nat) : Option Scaled :=
  let num := b.mantissa * Nat.pow 2 b.exponent.toNat
  let den := Nat.pow 2 (-b.exponent).toNat
  let k : Int := leadingExponent num den - n + 1
  let scaledNum := num * Nat.pow 10 (-k).toNat
  let scaledDen := den * Nat.pow 10 k.toNat
  let below := scaledNum / scaledDen
  let left := scaledNum % scaledDen
  let low : Scaled := ⟨below, k⟩
  let high : Scaled := ⟨below + 1, k⟩
  let nearest :=
    if 2 * left < scaledDen then [low, high]
    else if scaledDen < 2 * left then [high, low]
    else if below % 2 = 0 then [low, high] else [high, low]
  nearest.find? (·.roundsTo b)

/-- The shortest decimal that rounds to the fraction.  Seventeen digits always do. -/
def shortest (b : Binary) : Scaled :=
  if b.mantissa = 0 then ⟨0, 0⟩
  else ((List.range 17).findSome? fun n => onGrid b (n + 1)).getD ⟨0, 0⟩

/-- How numbers are written: positionally when the exponent of the leading digit lies between the
bounds, and otherwise with an exponent. -/
structure Style where
  leastPositional : Int
  mostPositional : Int

/-- The digits of the decimal without the zeros at their end, and the exponent of the leading one. -/
def Scaled.split (d : Scaled) : List Char × Int :=
  let all := Nat.toDigits 10 d.digits
  let kept := (all.reverse.dropWhile (· == '0')).reverse
  (if kept.isEmpty then ['0'] else kept, d.exponent + all.length - 1)

/-- The decimal in writing.  Positional numbers have a digit on either side of the point. -/
def Scaled.write (n : Style) (d : Scaled) : List Char :=
  let (digits, e) := d.split
  if n.leastPositional ≤ e && e ≤ n.mostPositional then
    if e < 0 then
      '0' :: '.' :: (List.replicate ((-e).toNat - 1) '0' ++ digits)
    else
      let whole := e.toNat + 1
      if digits.length ≤ whole then
        digits ++ List.replicate (whole - digits.length) '0' ++ ['.', '0']
      else digits.take whole ++ '.' :: digits.drop whole
  else
    let mantissa :=
      match digits with
      | [] => ['0']
      | [c] => [c]
      | c :: r => c :: '.' :: r
    let sign := if e < 0 then '-' else '+'
    mantissa ++ 'e' :: sign :: Nat.toDigits 10 e.natAbs

end RepoDocs.Decimal
