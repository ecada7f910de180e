/-! Decimal text as a double. -/

namespace RepoDocs.Decimal

/-- The number that digits give. -/
def ofDigits (ds : List Char) : Nat := ds.foldl (fun n c => n * 10 + (c.toNat - 48)) 0

/-- The double nearest to `digits * 10 ^ exponent`; infinite or zero where the exponent is beyond what
doubles reach. -/
def nearest (digits : Nat) (exponent : Int) : Float :=
  if digits = 0 then 0.0
  else if 400 < exponent then 1.0 / 0.0
  else if exponent < -400 - (Nat.log2 digits : Int) then 0.0
  else if 0 ≤ exponent then Float.ofScientific digits false exponent.natAbs
  else Float.ofScientific digits true exponent.natAbs

/-- An exponent with an optional sign, to the end of the text. -/
def exponent? : List Char → Option Int
  | '-' :: ds => if ds.isEmpty || !ds.all Char.isDigit then none else some (-(ofDigits ds : Int))
  | '+' :: ds => if ds.isEmpty || !ds.all Char.isDigit then none else some (ofDigits ds : Int)
  | ds => if ds.isEmpty || !ds.all Char.isDigit then none else some (ofDigits ds : Int)

/-- An unsigned decimal: digits with or without a point among, before or behind them, and perhaps an
exponent. -/
def float? (s : List Char) : Option Float :=
  let whole := s.takeWhile Char.isDigit
  let r := s.drop whole.length
  let (fraction, r) : List Char × List Char :=
    match r with
    | '.' :: t =>
      let ds := t.takeWhile Char.isDigit
      (ds, t.drop ds.length)
    | _ => ([], r)
  if whole.isEmpty && fraction.isEmpty then none
  else
    let digits := ofDigits (whole ++ fraction)
    let scale : Int := -(fraction.length : Int)
    match r with
    | [] => some (nearest digits scale)
    | c :: t =>
      if c = 'e' || c = 'E' then (exponent? t).map fun e => nearest digits (scale + e) else none

end RepoDocs.Decimal
