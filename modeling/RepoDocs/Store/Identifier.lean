/-! Identifiers of records: 128 bits in hexadecimal digits, of which six say that the others are
random. -/

namespace RepoDocs

/-- Some digits of a number in hexadecimal, with zeros in front. -/
def hexDigits (width n : Nat) : String :=
  let digits := Nat.toDigits 16 (n % Nat.pow 16 width)
  String.ofList (List.replicate (width - digits.length) '0' ++ digits)

/-- The identifier whose free bits a number gives. -/
def identifier (n : Nat) : String :=
  let third := 0x4000 + n / Nat.pow 2 64 % 0x1000
  let fourth := 0x8000 + n / Nat.pow 2 48 % 0x4000
  "-".intercalate [hexDigits 8 (n / Nat.pow 2 96), hexDigits 4 (n / Nat.pow 2 80),
    hexDigits 4 third, hexDigits 4 fourth, hexDigits 12 n]

end RepoDocs
