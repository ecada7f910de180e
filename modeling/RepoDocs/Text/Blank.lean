/-! Blank characters, and the texts that remain when they are taken off the ends.  A character is
blank when Unicode gives it the property White_Space. -/

namespace RepoDocs.Text

/-- Whether Unicode calls the character white space. -/
def isBlank (c : Char) : Bool :=
  let n := c.toNat
  (9 ≤ n && n ≤ 13) || n == 0x20 || n == 0x85 || n == 0xA0 || n == 0x1680 ||
    (0x2000 ≤ n && n ≤ 0x200A) || n == 0x2028 || n == 0x2029 || n == 0x202F || n == 0x205F ||
    n == 0x3000

/-- The text without its leading blanks. -/
def trimStart (s : List Char) : List Char :=
  s.dropWhile isBlank

/-- The text without the characters at its end that satisfy `p`. -/
def dropEndWhile (p : Char → Bool) (s : List Char) : List Char :=
  (s.reverse.dropWhile p).reverse

/-- The text without the blanks at either end. -/
def trim (s : List Char) : List Char :=
  dropEndWhile isBlank (trimStart s)

/-- The string without the blanks at either end. -/
def trimmed (s : String) : String :=
  String.ofList (trim s.toList)

/-- Whether a string holds nothing but blanks. -/
def isBlankText (s : String) : Bool :=
  s.toList.all isBlank

/-- The lowercase form of the ASCII letters of a string; other characters stay. -/
def asciiLower (s : String) : String :=
  s.map Char.toLower

end RepoDocs.Text
