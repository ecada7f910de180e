/-! Texts in quotes, the way messages show them: quotes, backslashes and characters that cannot be
seen are escaped. -/

namespace RepoDocs.Text

/-- The first and last codes of the ranges of characters that cannot be seen: controls, spaces other
than the blank, format characters and characters for private use. -/
def unseenRanges : List (Nat × Nat) :=
  [(0x0, 0x1f), (0x7f, 0xa0), (0xad, 0xad), (0x600, 0x605), (0x61c, 0x61c), (0x6dd, 0x6dd),
    (0x70f, 0x70f), (0x890, 0x891), (0x8e2, 0x8e2), (0x1680, 0x1680), (0x180e, 0x180e),
    (0x2000, 0x200f), (0x2028, 0x202f), (0x205f, 0x206f), (0x3000, 0x3000), (0xe000, 0xf8ff),
    (0xfeff, 0xfeff), (0xfff0, 0xfffb), (0xfffe, 0xffff), (0x110bd, 0x110bd), (0x110cd, 0x110cd),
    (0x1bca0, 0x1bca3), (0x1d173, 0x1d17a), (0xe0000, 0xe00ff), (0xe01f0, 0x10ffff)]

/-- Whether a character cannot be seen. -/
def isUnseen (c : Char) : Bool :=
  unseenRanges.any fun (first, last) => first ≤ c.toNat && c.toNat ≤ last

/-- The letters that stand for characters behind a backslash. -/
def letterEscapes : List (Char × Char) :=
  [('\\', '\\'), ('\n', 'n'), ('\r', 'r'), ('\t', 't'), ('\x00', '0')]

/-- A character between quotes, where the characters in `quotes` have to be escaped. -/
def escapedChar (quotes : List Char) (c : Char) : List Char :=
  if quotes.contains c then ['\\', c]
  else
    match letterEscapes.lookup c with
    | some letter => ['\\', letter]
    | none =>
      if isUnseen c then ['\\', 'u', '\x7b'] ++ Nat.toDigits 16 c.toNat ++ ['\x7d'] else [c]

/-- A text in double quotes, in which the characters in `quotes` are escaped. -/
def quoted (quotes : List Char) (s : String) : String :=
  String.ofList ('"' :: s.toList.flatMap (escapedChar quotes) ++ ['"'])

end RepoDocs.Text
