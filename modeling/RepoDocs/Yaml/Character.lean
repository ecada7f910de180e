/-! The characters of a YAML text and the places at which they stand.  Before a text is read its line
breaks are unified, so that each of them is one character. -/

namespace RepoDocs.Yaml

/-! ### Kinds of characters -/

/-- The line breaks that are left when all are unified: line feeds and the two separators. -/
def isBreak (c : Char) : Bool := c = '\n' || c = '\u2028' || c = '\u2029'

def isBlank (c : Char) : Bool := c = ' ' || c = '\t'

def isGap (c : Char) : Bool := isBlank c || isBreak c

/-- The characters of anchors, tag handles and the names of directives. -/
def isWordChar (c : Char) : Bool := c.isAlphanum || c = '_' || c = '-'

def isHexDigit (c : Char) : Bool :=
  c.isDigit || ('a' ≤ c && c ≤ 'f') || ('A' ≤ c && c ≤ 'F')

/-- The characters that may stand in a text, which has no control characters but breaks and tabs. -/
def isAllowed (c : Char) : Bool :=
  let n := c.toNat
  n = 0x09 || n = 0x0a || n = 0x0d || (0x20 ≤ n && n ≤ 0x7e) || n = 0x85 ||
    (0xa0 ≤ n && n ≤ 0xd7ff) || (0xe000 ≤ n && n ≤ 0xfffd) || 0x10000 ≤ n

/-- Whether a word ends where the rest of a text begins. -/
def endsWord : List Char → Bool
  | [] => true
  | c :: _ => isGap c

/-- Whether a text starts with a mark between documents: three of the character, and then no more of
a word. -/
def startsMark (c : Char) : List Char → Bool
  | x :: y :: z :: rest => x = c && y = c && z = c && endsWord rest
  | _ => false

/-- The text with a line feed for each line break other than the two separators. -/
def unifyBreaks : List Char → List Char
  | [] => []
  | '\r' :: '\n' :: rest => '\n' :: unifyBreaks rest
  | c :: rest => (if c = '\r' || c = '\u0085' then '\n' else c) :: unifyBreaks rest

/-! ### Places -/

/-- A place in a text, counted from 0: how many characters are before it in all and on its line, and how
many lines. -/
structure Place where
  index : Nat := 0
  line : Nat := 0
  column : Nat := 0
  deriving DecidableEq, Repr

/-- The place behind some characters that are no breaks. -/
def Place.advance (p : Place) (n : Nat) : Place :=
  { p with index := p.index + n, column := p.column + n }

/-- The place behind a character. -/
def Place.after (p : Place) (c : Char) : Place :=
  if isBreak c then ⟨p.index + 1, p.line + 1, 0⟩ else p.advance 1

/-- What is left of a text, and the place where that begins. -/
structure Cursor where
  rest : List Char
  place : Place := {}

namespace Cursor

/-- Skip some characters that are no breaks. -/
def skip (c : Cursor) (n : Nat) : Cursor := ⟨c.rest.drop n, c.place.advance n⟩

/-- Split off the characters, none of them a break, that satisfy `p`. -/
def split (c : Cursor) (p : Char → Bool) : List Char × Cursor :=
  let taken := c.rest.takeWhile p
  (taken, c.skip taken.length)

/-- Skip blanks. -/
def skipBlanks (c : Cursor) : Cursor := (c.split isBlank).2

/-- Skip the blanks and the comment at the end of a line, and the break behind them. -/
def skipLineEnd? (c : Cursor) : Option Cursor :=
  let c := c.skipBlanks
  let c := if c.rest.head? = some '#' then (c.split (!isBreak ·)).2 else c
  match c.rest with
  | [] => some c
  | b :: rest => if isBreak b then some ⟨rest, c.place.after b⟩ else none

end Cursor

end RepoDocs.Yaml
